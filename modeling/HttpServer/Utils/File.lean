import HttpServer.Bytes

/-! Files, and the header values `utils` makes of their times and sizes.

The file system is a parameter of what reads it: `stat` and opening an
`ifstream` answer for each path, and a path ends at its first NUL. -/
namespace HttpServer.Utils

structure FileStat where
  isDir : Bool
  mtime : Int
  size : Nat

structure FileSystem where
  /-- `stat`, where it returns 0. -/
  stat : Bytes → Option FileStat
  /-- What a stream opened on the path reads, where it opens. -/
  contents : Bytes → Option Bytes

/-- `path.c_str()`. -/
def cStr (path : Bytes) : Bytes := path.takeWhile (· ≠ 0)

def readFile (fs : FileSystem) (path : Bytes) : Bytes := (fs.contents (cStr path)).getD []

/-- `std::to_string`. -/
def toDecimal (n : Int) : Bytes := text (toString n)

/-! ### The entity tag -/

def hexCharset : Bytes := text "0123456789abcdef"

/-- `do … while (n > 0)`, four bits a round: sixteen rounds at most. -/
def hexLoop : Nat → UInt64 → Bytes → Bytes
  | 0, _, ret => ret
  | fuel + 1, n, ret =>
    let ret := hexCharset.getD (n &&& 15).toNat 0 :: ret
    let n := n >>> 4
    if n > 0 then hexLoop fuel n ret else ret

def fromIntToHex (n : UInt64) : Bytes := hexLoop 16 n []

/-- A `size_t` or a `time_t` passed for an `int`. -/
def narrowToInt (n : Int) : Int := n.bmod 4294967296

def computeEtag (mtime : Int) (size : Nat) : Bytes :=
  if mtime < 0 then []
  else text "W/\"" ++ fromIntToHex (UInt64.ofNat mtime.toNat) ++ text "-" ++
    fromIntToHex (UInt64.ofNat size) ++ text "\""

/-! ### The date -/

/-- Year, month from 1 and day of a day counted from the first of January 1970. -/
def civilFromDays (days : Nat) : Nat × Nat × Nat :=
  let z := days + 719468
  let era := z / 146097
  let doe := z % 146097
  let yoe := (doe - doe / 1460 + doe / 36524 - doe / 146096) / 365
  let doy := doe - (365 * yoe + yoe / 4 - yoe / 100)
  let mp := (5 * doy + 2) / 153
  let day := doy - (153 * mp + 2) / 5 + 1
  let month := if mp < 10 then mp + 3 else mp - 9
  (yoe + era * 400 + (if month ≤ 2 then 1 else 0), month, day)

def dayNames : List String := ["Sun", "Mon", "Tue", "Wed", "Thu", "Fri", "Sat"]

def monthNames : List String :=
  ["Jan", "Feb", "Mar", "Apr", "May", "Jun", "Jul", "Aug", "Sep", "Oct", "Nov", "Dec"]

def twoDigits (n : Nat) : Bytes := if n < 10 then ch '0' :: toDecimal n else toDecimal n

/-- Nothing before 1970, and nothing where `gmtime_r` has no `int` for the year. -/
def fileMtimeToHttpDate (mtime : Int) : Bytes :=
  if mtime < 0 then []
  else
    let days := mtime.toNat / 86400
    let secs := mtime.toNat % 86400
    let (year, month, day) := civilFromDays days
    if 2147483648 + 1900 ≤ year then []
    else
      text (dayNames.getD ((days + 4) % 7) "") ++ text ", " ++ twoDigits day ++ text " " ++
        text (monthNames.getD (month - 1) "") ++ text " " ++ toDecimal year ++ text " " ++
        twoDigits (secs / 3600) ++ text ":" ++ twoDigits (secs / 60 % 60) ++ text ":" ++
        twoDigits (secs % 60) ++ text " GMT"

example : fileMtimeToHttpDate 1697873280 = text "Sat, 21 Oct 2023 07:28:00 GMT" := by decide

end HttpServer.Utils
