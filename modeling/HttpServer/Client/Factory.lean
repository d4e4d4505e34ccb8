import HttpServer.Client
import HttpServer.Request.Parse
import HttpServer.Utils.Percent

/-! `http::ClientFactory`: the host and the port of a URL.

The scheme ends at the first `://` of the whole URL, and where there is none, `npos + 3` is
taken for the position behind it, which is 2. So a URL with a scheme is split as it should be
(`createClient_scheme`), and of one without the first two characters are lost, or everything
in front of a `://` in its path. -/
namespace HttpServer.ClientFactory
open Lib.Search Utils

/-! ### What `createClient` does -/

/-- `std::from_chars` of an `int` that has to take up the whole text. -/
def parsePort (portStr : Bytes) : Option Int :=
  let negative := portStr.head? == some (ch '-')
  let digits := if negative then portStr.drop 1 else portStr
  if digits = [] ∨ ¬ digits.all isDigit then none
  else
    let value : Int := if negative then -decimalValue digits else decimalValue digits
    if value < -2147483648 ∨ 2147483647 < value then none else some value

def npos : Nat := 18446744073709551615

/-- The protocol, and the part behind the `://`. -/
def splitUrl (url : Bytes) : Except Fault (Bytes × Bytes) :=
  match findFrom (text "://") url 0 with
  | none => do
    let remaining ← substrFrom url (sizeAdd npos 3)
    .ok (text "http", remaining)
  | some protocolEnd => do
    let protocol ← substr url 0 protocolEnd
    let remaining ← substrFrom url (protocolEnd + 3)
    .ok (protocol, remaining)

def isDelimiter (c : UInt8) : Bool := c == ch ':' || c == ch '/'

/-- `port_str`, from `port_start` up to the next slash. -/
def cutPort (remaining : Bytes) (portStart : Nat) : Except Fault Bytes :=
  match findByte (ch '/') remaining portStart with
  | none => substrFrom remaining portStart
  | some portEnd => substr remaining portStart (portEnd - portStart)

/-- The host, and the text of the port. -/
def splitHost (remaining : Bytes) : Except Fault (Bytes × Bytes) :=
  match remaining.findIdx? isDelimiter with
  | none => .ok (remaining, [])
  | some hostEnd => do
    let host ← substr remaining 0 hostEnd
    if remaining.getD hostEnd 0 = ch ':' then do
      let portStr ← cutPort remaining (hostEnd + 1)
      .ok (host, portStr)
    else .ok (host, [])

/-- The port of a text that was found for it, or the protocol's own. -/
def portNumber (secure : Bool) (portStr : Bytes) : Int :=
  if portStr = [] then (if secure then 443 else 80) else (parsePort portStr).getD 80

/-- `createClient(url)`. -/
def createClient (url : Bytes) : Except Fault BaseClient := do
  let (protocol, remaining) ← splitUrl url
  let (host, portStr) ← splitHost remaining
  .ok {host := host, port := portNumber (protocol == text "https") portStr}

/-! ### URLs -/

inductive Scheme where
  | http | https
  deriving DecidableEq, Repr

def Scheme.text : Scheme → Bytes
  | http => HttpServer.text "http"
  | https => HttpServer.text "https"

/-- A URL as it is put together: perhaps a scheme, a host, perhaps a port up to 65535, and
perhaps a path. -/
structure Url where
  scheme : Option Scheme
  host : {h : Bytes // h ≠ [] ∧ ch ':' ∉ h ∧ ch '/' ∉ h}
  port : Option {d : Bytes // d ≠ [] ∧ (∀ c ∈ d, isDigit c) ∧ decimalValue d ≤ 65535}
  path : {p : Bytes // ∀ c, p.head? = some c → c = ch '/'}

namespace Url

def portText (u : Url) : Bytes := (u.port.map fun d => ch ':' :: d.val).getD []

/-- What stands behind the scheme. -/
def rest (u : Url) : Bytes := u.host.val ++ (u.portText ++ u.path.val)

def bytes (u : Url) : Bytes :=
  (u.scheme.map fun scheme => scheme.text ++ text "://").getD [] ++ u.rest

/-- The port that is meant. -/
def number (u : Url) : Int :=
  match u.port with
  | some d => decimalValue d.val
  | none => if u.scheme = some .https then 443 else 80

/-- The client is one for this host and this port. -/
def Split (u : Url) : Prop := createClient u.bytes = .ok {host := u.host.val, port := u.number}

end Url

/-! ### Host and port of what is left -/

/-- Up to the first delimiter. -/
def hostPart (r : Bytes) : Bytes := r.takeWhile fun c => !isDelimiter c

/-- Behind a colon, up to the next slash. -/
def behindColon : Bytes → Bytes
  | [] => []
  | c :: rest => if c = ch ':' then rest.takeWhile (· ≠ ch '/') else []

def portPart (r : Bytes) : Bytes := behindColon (r.dropWhile fun c => !isDelimiter c)

/-- The text starts with the host, and with this port or what is taken for it. -/
def Leads (r host : Bytes) (port : Int) : Prop :=
  hostPart r = host ∧ portNumber false (portPart r) = port

/-- No delimiter up to here, and then one or the end. -/
structure HostEnds (host tail : Bytes) : Prop where
  plain : ∀ c ∈ host, isDelimiter c = false
  stop : ∀ c, tail.head? = some c → isDelimiter c = true

theorem HostEnds.parts {host tail : Bytes} (h : HostEnds host tail) :
    hostPart (host ++ tail) = host ∧ portPart (host ++ tail) = behindColon tail := by
  have hplain : ∀ c ∈ host, (!isDelimiter c) = true := fun c hc => by rw [h.plain c hc]; rfl
  unfold hostPart portPart
  rw [List.takeWhile_append_of_pos hplain, List.dropWhile_append_of_pos hplain]
  cases tail with
  | nil => exact ⟨List.append_nil _, rfl⟩
  | cons c rest =>
    have hstop : ¬ (!isDelimiter c) = true := by rw [h.stop c rfl]; decide
    rw [@List.takeWhile_cons_of_neg _ (fun c => !isDelimiter c) c rest hstop,
      @List.dropWhile_cons_of_neg _ (fun c => !isDelimiter c) c rest hstop]
    exact ⟨List.append_nil _, rfl⟩

theorem hostEnds_parts (r : Bytes) :
    HostEnds (hostPart r) (r.dropWhile fun c => !isDelimiter c) := by
  refine ⟨fun c hc => ?_, fun c hc => ?_⟩
  · simpa using List.mem_takeWhile_imp hc
  · have hhead := List.head?_dropWhile_not (fun c => !isDelimiter c) r
    rw [hc] at hhead
    simpa using hhead

/-- The text between a position and the next slash. -/
theorem cutPort_eq {remaining rest : Bytes} {portStart : Nat} (hle : portStart ≤ remaining.length)
    (hdrop : remaining.drop portStart = rest) :
    cutPort remaining portStart = .ok (rest.takeWhile (· ≠ ch '/')) := by
  have hfind : findByte (ch '/') remaining portStart =
      (findByte (ch '/') rest 0).map (· + portStart) := by
    rw [findByte, findByte, findFrom_eq hle hdrop, findFrom_zero]
  by_cases hslash : ch '/' ∈ rest
  · obtain ⟨hat, hsplit⟩ := Request.findByte_mem hslash
    rw [cutPort, hfind, hat]
    exact substr_between hle (hdrop.trans hsplit) (Nat.add_sub_cancel ..)
  · have hall : rest.takeWhile (· ≠ ch '/') = rest :=
      List.takeWhile_eq_self_iff.mpr fun c hc => decide_eq_true fun heq => hslash (heq ▸ hc)
    rw [cutPort, hfind, Request.findByte_not_mem hslash, hall, ← hdrop]
    exact substrFrom_of_le hle

theorem HostEnds.splitHost {host tail : Bytes} (h : HostEnds host tail) :
    splitHost (host ++ tail) = .ok (host, behindColon tail) := by
  have hhost : host.findIdx? isDelimiter = none := List.findIdx?_eq_none_iff.mpr h.plain
  unfold ClientFactory.splitHost
  cases tail with
  | nil =>
    rw [List.append_nil, hhost]
    rfl
  | cons c rest =>
    have hfound : (host ++ c :: rest).findIdx? isDelimiter = some host.length := by
      rw [List.findIdx?_append, hhost, List.findIdx?_cons, h.stop c rfl]
      simp
    have hlen : host.length + 1 ≤ (host ++ c :: rest).length := by
      rw [List.length_append, List.length_cons]
      omega
    have hdrop : (host ++ c :: rest).drop (host.length + 1) = rest := by
      rw [← List.drop_drop, List.drop_left]
      rfl
    have hget : (host ++ c :: rest).getD host.length 0 = c := by simp
    have hport := cutPort_eq hlen hdrop
    have hsub : substr (host ++ c :: rest) 0 host.length = .ok host :=
      substr_between (Nat.zero_le _) rfl rfl
    rw [hfound]
    simp only [hsub, hget, bind, Except.bind, behindColon]
    by_cases hc : c = ch ':'
    · rw [if_pos hc, if_pos hc, hport]
    · rw [if_neg hc, if_neg hc]

/-- The host goes up to the first delimiter. -/
theorem splitHost_eq (r : Bytes) : splitHost r = .ok (hostPart r, portPart r) := by
  have hsplit := (hostEnds_parts r).splitHost
  rwa [hostPart, List.takeWhile_append_dropWhile] at hsplit

theorem createClient_eq {url protocol remaining : Bytes}
    (h : splitUrl url = .ok (protocol, remaining)) :
    createClient url = .ok {
      host := hostPart remaining
      port := portNumber (protocol == text "https") (portPart remaining)} := by
  unfold createClient
  rw [h]
  simp only [bind, Except.bind, splitHost_eq]

theorem createClient_leads {url protocol remaining host : Bytes} {port : Int}
    (h : splitUrl url = .ok (protocol, remaining)) (hprotocol : protocol ≠ text "https") :
    createClient url = .ok {host := host, port := port} ↔ Leads remaining host port := by
  have hplain : (protocol == text "https") = false := beq_eq_false_iff_ne.mpr hprotocol
  rw [createClient_eq h, hplain, Leads]
  simp

/-! ### The parts of a URL -/

/-- A digit ends neither a host nor a port. -/
theorem digit_ne : ∀ c, isDigit c = true → isDelimiter c = false ∧ c ≠ ch '/' ∧ c ≠ ch ':' ∧
    c ≠ ch '-' :=
  every_byte (by decide +kernel)

theorem parsePort_digits {d : Bytes} (hne : d ≠ []) (hdigits : ∀ c ∈ d, isDigit c)
    (hmax : decimalValue d ≤ 65535) : parsePort d = some (decimalValue d : Int) := by
  have hsign : (d.head? == some (ch '-')) = false := by
    cases d with
    | nil => rfl
    | cons c d =>
      have hc := (digit_ne c (hdigits c (List.mem_cons_self ..))).2.2.2
      simpa using hc
  have hall : ¬ (d = [] ∨ ¬ d.all isDigit) := by
    rw [not_or, not_not]
    exact ⟨hne, List.all_eq_true.mpr hdigits⟩
  unfold parsePort
  simp only [hsign, Bool.false_eq_true, if_false]
  rw [if_neg hall, if_neg (by omega)]

namespace Url

theorem tail_head (u : Url) (c : UInt8) (h : (u.portText ++ u.path.val).head? = some c) :
    c = if u.port.isSome then ch ':' else ch '/' := by
  unfold portText at h
  cases hport : u.port with
  | none =>
    rw [hport] at h
    exact u.path.property c h
  | some d =>
    rw [hport] at h
    exact (Option.some.inj h).symm

theorem hostEnds (u : Url) : HostEnds u.host.val (u.portText ++ u.path.val) := by
  refine ⟨fun c hc => ?_, fun c hc => ?_⟩
  · have hcolon : c ≠ ch ':' := fun heq => u.host.property.2.1 (heq ▸ hc)
    have hslash : c ≠ ch '/' := fun heq => u.host.property.2.2 (heq ▸ hc)
    unfold isDelimiter
    rw [beq_eq_false_iff_ne.mpr hcolon, beq_eq_false_iff_ne.mpr hslash]
    rfl
  · rw [u.tail_head c hc]
    split <;> rfl

/-- The path is no port, and ends one. -/
theorem behindColon_path (u : Url) :
    behindColon u.path.val = [] ∧ u.path.val.takeWhile (· ≠ ch '/') = [] := by
  cases hpath : u.path.val with
  | nil => exact ⟨rfl, rfl⟩
  | cons c rest =>
    have hc : c = ch '/' := u.path.property c (by rw [hpath]; rfl)
    rw [behindColon, if_neg (by rw [hc]; decide), hc]
    exact ⟨rfl, rfl⟩

/-- The text of the port is found between the colon and the path. -/
theorem behindColon_tail (u : Url) :
    behindColon (u.portText ++ u.path.val) = (u.port.map Subtype.val).getD [] := by
  have hpath := u.behindColon_path
  unfold portText
  cases u.port with
  | none => exact hpath.1
  | some d =>
    have hdigits : ∀ c ∈ d.val, decide (c ≠ ch '/') = true := fun c hc =>
      decide_eq_true (digit_ne c (d.property.2.1 c hc)).2.1
    show (d.val ++ u.path.val).takeWhile (· ≠ ch '/') = d.val
    rw [List.takeWhile_append_of_pos hdigits, hpath.2, List.append_nil]

/-- The port of the URL, from the text that is found for it. -/
theorem portNumber_text (u : Url) (secure : Bool) :
    portNumber secure ((u.port.map Subtype.val).getD []) =
      match u.port with
      | some d => (decimalValue d.val : Int)
      | none => if secure then 443 else 80 := by
  unfold portNumber
  cases u.port with
  | none => rfl
  | some d =>
    obtain ⟨hne, hdigits, hmax⟩ := d.property
    show (if d.val = [] then _ else (parsePort d.val).getD 80) = _
    rw [if_neg hne, parsePort_digits hne hdigits hmax]
    rfl

/-- Where the scheme is taken for what it is, the URL is split. -/
theorem createClient_rest {u : Url} {url protocol : Bytes}
    (h : splitUrl url = .ok (protocol, u.rest)) :
    createClient url = .ok {
      host := u.host.val
      port := match u.port with
        | some d => (decimalValue d.val : Int)
        | none => if protocol == text "https" then 443 else 80} := by
  obtain ⟨hhost, hport⟩ := u.hostEnds.parts
  rw [createClient_eq h, rest, hhost, hport, behindColon_tail, portNumber_text]

theorem splitUrl_scheme (scheme : Scheme) (rest : Bytes) :
    splitUrl (scheme.text ++ text "://" ++ rest) = .ok (scheme.text, rest) := by
  have hcolon : ch ':' ∉ scheme.text := by cases scheme <;> decide
  have hseparator : text "://" = ch ':' :: text "//" := by decide
  have hfind : findFrom (text "://") (scheme.text ++ (text "://" ++ rest)) 0 =
      some scheme.text.length := by
    rw [findFrom_zero, hseparator]
    exact indexOf_delimiter hcolon rest
  have hdrop : (scheme.text ++ (text "://" ++ rest)).drop (scheme.text.length + 3) = rest := by
    rw [← List.drop_drop, List.drop_left]
    rfl
  have hlen : scheme.text.length + 3 ≤ (scheme.text ++ (text "://" ++ rest)).length := by
    rw [List.length_append, List.length_append, hseparator]
    exact Nat.add_le_add_left (Nat.le_add_right 3 _) _
  unfold splitUrl
  rw [List.append_assoc, hfind]
  simp only [substr_between (Nat.zero_le _) (List.drop_zero ..) rfl, bind, Except.bind,
    substrFrom_of_le hlen, hdrop]

/-- **With a scheme every URL is split.** -/
theorem split_scheme {u : Url} (h : u.scheme ≠ none) : u.Split := by
  obtain ⟨scheme, hscheme⟩ := Option.ne_none_iff_exists'.mp h
  unfold Split bytes number
  rw [hscheme]
  show createClient (scheme.text ++ text "://" ++ u.rest) = _
  rw [createClient_rest (splitUrl_scheme scheme u.rest)]
  cases scheme <;> rfl

/-! ### Without a scheme -/

theorem bytes_eq_rest {u : Url} (hscheme : u.scheme = none) : u.bytes = u.rest := by
  unfold bytes
  rw [hscheme]
  rfl

/-- The separator stands neither in the host nor at the port. -/
theorem indexOf_rest (u : Url) :
    indexOf (text "://") u.rest = (indexOf (text "://") u.path.val).map
      (· + (u.host.val ++ u.portText).length) := by
  have hseparator : text "://" = ch ':' :: text "//" := by decide
  have hskip : ∀ (a b : Bytes), ch ':' ∉ a →
      indexOf (text "://") (a ++ b) = (indexOf (text "://") b).map (· + a.length) := by
    intro a b ha
    rw [hseparator]
    exact indexOf_skip a fun j hj => not_prefix_drop ha b hj
  have hport : indexOf (text "://") (u.portText ++ u.path.val) =
      (indexOf (text "://") u.path.val).map (· + u.portText.length) := by
    unfold portText
    cases u.port with
    | none => simp
    | some d =>
      obtain ⟨hne, hdigits, _⟩ := d.property
      have hcolon : ch ':' ∉ d.val := fun hc => (digit_ne _ (hdigits _ hc)).2.2.1 rfl
      have hstart : ¬ text "://" <+: ch ':' :: (d.val ++ u.path.val) := by
        intro hp
        rw [hseparator] at hp
        have hnext := (List.cons_prefix_cons.mp hp).2
        cases hd : d.val with
        | nil => exact hne hd
        | cons c digits =>
          rw [hd] at hnext hdigits
          have hslash : ch '/' = c := (List.cons_prefix_cons.mp
            (show ch '/' :: [ch '/'] <+: c :: (digits ++ u.path.val) from hnext)).1
          exact (digit_ne c (hdigits c (List.mem_cons_self ..))).2.1 hslash.symm
      show indexOf _ (ch ':' :: (d.val ++ u.path.val)) = _
      rw [indexOf_cons_unprefixed hstart, hskip _ _ hcolon, Option.map_map]
      rfl
  rw [rest, hskip _ _ u.host.property.2.1, hport, Option.map_map, List.length_append]
  congr 1
  funext i
  simp only [Function.comp_apply]
  omega

/-- What is left leads to the same host and port: behind a separator in the path, or where
only the host, of one character, and the first slash of the path are lost. -/
def Recurs (u : Url) : Prop :=
  (∃ i, indexOf (text "://") u.path.val = some i ∧
    Leads (u.path.val.drop (i + 3)) u.host.val u.number) ∨
  (indexOf (text "://") u.path.val = none ∧ u.port = none ∧
    ∃ h r, u.host.val = [h] ∧ u.path.val = ch '/' :: r ∧ Leads r [h] 80)

/-- The path starts with a slash, which is no separator. -/
theorem slash_before_separator (u : Url) {i : Nat}
    (hi : indexOf (text "://") u.path.val = some i) : ch '/' ∈ u.path.val.take i := by
  obtain ⟨_, hpre, _⟩ := indexOf_eq_some hi
  cases hpath : u.path.val with
  | nil =>
    rw [hpath, List.drop_nil] at hpre
    exact absurd (List.prefix_nil.mp hpre) (by decide)
  | cons c more =>
    have hc : c = ch '/' := u.path.property c (by rw [hpath]; rfl)
    cases i with
    | zero =>
      rw [hpath, hc] at hpre
      exact absurd (List.cons_prefix_cons.mp hpre).1 (by decide)
    | succ i =>
      rw [hc]
      exact List.mem_cons_self ..

theorem split_separator {u : Url} (hscheme : u.scheme = none) {i : Nat}
    (hi : indexOf (text "://") u.path.val = some i) :
    u.Split ↔ Leads (u.path.val.drop (i + 3)) u.host.val u.number := by
  have hbytes := bytes_eq_rest hscheme
  have hrest : u.rest = (u.host.val ++ u.portText) ++ u.path.val := (List.append_assoc ..).symm
  obtain ⟨hlen, hpre, _⟩ := indexOf_eq_some hi
  have hroom : i + 3 ≤ u.path.val.length := by
    have hle := hpre.length_le
    rw [List.length_drop] at hle
    have hthree : (text "://").length = 3 := by decide
    omega
  have hfind : findFrom (text "://") u.bytes 0 =
      some (i + (u.host.val ++ u.portText).length) := by
    rw [findFrom_zero, hbytes, indexOf_rest, hi]
    rfl
  have hdrop : u.bytes.drop (i + (u.host.val ++ u.portText).length + 3) =
      u.path.val.drop (i + 3) := by
    rw [hbytes, hrest, Nat.add_right_comm, Nat.add_comm, ← List.drop_drop, List.drop_left]
  have hsplit : splitUrl u.bytes =
      .ok (u.bytes.take (i + (u.host.val ++ u.portText).length), u.path.val.drop (i + 3)) := by
    have hbound : i + (u.host.val ++ u.portText).length + 3 ≤ u.bytes.length := by
      rw [hbytes, hrest, @List.length_append _ (u.host.val ++ u.portText)]
      omega
    unfold splitUrl
    rw [hfind]
    simp only [bind, Except.bind, substrFrom_of_le hbound, hdrop,
      substr_of_le (Nat.zero_le _), List.drop_zero]
  refine createClient_leads hsplit fun hhttps => ?_
  -- What is taken for the protocol reaches into the path.
  have hslash := u.slash_before_separator hi
  have htake : u.bytes.take (i + (u.host.val ++ u.portText).length) =
      (u.host.val ++ u.portText) ++ u.path.val.take i := by
    rw [hbytes, hrest, Nat.add_comm, List.take_length_add_append]
  have hmem : ch '/' ∈ text "https" := by
    rw [← hhttps, htake]
    exact List.mem_append_right _ hslash
  exact absurd hmem (by decide)

/-- One digit is no port 80. -/
theorem digit_ne_eighty : ∀ c, isDigit c = true → (decimalValue [c] : Int) ≠ 80 :=
  every_byte (by decide +kernel)

/-- A host that is longer than one character has become shorter. -/
theorem host_of_leads {u : Url} (hleads : Leads (u.rest.drop 2) u.host.val u.number) :
    ∃ h, u.host.val = [h] := by
  cases hhost : u.host.val with
  | nil => exact absurd hhost u.host.property.1
  | cons h more =>
    cases more with
    | nil => exact ⟨h, rfl⟩
    | cons k more =>
      have hends : HostEnds more (u.portText ++ u.path.val) := by
        refine ⟨fun c hc => u.hostEnds.plain c ?_, u.hostEnds.stop⟩
        rw [hhost]
        exact List.mem_cons_of_mem _ (List.mem_cons_of_mem _ hc)
      have hsame := hleads.1
      rw [rest, hhost] at hsame
      have hlength := congrArg List.length (hends.parts.1.symm.trans hsame)
      simp at hlength
      omega

/-- The digits of a port would have to be the host, and there is no port then. -/
theorem port_of_leads {u : Url} {h : UInt8} (hhost : u.host.val = [h])
    (hleads : Leads (u.rest.drop 2) u.host.val u.number) : u.port = none := by
  cases hport : u.port with
  | none => rfl
  | some d =>
    obtain ⟨_, hdigits, _⟩ := d.property
    have hends : HostEnds d.val u.path.val := by
      refine ⟨fun c hc => (digit_ne c (hdigits c hc)).1, fun c hc => ?_⟩
      rw [u.path.property c hc]
      rfl
    have hrest : u.rest.drop 2 = d.val ++ u.path.val := by
      rw [rest, hhost, portText, hport]
      rfl
    have hnumber : u.number = decimalValue d.val := by
      rw [number, hport]
    obtain ⟨hsame, heighty⟩ := hleads
    rw [hrest, hends.parts.1, hhost] at hsame
    rw [hrest, hends.parts.2, u.behindColon_path.1, hnumber, hsame] at heighty
    exact absurd heighty.symm (digit_ne_eighty h (hdigits h (by rw [hsame]; simp)))

/-- Behind the first two characters the same host can only follow a slash. -/
theorem leads_rest {u : Url} (hscheme : u.scheme = none) (hlen : 2 ≤ u.rest.length) :
    Leads (u.rest.drop 2) u.host.val u.number ↔ u.port = none ∧
      ∃ h r, u.host.val = [h] ∧ u.path.val = ch '/' :: r ∧ Leads r [h] 80 := by
  have hnumber : u.port = none → u.number = 80 := by
    intro hport
    unfold number
    rw [hport, hscheme]
    rfl
  refine ⟨fun hleads => ?_, fun ⟨hport, h, r, hhost, hpath, hleads⟩ => ?_⟩
  · obtain ⟨h, hhost⟩ := host_of_leads hleads
    have hport := port_of_leads hhost hleads
    have hrest : u.rest = h :: u.path.val := by
      rw [rest, hhost, portText, hport]
      rfl
    cases hpath : u.path.val with
    | nil =>
      rw [hrest, hpath] at hlen
      exact absurd hlen (show ¬ 2 ≤ 1 by decide)
    | cons c r =>
      have hc : c = ch '/' := u.path.property c (by rw [hpath]; rfl)
      rw [hrest, hpath, hhost, hnumber hport] at hleads
      exact ⟨hport, h, r, hhost, by rw [hc], hleads⟩
  · rw [rest, hhost, portText, hport, hpath, hnumber hport]
    exact hleads

theorem split_short {u : Url} (hscheme : u.scheme = none)
    (hnone : indexOf (text "://") u.path.val = none) :
    u.Split ↔ u.port = none ∧
      ∃ h r, u.host.val = [h] ∧ u.path.val = ch '/' :: r ∧ Leads r [h] 80 := by
  have hbytes := bytes_eq_rest hscheme
  have hfind : findFrom (text "://") u.bytes 0 = none := by
    rw [findFrom_zero, hbytes, indexOf_rest, hnone]
    rfl
  have htwo : sizeAdd npos 3 = 2 := by decide
  by_cases hlen : 2 ≤ u.bytes.length
  · have hsplit : splitUrl u.bytes = .ok (text "http", u.bytes.drop 2) := by
      unfold splitUrl
      rw [hfind, htwo]
      simp only [bind, Except.bind, substrFrom_of_le hlen]
    rw [Split, createClient_leads hsplit (by decide), hbytes]
    rw [hbytes] at hlen
    exact u.leads_rest hscheme hlen
  · have hfails : createClient u.bytes = .error .outOfRange := by
      unfold createClient splitUrl
      rw [hfind, htwo, substrFrom, substr, if_neg hlen]
      rfl
    rw [Split, hfails]
    refine iff_of_false (fun h => ?_) (fun hshort => ?_)
    · cases h
    · obtain ⟨_, h, r, hhost, hpath, _⟩ := hshort
      rw [hbytes, rest, hhost, hpath] at hlen
      simp at hlen

/-- **A URL is split correctly** where it has a scheme, or what is left of it without one
happens to lead to the same host and port. -/
theorem split_iff (u : Url) : u.Split ↔ u.scheme ≠ none ∨ u.Recurs := by
  by_cases hscheme : u.scheme = none
  · unfold Recurs
    cases hi : indexOf (text "://") u.path.val with
    | some i =>
      rw [split_separator hscheme hi]
      simp [hscheme]
    | none =>
      rw [split_short hscheme hi]
      simp [hscheme]
  · exact iff_of_true (split_scheme hscheme) (.inl hscheme)

/-- A host of one letter and nothing else. -/
def letterUrl : Url where
  scheme := none
  host := ⟨text "a", by decide⟩
  port := none
  path := ⟨[], fun _ hc => absurd hc (by simp)⟩

/-- Of a name and a port without a scheme the first two letters are lost, and of a single
letter there are not two. -/
theorem split_loses_letters :
    (createClient (text "localhost:8080")).map BaseClient.host = .ok (text "calhost") ∧
      (createClient (text "a")).map BaseClient.host = .error .outOfRange ∧
      ¬ ∀ u : Url, u.Split := by
  have hletter : (createClient (text "a")).map BaseClient.host = .error .outOfRange := by
    decide +kernel
  refine ⟨by decide +kernel, hletter, fun h => ?_⟩
  have hsplit := h letterUrl
  rw [Split, show letterUrl.bytes = text "a" from rfl] at hsplit
  rw [hsplit] at hletter
  cases hletter

end Url
end HttpServer.ClientFactory
