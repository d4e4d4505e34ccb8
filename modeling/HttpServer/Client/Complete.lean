import HttpServer.Client.Rounds

/-! Which bodies `parseChunkedBody` accepts.

A complete body (`CompleteBody`) is a sequence of chunks and a size line of value zero. It
can be read in one way only, since a size line says what stands behind it
(`CompleteBody.behind_line`): a recursion that strays from that once (`Misread`) has
accepted what is not complete. -/
namespace HttpServer.Client
open Lib Lib.Rounds Lib.Search Utils

/-- A chunk as it stands in a body: hexadecimal digits that say how long the data is. -/
structure SizedChunk where
  size : Bytes
  data : Bytes
  nonempty : size ≠ []
  exact : hexValue size = some data.length

def SizedChunk.bytes (c : SizedChunk) : Bytes := c.size ++ (crlf ++ (c.data ++ crlf))

/-- Chunks, then a size line of value zero; `r` is the data of the chunks. -/
def CompleteBody (s r : Bytes) : Prop :=
  ∃ (chunks : List SizedChunk) (last rest : Bytes), last ≠ [] ∧ hexValue last = some 0 ∧
    s = chunks.flatMap SizedChunk.bytes ++ (last ++ (crlf ++ rest)) ∧
    r = chunks.flatMap SizedChunk.data

theorem CompleteBody.last {line rest : Bytes} (hne : line ≠ []) (hvalue : hexValue line = some 0) :
    CompleteBody (line ++ (crlf ++ rest)) [] :=
  ⟨[], line, rest, hne, hvalue, rfl, rfl⟩

theorem CompleteBody.chunk (c : SizedChunk) {s r : Bytes} (h : CompleteBody s r) :
    CompleteBody (c.bytes ++ s) (c.data ++ r) := by
  obtain ⟨chunks, last, rest, hne, hvalue, rfl, rfl⟩ := h
  exact ⟨c :: chunks, last, rest, hne, hvalue, by simp, rfl⟩

/-- A complete body starts with a size line, and behind one that is not zero stand data
of its length, a line break and a complete body. -/
theorem CompleteBody.head {s r : Bytes} (h : CompleteBody s r) :
    ∃ line value rest, line ≠ [] ∧ s = line ++ (crlf ++ rest) ∧ hexValue line = some value ∧
      (0 < value → ∃ data s' r', rest = data ++ (crlf ++ s') ∧ data.length = value ∧
        CompleteBody s' r') := by
  obtain ⟨chunks, last, rest, hne, hvalue, rfl, rfl⟩ := h
  cases chunks with
  | nil => exact ⟨last, 0, rest, hne, rfl, hvalue, fun hpos => absurd hpos (Nat.lt_irrefl 0)⟩
  | cons c chunks =>
    refine ⟨c.size, c.data.length, c.data ++ (crlf ++ (chunks.flatMap SizedChunk.bytes ++
      (last ++ (crlf ++ rest)))), c.nonempty, by simp [SizedChunk.bytes], c.exact, fun _ => ?_⟩
    exact ⟨c.data, _, _, rfl, rfl, chunks, last, rest, hne, hvalue, rfl, rfl⟩

/-- The first line break ends the size line. -/
theorem line_unique {line line' rest rest' : Bytes} {value value' : Nat}
    (hvalue : hexValue line = some value) (hvalue' : hexValue line' = some value')
    (h : line ++ (crlf ++ rest) = line' ++ (crlf ++ rest')) : line = line' ∧ rest = rest' := by
  have hlen : line.length = line'.length := by
    have hindex := Request.indexOf_crlf (hexValue_no_break hvalue) (v := rest)
    rw [h, Request.indexOf_crlf (hexValue_no_break hvalue')] at hindex
    exact (Option.some.inj hindex).symm
  obtain ⟨hline, hrest⟩ := List.append_inj h hlen
  exact ⟨hline, (List.append_inj hrest rfl).2⟩

/-- Behind a size line a complete body has only one way on. -/
theorem CompleteBody.behind_line {line rest r : Bytes} {value : Nat}
    (hvalue : hexValue line = some value) (h : CompleteBody (line ++ (crlf ++ rest)) r) :
    line ≠ [] ∧ (0 < value → ∃ data s' r', rest = data ++ (crlf ++ s') ∧ data.length = value ∧
      CompleteBody s' r') := by
  obtain ⟨line', value', rest', hne, hbody, hvalue', hbehind⟩ := h.head
  obtain ⟨rfl, rfl⟩ := line_unique hvalue hvalue' hbody
  rw [hvalue] at hvalue'
  cases hvalue'
  exact ⟨hne, hbehind⟩

/-! ### What is accepted -/

/-- The size lines lead to the end of the input or to the size zero. -/
inductive Accepted (s : Bytes) : Nat → Prop
  | ended {pos : Nat} (h : s.length ≤ pos) : Accepted s pos
  | zero {pos start : Nat} (h : sizeLine? s pos = some (start, 0)) : Accepted s pos
  | chunk {pos next : Nat} (h : nextCall s pos = some next) (hnext : Accepted s next) :
    Accepted s pos

theorem accepted_of_parseChunks {s : Bytes} {fuel pos : Nat} {result r : Bytes}
    (h : parseChunks s fuel pos result = .ok r) : Accepted s pos := by
  induction fuel generalizing pos result with
  | zero => cases h
  | succ fuel ih =>
    rcases parseChunks_cases s pos with ⟨hstop, _⟩ | ⟨_, _, herror⟩ | ⟨_, _, _, _, hgoes, hcall⟩
    · rcases hstop with hended | ⟨start, hzero⟩
      · exact .ended hended
      · exact .zero hzero
    · rw [herror] at h
      cases h
    · rw [hcall] at h
      exact .chunk hgoes (ih h)

theorem nextCall_eq_none_of_zero {s : Bytes} {pos start : Nat}
    (h : sizeLine? s pos = some (start, 0)) : nextCall s pos = none := by
  rw [nextCall, h, Option.bind_some, if_pos (.inl rfl)]

theorem nextCall_eq_none_of_ended {s : Bytes} {pos : Nat} (h : s.length ≤ pos) :
    nextCall s pos = none := by
  cases hnext : nextCall s pos with
  | none => rfl
  | some next => exact absurd (nextCall_inside hnext) (Nat.not_lt.mpr h)

theorem Accepted.ends {s : Bytes} {pos : Nat} (h : Accepted s pos) :
    ∃ n, Ends (nextCall s) n pos := by
  induction h with
  | ended h => exact ⟨0, .here (nextCall_eq_none_of_ended h)⟩
  | zero h => exact ⟨0, .here (nextCall_eq_none_of_zero h)⟩
  | chunk h _ ih =>
    obtain ⟨n, hn⟩ := ih
    exact ⟨n + 1, .later h hn⟩

/-- What the size lines lead to an end of is accepted, with fuel enough. -/
theorem Accepted.parseChunks {s : Bytes} {pos : Nat} (h : Accepted s pos) {fuel : Nat}
    {result : Bytes} (hfuel : parseChunks s fuel pos result ≠ .error .endless) :
    ∃ r, parseChunks s fuel pos result = .ok r := by
  induction h generalizing fuel result with
  | ended h =>
    cases fuel with
    | zero => exact absurd rfl hfuel
    | succ fuel => exact ⟨result, by rw [Client.parseChunks, if_pos h]⟩
  | zero h =>
    cases fuel with
    | zero => exact absurd rfl hfuel
    | succ fuel => exact ⟨result, by rw [parseChunks_line h, if_pos rfl]⟩
  | chunk h _ ih =>
    cases fuel with
    | zero => exact absurd rfl hfuel
    | succ fuel =>
      rcases parseChunks_cases s _ with ⟨_, hnone, _⟩ | ⟨hnone, _⟩ | ⟨_, _, _, _, hgoes, hcall⟩
      · rw [hnone] at h
        cases h
      · rw [hnone] at h
        cases h
      · rw [hgoes] at h
        cases h
        rw [hcall] at hfuel ⊢
        exact ih hfuel

/-! ### Where a body is misread -/

/-- From `pos` on a body that is not complete is accepted. -/
inductive Misread (s : Bytes) : Nat → Prop
  /-- The input ends where a size line should stand. -/
  | ended {pos : Nat} (h : s.length ≤ pos) : Misread s pos
  /-- A size line without digits. -/
  | noDigits {pos : Nat} (h : crlf <+: s.drop pos) : Misread s pos
  /-- A size that the input cannot have, and that is no `size_t` behind the line. -/
  | tooLong {pos value : Nat} {line rest : Bytes} (hline : s.drop pos = line ++ (crlf ++ rest))
    (hvalue : hexValue line = some value)
    (hlong : 18446744073709551616 ≤ pos + line.length + 2 + value) (h : Accepted s pos) :
    Misread s pos
  /-- Data that no line break follows. -/
  | unterminated {pos value : Nat} {line rest : Bytes}
    (hline : s.drop pos = line ++ (crlf ++ rest)) (hvalue : hexValue line = some value)
    (hpositive : 0 < value) (hroom : value ≤ rest.length) (hbreak : ¬ crlf <+: rest.drop value)
    (h : Accepted s (pos + line.length + 2 + value + 2)) : Misread s pos
  /-- Behind a chunk. -/
  | behind {pos : Nat} {line data rest : Bytes}
    (hline : s.drop pos = line ++ (crlf ++ (data ++ (crlf ++ rest))))
    (hvalue : hexValue line = some data.length) (hdata : data ≠ [])
    (h : Misread s (pos + line.length + 2 + data.length + 2)) : Misread s pos

/-- What stands behind a chunk. -/
theorem drop_chunk {s line data rest : Bytes} {pos : Nat}
    (h : s.drop pos = line ++ (crlf ++ (data ++ (crlf ++ rest)))) :
    s.drop (pos + line.length + 2 + data.length + 2) = rest := by
  have hlen : pos + line.length + 2 + data.length + 2 =
      pos + (line ++ (crlf ++ (data ++ crlf))).length := by
    simp [crlf]
    omega
  have hsplit : s.drop pos = line ++ (crlf ++ (data ++ crlf)) ++ rest := by
    rw [h]
    simp
  rw [hlen, ← List.drop_drop, hsplit, List.drop_left]

/-- A chunk of the body is what one call reads. -/
theorem nextCall_line {s : Buffer} {pos value : Nat} {line rest : Bytes}
    (hline : s.val.drop pos = line ++ (crlf ++ rest)) (hvalue : hexValue line = some value)
    (hpositive : 0 < value) (hroom : value ≤ rest.length) :
    nextCall s.val pos = some (pos + line.length + 2 + value + 2) := by
  have hshort := s.property
  have hlen := congrArg List.length hline
  have htwo : crlf.length = 2 := rfl
  rw [List.length_drop, List.length_append, List.length_append] at hlen
  have hread := sizeLine?_of hline hvalue
  rw [Nat.mod_eq_of_lt (by omega)] at hread
  exact nextCall_fits hread (by omega) (by omega)

theorem Misread.accepted {s : Buffer} {pos : Nat} (h : Misread s.val pos) :
    Accepted s.val pos := by
  induction h with
  | ended h => exact .ended h
  | noDigits h =>
    obtain ⟨rest, hrest⟩ := h
    have hline : _ = [] ++ (crlf ++ rest) := hrest.symm
    exact .zero (sizeLine?_of hline rfl)
  | tooLong _ _ _ h => exact h
  | unterminated hline hvalue hpositive hroom _ h =>
    exact .chunk (nextCall_line hline hvalue hpositive hroom) h
  | behind hline hvalue hdata _ ih =>
    refine .chunk (nextCall_line hline hvalue (List.length_pos_iff.mpr hdata) ?_) ih
    rw [List.length_append]
    exact Nat.le_add_right ..

theorem Misread.incomplete {s : Buffer} {pos : Nat} (h : Misread s.val pos) :
    ∀ r, ¬ CompleteBody (s.val.drop pos) r := by
  have hshort := s.property
  induction h with
  | ended h =>
    intro r hr
    obtain ⟨line, value, rest, hne, hbody, _⟩ := hr.head
    rw [List.drop_eq_nil_of_le h] at hbody
    exact hne (List.append_eq_nil_iff.mp hbody.symm).1
  | noDigits h =>
    intro r hr
    obtain ⟨rest, hrest⟩ := h
    rw [← hrest] at hr
    exact (@CompleteBody.behind_line [] rest r 0 rfl hr).1 rfl
  | tooLong hline hvalue hlong _ =>
    intro r hr
    have hlen := congrArg List.length hline
    have htwo : crlf.length = 2 := rfl
    rw [List.length_drop, List.length_append, List.length_append] at hlen
    rw [hline] at hr
    obtain ⟨data, s', r', rfl, hvalue', _⟩ := (hr.behind_line hvalue).2 (by omega)
    rw [List.length_append] at hlen
    omega
  | unterminated hline hvalue hpositive hroom hbreak _ =>
    intro r hr
    rw [hline] at hr
    obtain ⟨data, s', r', rfl, rfl, _⟩ := (hr.behind_line hvalue).2 hpositive
    exact hbreak ⟨s', by rw [List.drop_left]⟩
  | behind hline hvalue hdata _ ih =>
    intro r hr
    rw [hline] at hr
    obtain ⟨data', s', r', hrest, hlength, hcomplete⟩ :=
      (hr.behind_line hvalue).2 (List.length_pos_iff.mpr hdata)
    obtain ⟨_, htail⟩ := List.append_inj hrest hlength.symm
    have hsuffix := List.append_cancel_left htail
    apply ih r'
    rw [drop_chunk hline, hsuffix]
    exact hcomplete

/-! ### When only complete bodies are accepted -/

theorem no_empty_line {s line rest : Bytes} {pos : Nat}
    (hline : s.drop pos = line ++ (crlf ++ rest)) (h : ¬ Misread s pos) : line ≠ [] := by
  intro hnil
  rw [hnil] at hline
  exact h (.noDigits ⟨rest, hline.symm⟩)

/-- The end that the recursion comes to is a size line of value zero. -/
theorem last_line {s : Buffer} {pos start : Nat} (hline : sizeLine? s.val pos = some (start, 0))
    (h : ¬ Misread s.val pos) : CompleteBody (s.val.drop pos) [] := by
  obtain ⟨line, value, rest, hdrop, hvalue, rfl, hmod, _⟩ := sizeLine?_eq_some hline
  have hzero : value = 0 := by
    by_contra hne
    exact h (.tooLong hdrop hvalue (by omega) (.zero hline))
  rw [hzero] at hvalue
  rw [hdrop]
  exact .last (no_empty_line hdrop h) hvalue

/-- What a call appends before the recursion comes to an end is a chunk of the body. -/
theorem chunk_read {s : Buffer} {pos start size next : Nat}
    (hline : sizeLine? s.val pos = some (start, size)) (hnext : nextCall s.val pos = some next)
    (hbehind : Accepted s.val next) (h : ¬ Misread s.val pos) :
    ∃ (c : SizedChunk) (rest : Bytes), s.val.drop pos = c.bytes ++ rest ∧
      c.data = (s.val.drop start).take size ∧ s.val.drop next = rest ∧ ¬ Misread s.val next := by
  have hshort := s.property
  obtain ⟨line, value, rest, hdrop, hvalue, rfl, hmod, hrest, hstart⟩ := sizeLine?_eq_some hline
  have hlong : pos + line.length + 2 + value < 18446744073709551616 :=
    Nat.lt_of_not_le fun hlong => h (.tooLong hdrop hvalue hlong (.chunk hnext hbehind))
  rw [Nat.mod_eq_of_lt (by omega)] at hmod
  subst hmod
  have hsize : size ≠ 0 ∧ pos + line.length + 2 + size ≤ s.val.length := by
    obtain ⟨_, _, hline', hsize, hroom, _⟩ := nextCall_eq_some.mp hnext
    rw [hline] at hline'
    cases hline'
    rw [sizeAdd, Nat.mod_eq_of_lt hlong] at hroom
    exact ⟨hsize, hroom⟩
  obtain ⟨hsize, hroom⟩ := hsize
  rw [nextCall_fits hline hsize hroom] at hnext
  cases hnext
  have hlen := congrArg List.length hrest
  rw [List.length_drop] at hlen
  have hbreak : crlf <+: rest.drop size := by
    by_contra hbreak
    exact h (.unterminated hdrop hvalue (by omega) (by omega) hbreak hbehind)
  obtain ⟨behind, hbreak⟩ := hbreak
  have hdata : (rest.take size).length = size := by
    rw [List.length_take]
    omega
  have hcut : s.val.drop pos = line ++ (crlf ++ (rest.take size ++ (crlf ++ behind))) := by
    rw [hbreak, List.take_append_drop, hdrop]
  have hexact : hexValue line = some (rest.take size).length := by
    rw [hdata, hvalue]
  have hdropped := drop_chunk hcut
  rw [hdata] at hdropped
  refine ⟨⟨line, rest.take size, no_empty_line hdrop h, hexact⟩, behind, ?_, ?_, hdropped, ?_⟩
  · rw [hcut]
    simp [SizedChunk.bytes]
  · rw [hrest]
  · intro hbad
    refine h (.behind hcut hexact (List.length_pos_iff.mp (by omega)) ?_)
    rw [hdata]
    exact hbad

/-- What the recursion appends from `pos` on is the data of a complete body, if it does
not stray. -/
theorem complete_of_parseChunks {s : Buffer} {fuel pos : Nat} {result r : Bytes}
    (h : parseChunks s.val fuel pos result = .ok r) (hread : ¬ Misread s.val pos) :
    ∃ data, r = result ++ data ∧ CompleteBody (s.val.drop pos) data := by
  induction fuel generalizing pos result with
  | zero => cases h
  | succ fuel ih =>
    rcases parseChunks_cases s.val pos with ⟨hstop, _, hok⟩ | ⟨_, _, herror⟩ |
      ⟨start, size, next, hline, hnext, hcall⟩
    · rw [hok] at h
      cases h
      refine ⟨[], (List.append_nil _).symm, ?_⟩
      rcases hstop with hended | ⟨start, hzero⟩
      · exact absurd (.ended hended) hread
      · exact last_line hzero hread
    · rw [herror] at h
      cases h
    · rw [hcall] at h
      obtain ⟨c, rest, hdrop, hdata, hrest, hgood⟩ :=
        chunk_read hline hnext (accepted_of_parseChunks h) hread
      obtain ⟨data, rfl, hcomplete⟩ := ih h hgood
      rw [hrest] at hcomplete
      refine ⟨c.data ++ data, by rw [hdata, List.append_assoc], ?_⟩
      rw [hdrop]
      exact hcomplete.chunk c

/-- **Only complete bodies are accepted, except where one of these is misread.** -/
theorem parseChunkedBody_complete_iff (s : Buffer) :
    (∀ r, parseChunkedBody s.val = .ok r → CompleteBody s.val r) ↔ ¬ Misread s.val 0 := by
  constructor
  · intro h hbad
    obtain ⟨n, hn⟩ := hbad.accepted.ends
    obtain ⟨r, hr⟩ := hbad.accepted.parseChunks (parseChunks_ends hn [])
    exact hbad.incomplete r (h r hr)
  · intro hread r hr
    obtain ⟨data, rfl, hcomplete⟩ := complete_of_parseChunks hr hread
    exact hcomplete

/-- The connection was closed behind the first chunk, and the line behind it is empty. -/
theorem parseChunkedBody_truncated :
    (parseChunkedBody (text "5\r\nhello\r\n") = .ok (text "hello") ∧
      ¬ CompleteBody (text "5\r\nhello\r\n") (text "hello")) ∧
    parseChunkedBody (text "5\r\nhello\r\n\r\n") = .ok (text "hello") ∧
      ¬ CompleteBody (text "5\r\nhello\r\n\r\n") (text "hello") := by
  have hline : (text "5\r\nhello\r\n").drop 0 =
      text "5" ++ (crlf ++ (text "hello" ++ (crlf ++ []))) := by decide +kernel
  have hshort : (text "5\r\nhello\r\n").length < 9223372036854775808 := by decide +kernel
  have hended : Misread (text "5\r\nhello\r\n") 0 :=
    .behind hline (by decide +kernel) (by decide +kernel) (.ended (by decide +kernel))
  have hline' : (text "5\r\nhello\r\n\r\n").drop 0 =
      text "5" ++ (crlf ++ (text "hello" ++ (crlf ++ crlf))) := by decide +kernel
  have hshort' : (text "5\r\nhello\r\n\r\n").length < 9223372036854775808 := by decide +kernel
  have hempty : Misread (text "5\r\nhello\r\n\r\n") 0 :=
    .behind hline' (by decide +kernel) (by decide +kernel) (.noDigits (by decide +kernel))
  exact ⟨⟨by decide +kernel, Misread.incomplete (s := ⟨_, hshort⟩) hended _⟩, by decide +kernel,
    Misread.incomplete (s := ⟨_, hshort'⟩) hempty _⟩

end HttpServer.Client
