import HttpServer.Request.Total

/-! Where the head of a request ends.

The constructor looks for the end of the head twice: the header loop goes from
CRLF to CRLF until one follows another, and the body is behind the first CRLFCRLF
of the whole message. Both stop at the same place (`parseHeadersLoop_stops`),
whatever is in front of it and behind it, so nothing behind it can reach a header
(`head_and_body_apart`). -/
namespace HttpServer.Request
open Lib Lib.Search

/-- The head ends at `n`: CRLFCRLF stands right before, and nowhere earlier. -/
structure HeadEnd (raw : Bytes) (n : Nat) : Prop where
  four_le : 4 ≤ n
  found : findFrom (crlf ++ crlf) raw 0 = some (n - 4)

theorem HeadEnd.length_le {raw : Bytes} {n : Nat} (h : HeadEnd raw n) : n ≤ raw.length := by
  have hfits := findFrom_fits h.found
  have hfour := h.four_le
  simp only [List.length_append, crlf, List.length_cons, List.length_nil] at hfits
  omega

/-- A string with the same head ends its head in the same place. -/
theorem HeadEnd.congr {raw raw' : Bytes} {n : Nat} (h : HeadEnd raw n)
    (hsame : raw.take n = raw'.take n) : HeadEnd raw' n := by
  have hlen := congrArg List.length hsame
  have hle := h.length_le
  have hfour := h.four_le
  rw [List.length_take, List.length_take] at hlen
  refine ⟨hfour, findFrom_congr h.found ?_ hsame (by omega)⟩
  simp only [List.length_append, crlf, List.length_cons, List.length_nil]
  omega

/-! ### Where CRLF stands -/

theorem crlf_at {raw : Bytes} {j : Nat} :
    crlf <+: raw.drop j ↔ raw[j]? = some (ch '\r') ∧ raw[j + 1]? = some (ch '\n') := by
  rw [List.prefix_iff_getElem?]
  simp only [crlf, List.length_cons, List.length_nil, List.getElem?_drop]
  constructor
  · intro h
    exact ⟨h 0 (by decide), h 1 (by decide)⟩
  · intro h i hi
    have hcase : i = 0 ∨ i = 1 := by omega
    rcases hcase with rfl | rfl
    · exact h.1
    · exact h.2

/-- No CRLF starts inside another. -/
theorem crlf_next {raw : Bytes} {j : Nat} (h : crlf <+: raw.drop j) :
    ¬ crlf <+: raw.drop (j + 1) := by
  intro hnext
  have hsame := (crlf_at.mp h).2.symm.trans (crlf_at.mp hnext).1
  exact absurd (Option.some.inj hsame) (by decide)

theorem crlf_twice {raw : Bytes} {j : Nat} :
    crlf ++ crlf <+: raw.drop j ↔ crlf <+: raw.drop j ∧ crlf <+: raw.drop (j + 2) := by
  have hsplit : raw.drop (j + 2) = (raw.drop j).drop crlf.length := by
    rw [List.drop_drop]
    rfl
  rw [hsplit]
  constructor
  · intro h
    obtain ⟨rest, hrest⟩ := h
    rw [← hrest, List.append_assoc, List.drop_left]
    exact ⟨List.prefix_append .., List.prefix_append ..⟩
  · intro h
    obtain ⟨⟨rest, hrest⟩, hdrop⟩ := h
    rw [← hrest, List.drop_left] at hdrop
    rw [← hrest]
    exact (List.prefix_append_right_inj _).mpr hdrop

/-- The next CRLF of a line that starts in the head: the line is empty and the
head ends behind it, or the next line starts in the head too. -/
theorem HeadEnd.next_line {raw : Bytes} {n pos : Nat} (h : HeadEnd raw n) (hpos : 2 ≤ pos)
    (hbehind : crlf <+: raw.drop (pos - 2)) (hle : pos + 2 ≤ n) :
    ∃ lineEnd, findFrom crlf raw pos = some lineEnd ∧ lineEnd + 2 ≤ n ∧
      (lineEnd = pos → pos + 2 = n) ∧ (lineEnd ≠ pos → lineEnd + 4 ≤ n) := by
  have hfour := h.four_le
  have hlen := h.length_le
  obtain ⟨_, _, hpre, hmin⟩ := findFrom_eq_some h.found
  obtain ⟨hfirst, hsecond⟩ := crlf_twice.mp hpre
  have hlast : crlf <+: raw.drop (n - 2) := by
    rwa [show n - 4 + 2 = n - 2 by omega] at hsecond
  obtain ⟨lineEnd, hfind, hlineEnd⟩ := findFrom_le (show pos ≤ n - 2 by omega) (by omega) hlast
  obtain ⟨hge, _, hcrlf, hnone⟩ := findFrom_eq_some hfind
  refine ⟨lineEnd, hfind, by omega, fun heq => ?_, fun hne => ?_⟩
  · -- an empty line makes a CRLFCRLF, and there is none before the end
    rcases Nat.lt_or_ge (pos - 2) (n - 4) with hlt | hge'
    · have htwice : crlf ++ crlf <+: raw.drop (pos - 2) := by
        apply crlf_twice.mpr
        rw [show pos - 2 + 2 = pos by omega]
        exact ⟨hbehind, heq ▸ hcrlf⟩
      exact absurd htwice (hmin (pos - 2) (Nat.zero_le _) hlt)
    · omega
  · rcases Nat.lt_trichotomy pos (n - 3) with hlt | heq | hgt
    · -- the CRLF before the last one is not passed
      rcases Nat.lt_or_ge (n - 4) lineEnd with hpast | hbefore
      · exact absurd hfirst (hnone (n - 4) (by omega) hpast)
      · omega
    · -- a line cannot start between the two letters of a CRLF
      have hinside := crlf_next hbehind
      rw [show pos - 2 + 1 = n - 4 by omega] at hinside
      exact absurd hfirst hinside
    · have hend : pos = n - 2 := by omega
      omega

/-! ### The two scans -/

/-- A piece that ends in the head is read from the head. -/
theorem substr_congr {raw raw' : Bytes} {n pos k : Nat} (hsame : raw.take n = raw'.take n)
    (hn : n ≤ raw.length) (hn' : n ≤ raw'.length) (hend : pos + k ≤ n) :
    substr raw pos k = substr raw' pos k := by
  have hpiece : ∀ t : Bytes, (t.drop pos).take k = ((t.take n).drop pos).take k := by
    intro t
    rw [List.drop_take, List.take_take, Nat.min_eq_left (by omega)]
  rw [substr_of_le (by omega), substr_of_le (by omega), hpiece raw, hpiece raw', hsame]

/-- A byte that is found in front of the end of a line is found there in every
string with the same head. -/
theorem findByte_congr {raw raw' : Bytes} {n pos i : Nat} {c : UInt8}
    (hfind : findByte c raw pos = some i) (hi : i + 1 ≤ n) (hsame : raw.take n = raw'.take n)
    (hn' : n ≤ raw'.length) : findByte c raw' pos = some i :=
  findFrom_congr hfind hi hsame (by omega)

/-- A header line is read from the head alone. -/
theorem headerLine_congr {raw raw' : Bytes} {n pos lineEnd : Nat}
    (hsame : raw.take n = raw'.take n) (hend : lineEnd + 2 ≤ n) (hn : n ≤ raw.length)
    (hn' : n ≤ raw'.length) (headers : Map Bytes Bytes) :
    headerLine raw pos lineEnd headers = headerLine raw' pos lineEnd headers := by
  have hbyte : ∀ i, i + 1 ≤ n → raw[i]? = raw'[i]? := by
    intro i hi
    rw [← List.getElem?_take_of_lt (Nat.lt_of_succ_le hi), hsame,
      List.getElem?_take_of_lt (Nat.lt_of_succ_le hi)]
  -- a colon behind the line says as little as none
  have hbehind : ∀ t t' : Bytes, t.take n = t'.take n → n ≤ t'.length →
      (∀ i, findByte (ch ':') t' pos = some i → ¬ i < lineEnd) →
      ∀ i, findByte (ch ':') t pos = some i → ¬ i < lineEnd := by
    intro t t' ht hlen hnone i hfind hi
    exact hnone i (findByte_congr hfind (by omega) ht hlen) hi
  have hskip : ∀ t : Bytes, (∀ i, findByte (ch ':') t pos = some i → ¬ i < lineEnd) →
      headerLine t pos lineEnd headers = .ok headers := by
    intro t hnone
    unfold headerLine
    cases hfind : findByte (ch ':') t pos with
    | none => rfl
    | some i => exact if_neg (hnone i hfind)
  by_cases hcolon : ∃ i, findByte (ch ':') raw pos = some i ∧ i < lineEnd
  · obtain ⟨colon, hfind, hlt⟩ := hcolon
    have hfind' := findByte_congr hfind (by omega) hsame hn'
    have hle := (findByte_fits hfind).1
    have hvalue : ∀ start, start ≤ lineEnd →
        substr raw start (lineEnd - start) = substr raw' start (lineEnd - start) :=
      fun start hstart => substr_congr hsame hn hn' (by omega)
    unfold headerLine
    simp only [hfind, hfind', if_pos hlt, substr_congr hsame hn hn'
      (show pos + (colon - pos) ≤ n by omega), hbyte (colon + 1) (by omega)]
    split
    · next hspace => rw [hvalue (colon + 2) (by omega)]
    · rw [hvalue (colon + 1) (by omega)]
  · have hnone : ∀ i, findByte (ch ':') raw pos = some i → ¬ i < lineEnd := by
      intro i hfind hi
      exact hcolon ⟨i, hfind, hi⟩
    rw [hskip raw hnone, hskip raw' (hbehind raw' raw hsame.symm hn hnone)]

/-- The header loop stops where the head ends, and what it has read by then is
decided by the head. -/
theorem parseHeadersLoop_stops {raw raw' : Bytes} {n : Nat} (h : HeadEnd raw n)
    (hsame : raw.take n = raw'.take n) (fuel fuel' pos : Nat) (headers : Map Bytes Bytes)
    (hpos : 2 ≤ pos) (hbehind : crlf <+: raw.drop (pos - 2)) (hle : pos + 2 ≤ n)
    (hfuel : n ≤ pos + fuel) (hfuel' : n ≤ pos + fuel') :
    ∃ m, parseHeadersLoop raw fuel pos headers = .ok (m, n) ∧
      parseHeadersLoop raw' fuel' pos headers = .ok (m, n) := by
  have hlen := h.length_le
  have hlen' := (h.congr hsame).length_le
  induction fuel generalizing fuel' pos headers with
  | zero => omega
  | succ fuel ih =>
    cases fuel' with
    | zero => omega
    | succ fuel' =>
      obtain ⟨lineEnd, hfind, hend, hempty, hline⟩ := h.next_line hpos hbehind hle
      obtain ⟨hge, _, hnext, _⟩ := findFrom_eq_some hfind
      have hfind' : findFrom crlf raw' pos = some lineEnd :=
        findFrom_congr hfind hend hsame (by omega)
      unfold parseHeadersLoop
      rw [if_pos (show pos < raw.length by omega), if_pos (show pos < raw'.length by omega)]
      simp only [hfind, hfind']
      by_cases heq : lineEnd = pos
      · have hn : lineEnd + 2 = n := by
          rw [heq]
          exact hempty heq
        rw [if_pos heq, if_pos heq, hn]
        exact ⟨headers, rfl, rfl⟩
      · have hroom := hline heq
        obtain ⟨m, hm⟩ := headerLine_total raw (show pos ≤ raw.length by omega)
          (show lineEnd ≤ raw.length by omega) headers
        have hm' := hm
        rw [headerLine_congr hsame hend hlen hlen'] at hm'
        rw [if_neg heq, if_neg heq, hm, hm']
        exact ih fuel' (lineEnd + 2) m (by omega) hnext (by omega) (by omega) (by omega)

/-- The first line ends in the head. -/
theorem HeadEnd.first_line {raw : Bytes} {n : Nat} (h : HeadEnd raw n) :
    ∃ lineEnd, findFrom crlf raw 0 = some lineEnd ∧ lineEnd + 4 ≤ n := by
  have hfour := h.four_le
  have hlen := h.length_le
  obtain ⟨_, _, hpre, _⟩ := findFrom_eq_some h.found
  obtain ⟨lineEnd, hfind, hle⟩ :=
    findFrom_le (Nat.zero_le (n - 4)) (by omega) (crlf_twice.mp hpre).1
  exact ⟨lineEnd, hfind, by omega⟩

/-- Two strings with the same head are read as the same request, up to the body. -/
theorem ofRaw_congr {raw raw' : Bytes} {n : Nat} (h : HeadEnd raw n)
    (hsame : raw.take n = raw'.take n) :
    ∃ req : Request, ofRaw raw = .ok {req with body := raw.drop n} ∧
      ofRaw raw' = .ok {req with body := raw'.drop n} := by
  have hfour := h.four_le
  have hlen := h.length_le
  have h' := h.congr hsame
  have hlen' := h'.length_le
  obtain ⟨lineEnd, hfind, hle⟩ := h.first_line
  have hfind' : findFrom crlf raw' 0 = some lineEnd :=
    findFrom_congr hfind (show lineEnd + 2 ≤ n by omega) hsame (by omega)
  obtain ⟨line, hline⟩ : ∃ line, substr raw 0 lineEnd = .ok line :=
    ⟨_, substr_of_le (Nat.zero_le _) _⟩
  have hline' := hline
  rw [substr_congr hsame hlen hlen' (by omega)] at hline'
  obtain ⟨req, hreq⟩ := parseRequestLine_total {} line
  obtain ⟨m, hm, hm'⟩ := parseHeadersLoop_stops h hsame raw.length raw'.length (lineEnd + 2)
    req.headers (by omega) (findFrom_eq_some hfind).2.2.1 (by omega) (by omega) (by omega)
  have hbody : ∀ t : Bytes, n ≤ t.length → substrFrom t (n - 4 + 4) = .ok (t.drop n) := by
    intro t ht
    rw [Nat.sub_add_cancel hfour]
    exact substrFrom_of_le ht
  refine ⟨{req with headers := m}, ?_, ?_⟩
  · unfold ofRaw parseHeaders
    simp only [hfind, hline, hreq, hm, h.found, hbody raw hlen, bind, Except.bind]
  · unfold ofRaw parseHeaders
    simp only [hfind', hline', hreq, hm', h'.found, hbody raw' hlen', bind, Except.bind]

/-- **Head and body never mix.** On every byte string the constructor returns, and a
round of its header loop ends behind the place it starts at, inside the string. With a
CRLFCRLF in the string, the loop stops right behind the first one, where the body
starts, and whatever else stands there is read as the same request with another body. -/
theorem head_and_body_apart (raw : Bytes) :
    (∃ req, ofRaw raw = .ok req) ∧
    (∀ pos lineEnd, findFrom crlf raw pos = some lineEnd →
      pos < lineEnd + 2 ∧ lineEnd + 2 ≤ raw.length) ∧
    ∀ headerEnd, findFrom (crlf ++ crlf) raw 0 = some headerEnd →
      (∃ lineEnd, findFrom crlf raw 0 = some lineEnd ∧
        ∀ headers, ∃ m, parseHeaders raw (lineEnd + 2) headers = .ok (m, headerEnd + 4)) ∧
      (∀ req, ofRaw raw = .ok req → req.body = raw.drop (headerEnd + 4)) ∧
      ∀ raw', raw.take (headerEnd + 4) = raw'.take (headerEnd + 4) → ∀ req req',
        ofRaw raw = .ok req → ofRaw raw' = .ok req' → req' = {req with body := req'.body} := by
  refine ⟨ofRaw_total raw, fun pos lineEnd hfind => ?_, fun headerEnd hfound => ?_⟩
  · have hge := (findFrom_eq_some hfind).1
    have hfits : lineEnd + 2 ≤ raw.length := findFrom_fits hfind
    exact ⟨by omega, hfits⟩
  · have h : HeadEnd raw (headerEnd + 4) := ⟨Nat.le_add_left .., hfound⟩
    have hlen := h.length_le
    refine ⟨?_, fun req hreq => ?_, fun raw' hsame req req' hreq hreq' => ?_⟩
    · obtain ⟨lineEnd, hfind, hle⟩ := h.first_line
      refine ⟨lineEnd, hfind, fun headers => ?_⟩
      obtain ⟨m, hm, _⟩ := parseHeadersLoop_stops h rfl raw.length raw.length (lineEnd + 2)
        headers (by omega) (findFrom_eq_some hfind).2.2.1 (by omega) (by omega) (by omega)
      exact ⟨m, hm⟩
    · obtain ⟨_, hok, _⟩ := ofRaw_congr h rfl
      rw [hok] at hreq
      exact congrArg Request.body (Except.ok.inj hreq).symm
    · obtain ⟨_, hok, hok'⟩ := ofRaw_congr h hsame
      rw [hok] at hreq
      rw [hok'] at hreq'
      rw [← Except.ok.inj hreq, ← Except.ok.inj hreq']

end HttpServer.Request
