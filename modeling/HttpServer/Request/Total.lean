import HttpServer.Request.Parse

/-! Parsing never fails: whatever is received, every access of the constructor is
in range and its loops end. And whatever is received, the type goes by the path. -/
namespace HttpServer.Request
open Lib Lib.Search

theorem findByte_fits {c : UInt8} {s : Bytes} {pos i : Nat} (h : findByte c s pos = some i) :
    pos ≤ i ∧ i + 1 ≤ s.length :=
  ⟨(findFrom_eq_some h).1, findFrom_fits h⟩

theorem parseRequestLine_total (req : Request) (line : Bytes) :
    ∃ r, parseRequestLine req line = .ok r := by
  unfold parseRequestLine
  cases h1 : findByte (ch ' ') line 0 with
  | none => exact ⟨req, rfl⟩
  | some m1 =>
    have hm1 := findByte_fits h1
    simp only
    cases h2 : findByte (ch ' ') line (m1 + 1) with
    | none => exact ⟨req, rfl⟩
    | some m2 =>
      have hm2 := findByte_fits h2
      simp only [substr_of_le (Nat.zero_le _), substr_of_le hm1.2, substrFrom_of_le hm2.2]
      generalize hpath : ((line.drop (m1 + 1)).take (m2 - m1 - 1)) = path
      cases hq : findByte (ch '?') path 0 with
      | none => simp [bind, Except.bind, hq]
      | some q =>
        have hqf := findByte_fits hq
        obtain ⟨query, hquery⟩ := parseQueryString_ok (path.drop (q + 1)) ∅
        simp [bind, Except.bind, hq, substrFrom_of_le hqf.2, hquery]

theorem headerLine_total (raw : Bytes) {pos lineEnd : Nat} (hpos : pos ≤ raw.length)
    (hend : lineEnd ≤ raw.length) (headers : Map Bytes Bytes) :
    ∃ m, headerLine raw pos lineEnd headers = .ok m := by
  unfold headerLine
  cases hc : findByte (ch ':') raw pos with
  | none => exact ⟨headers, rfl⟩
  | some colon =>
    simp only
    split
    · next hlt =>
      have hstart : (if colon + 1 < lineEnd ∧ raw[colon + 1]? = some (ch ' ') then colon + 2
          else colon + 1) ≤ raw.length := by
        split <;> omega
      simp [bind, Except.bind, substr_of_le hpos, substr_of_le hstart]
    · exact ⟨headers, rfl⟩

/-- Every round goes on behind a CRLF, so the bytes left are fuel enough. -/
theorem parseHeadersLoop_total (raw : Bytes) (fuel pos : Nat) (headers : Map Bytes Bytes)
    (h : raw.length ≤ pos + fuel) : ∃ r, parseHeadersLoop raw fuel pos headers = .ok r := by
  induction fuel generalizing pos headers with
  | zero => exact ⟨(headers, pos), by simp [parseHeadersLoop, show ¬ pos < raw.length by omega]⟩
  | succ fuel ih =>
    unfold parseHeadersLoop
    split
    · next hpos =>
      cases hf : findFrom crlf raw pos with
      | none => exact ⟨(headers, pos), rfl⟩
      | some lineEnd =>
        have hle := (findFrom_eq_some hf).1
        have hfits := findFrom_fits hf
        obtain ⟨m, hm⟩ := headerLine_total raw hpos.le (show lineEnd ≤ raw.length by omega) headers
        simp only
        split
        · exact ⟨_, rfl⟩
        · simp only [hm, bind, Except.bind]
          exact ih (lineEnd + 2) m (by omega)
    · exact ⟨(headers, pos), rfl⟩

/-- **The constructor returns on every byte string.** -/
theorem ofRaw_total (raw : Bytes) : ∃ r, ofRaw raw = .ok r := by
  unfold ofRaw
  cases hf : findFrom crlf raw 0 with
  | none => exact ⟨{}, rfl⟩
  | some lineEnd =>
    obtain ⟨req, hreq⟩ := parseRequestLine_total {} (raw.take lineEnd)
    obtain ⟨⟨headers, pos⟩, hheaders⟩ :=
      parseHeadersLoop_total raw raw.length (lineEnd + 2) req.headers (by omega)
    have hline : substr raw 0 lineEnd = .ok (raw.take lineEnd) := by
      rw [substr_of_le (Nat.zero_le _), List.drop_zero]
    simp only [hline, hreq, parseHeaders, hheaders, bind, Except.bind]
    cases hb : findFrom (crlf ++ crlf) raw 0 with
    | none => exact ⟨_, rfl⟩
    | some headerEnd =>
      have hfits : headerEnd + 4 ≤ raw.length := findFrom_fits hb
      simp [substrFrom_of_le hfits]

/-- A request that was parsed, by what is known of it. -/
theorem exists_ofRaw {α : Type} {raw : Bytes} {f : Request → α} {known : α}
    (h : (ofRaw raw).toOption.map f = some known) : ∃ r, ofRaw raw = .ok r ∧ f r = known := by
  obtain ⟨r, hr⟩ := ofRaw_total raw
  rw [hr] at h
  exact ⟨r, hr, Option.some.inj h⟩

/-! ### The type of what is asked for -/

theorem parseRequestLine_mimeType {req req' : Request} {line : Bytes}
    (hreq : req.mimeType = getMimeType req.path) (h : parseRequestLine req line = .ok req') :
    req'.mimeType = getMimeType req'.path := by
  unfold parseRequestLine at h
  split at h
  · rw [← Except.ok.inj h]
    exact hreq
  · split at h
    · rw [← Except.ok.inj h]
      exact hreq
    · obtain ⟨method, _, h⟩ := bind_eq_ok h
      obtain ⟨path, _, h⟩ := bind_eq_ok h
      obtain ⟨version, _, h⟩ := bind_eq_ok h
      simp only at h
      split at h
      · obtain ⟨normalizePath, _, h⟩ := bind_eq_ok h
        obtain ⟨queryString, _, h⟩ := bind_eq_ok h
        obtain ⟨query, _, h⟩ := bind_eq_ok h
        rw [← Except.ok.inj h]
      · rw [← Except.ok.inj h]

/-- A request that was not parsed has neither a path nor a type. -/
theorem ofRaw_mimeType {raw : Bytes} {req : Request} (h : ofRaw raw = .ok req) :
    req.mimeType = getMimeType req.path := by
  have hnone : ({} : Request).mimeType = getMimeType ({} : Request).path := rfl
  unfold ofRaw at h
  split at h
  · rw [← Except.ok.inj h]
    exact hnone
  · obtain ⟨line, _, h⟩ := bind_eq_ok h
    obtain ⟨parsed, hparsed, h⟩ := bind_eq_ok h
    obtain ⟨headers, _, h⟩ := bind_eq_ok h
    have hmime := parseRequestLine_mimeType hnone hparsed
    simp only at h
    split at h
    · obtain ⟨body, _, h⟩ := bind_eq_ok h
      rw [← Except.ok.inj h]
      exact hmime
    · rw [← Except.ok.inj h]
      exact hmime

end HttpServer.Request
