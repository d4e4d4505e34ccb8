import Mathlib.Data.List.TakeWhile
import HttpServer.Request.Wire
import HttpServer.Utils.Encoding

/-! Parsing inverts writing.

The three scans of the constructor agree on a written request: the request line
ends at its first CRLF (`parseRequestLine_wire`), the header loop reads one line
after the other and stops behind the empty one (`parseHeadersLoop_fields`), and
the first CRLFCRLF is the end of that empty line whatever the body holds
(`headerEnd_wire`). -/
namespace HttpServer.Request
open Lib Lib.Search LaxRequest

/-! ### The query string never fails -/

theorem findByte_bounds {c : UInt8} {s : Bytes} {pos : Nat} (h : pos ≤ s.length) :
    pos ≤ (findByte c s pos).getD s.length ∧ (findByte c s pos).getD s.length ≤ s.length := by
  cases hf : findByte c s pos with
  | none => simpa using h
  | some i =>
    obtain ⟨hle, hlen, _⟩ := findFrom_eq_some hf
    exact ⟨hle, hlen⟩

/-- As much fuel as there are bytes left is enough, and no piece is out of range. -/
theorem parseQueryLoop_ok (q : Bytes) (fuel start : Nat) (m : Map Bytes Bytes)
    (h : q.length ≤ start + fuel) : ∃ m', parseQueryLoop q fuel start m = .ok m' := by
  induction fuel generalizing start m with
  | zero => exact ⟨m, by simp [parseQueryLoop, show ¬ start < q.length by omega]⟩
  | succ fuel ih =>
    by_cases hs : start < q.length
    · have hamp := @findByte_bounds (ch '&') q start hs.le
      have heq := @findByte_bounds (ch '=') q start hs.le
      simp only [parseQueryLoop, hs, if_true]
      by_cases hlt : (findByte (ch '=') q start).getD q.length <
          (findByte (ch '&') q start).getD q.length
      · rw [if_pos hlt, substr_of_le hs.le, substr_of_le (by omega)]
        exact ih _ _ (by omega)
      · rw [if_neg hlt, substr_of_le hs.le]
        exact ih _ _ (by omega)
    · exact ⟨m, by simp [parseQueryLoop, hs]⟩

theorem parseQueryString_ok (q : Bytes) (m : Map Bytes Bytes) :
    ∃ m', parseQueryString q m = .ok m' := by
  unfold parseQueryString
  split
  · exact ⟨m, rfl⟩
  · exact parseQueryLoop_ok q q.length 0 m (by omega)

/-! ### The request line -/

/-- A byte right behind a stretch without it. -/
theorem indexOf_byte {c : UInt8} {u : Bytes} (hu : c ∉ u) (v : Bytes) :
    indexOf [c] (u ++ ([c] ++ v)) = some u.length :=
  @indexOf_delimiter _ _ c [] u hu v

/-- The first `c` splits a string into what is before it and what is behind it. -/
theorem findByte_mem {c : UInt8} {s : Bytes} (h : c ∈ s) :
    findByte c s 0 = some (s.takeWhile (· ≠ c)).length ∧
      s = s.takeWhile (· ≠ c) ++ c :: (s.dropWhile (· ≠ c)).drop 1 := by
  have hsplit : s = s.takeWhile (· ≠ c) ++ c :: (s.dropWhile (· ≠ c)).drop 1 := by
    induction s with
    | nil => cases h
    | cons a s ih =>
      by_cases ha : a = c
      · simp [ha]
      · have hs : c ∈ s := (List.mem_cons.mp h).resolve_left fun hc => ha hc.symm
        simpa [ha] using ih hs
  refine ⟨?_, hsplit⟩
  have hnot : c ∉ s.takeWhile (· ≠ c) := by
    intro hc
    have := List.mem_takeWhile_imp hc
    simp at this
  have := indexOf_byte hnot ((s.dropWhile (· ≠ c)).drop 1)
  rw [findByte, findFrom_zero]
  conv => lhs; arg 2; rw [hsplit]
  exact this

theorem findByte_not_mem {c : UInt8} {s : Bytes} (h : c ∉ s) : findByte c s 0 = none := by
  rw [findByte, findFrom_zero, indexOf_absent h]

theorem not_space {t : Token} : ch ' ' ∉ t.val := fun h => (t.property _ h).1 rfl

/-- Where a line is cut: at its first two spaces. -/
theorem requestLine_words {method target : Bytes} (version : Bytes) (hmethod : ch ' ' ∉ method)
    (htarget : ch ' ' ∉ target) {line : Bytes}
    (hline : line = method ++ (ch ' ' :: (target ++ (ch ' ' :: version)))) :
    findByte (ch ' ') line 0 = some method.length ∧
      findByte (ch ' ') line (method.length + 1) = some (method.length + 1 + target.length) ∧
      substr line 0 method.length = .ok method ∧
      substr line (method.length + 1) (method.length + 1 + target.length - method.length - 1) =
        .ok target ∧
      substrFrom line (method.length + 1 + target.length + 1) = .ok version := by
  have hlen : line.length = method.length + (1 + (target.length + (1 + version.length))) := by
    rw [hline]
    simp
    omega
  have hdrop : line.drop (method.length + 1) = target ++ ([ch ' '] ++ version) := by
    rw [hline]
    simp [List.drop_append]
  refine ⟨?_, ?_, ?_, ?_, ?_⟩
  · rw [findByte, findFrom_zero, hline]
    exact indexOf_byte hmethod _
  · rw [findByte, findFrom_eq (by omega) hdrop, indexOf_byte htarget version]
    simp [Nat.add_comm]
  · exact substr_between (Nat.zero_le _) hline rfl
  · exact substr_between (by omega) hdrop (by omega)
  · rw [substrFrom_of_le (by omega), show method.length + 1 + target.length + 1 =
      method.length + 1 + (target.length + 1) by omega, ← List.drop_drop, hdrop,
      ← List.drop_drop, List.drop_left]
    rfl

/-- A request line whose target has no query. -/
theorem parseRequestLine_plain (req : Request) {method target : Bytes} (version : Bytes)
    (hmethod : ch ' ' ∉ method) (htarget : ch ' ' ∉ target) (hquery : ch '?' ∉ target) :
    parseRequestLine req (method ++ (ch ' ' :: (target ++ (ch ' ' :: version)))) =
      .ok {req with
        method := method, path := target, version := version, mimeType := getMimeType target
        params := ∅, query := ∅, normalizePath := target} := by
  obtain ⟨hm1, hm2, hcut, hpath, hversion⟩ := requestLine_words version hmethod htarget rfl
  unfold parseRequestLine
  simp only [hm1, hm2, hcut, hpath, hversion, bind, Except.bind, findByte_not_mem hquery]

/-- One whose target has a query that is read as the map `query`. -/
theorem parseRequestLine_query (req : Request) {method path queryString : Bytes} (version : Bytes)
    {query : Map Bytes Bytes} (hmethod : ch ' ' ∉ method)
    (htarget : ch ' ' ∉ path ++ ch '?' :: queryString) (hpath : ch '?' ∉ path)
    (hquery : parseQueryString queryString ∅ = .ok query) :
    parseRequestLine req
        (method ++ (ch ' ' :: (path ++ ch '?' :: queryString ++ (ch ' ' :: version)))) =
      .ok {req with
        method := method, path := path ++ ch '?' :: queryString, version := version
        mimeType := getMimeType (path ++ ch '?' :: queryString), params := ∅, query := query
        normalizePath := path, queryString := queryString} := by
  obtain ⟨hm1, hm2, hcut, htext, hversion⟩ := requestLine_words version hmethod htarget rfl
  have hfind : findByte (ch '?') (path ++ ch '?' :: queryString) 0 = some path.length := by
    rw [findByte, findFrom_zero]
    exact indexOf_byte hpath _
  have hnorm : substr (path ++ ch '?' :: queryString) 0 path.length = .ok path :=
    substr_between (Nat.zero_le _) rfl rfl
  have hrest : substrFrom (path ++ ch '?' :: queryString) (path.length + 1) = .ok queryString := by
    rw [substrFrom_of_le (by simp)]
    simp [List.drop_append]
  unfold parseRequestLine
  simp only [hm1, hm2, hcut, htext, hversion, bind, Except.bind, hfind, hnorm, hrest, hquery]

/-- What the request line of a written request sets. -/
theorem parseRequestLine_wire (w : LaxRequest) :
    ∃ r, parseRequestLine {} w.requestLine = .ok r ∧ r.method = w.method.val ∧
      r.path = w.target.val ∧ r.version = w.version.val ∧
      r.normalizePath = w.target.val.takeWhile (· ≠ ch '?') ∧
      r.queryString = (w.target.val.dropWhile (· ≠ ch '?')).drop 1 ∧
      r.headers = ∅ ∧ r.params = ∅ ∧ r.body = [] := by
  by_cases hq : ch '?' ∈ w.target.val
  · obtain ⟨_, hsplit⟩ := findByte_mem hq
    obtain ⟨m, hm⟩ := parseQueryString_ok ((w.target.val.dropWhile (· ≠ ch '?')).drop 1) ∅
    have hpath : ch '?' ∉ w.target.val.takeWhile (· ≠ ch '?') := by
      intro hc
      have := List.mem_takeWhile_imp hc
      simp at this
    have hline := parseRequestLine_query {} w.version.val (@not_space w.method)
      (by rw [← hsplit]; exact not_space) hpath hm
    rw [← hsplit] at hline
    exact ⟨_, hline, rfl, rfl, rfl, rfl, rfl, rfl, rfl, rfl⟩
  · have hall : ∀ c ∈ w.target.val, (decide (c ≠ ch '?')) = true := by
      intro c hc
      simp only [decide_eq_true_eq]
      intro h
      exact hq (h ▸ hc)
    refine ⟨_, parseRequestLine_plain {} w.version.val not_space not_space hq,
      rfl, rfl, rfl, ?_, ?_, rfl, rfl, rfl⟩
    · exact (List.takeWhile_eq_self_iff.mpr hall).symm
    · rw [List.dropWhile_eq_nil_iff.mpr hall]
      rfl

/-! ### The header lines -/

/-- The end of a line is found behind it. -/
theorem indexOf_crlf {u : Bytes} (hu : ch '\r' ∉ u) (v : Bytes) :
    indexOf crlf (u ++ (crlf ++ v)) = some u.length :=
  @indexOf_delimiter _ _ (ch '\r') [ch '\n'] u hu v

theorem field_length (h : HeaderLine) :
    h.bytes.length = h.1.val.length + 2 + h.2.val.length := by
  simp [HeaderLine.bytes, text]
  omega

/-- One written header line is read as its name and its value. -/
theorem headerLine_field (raw : Bytes) (pos : Nat) (h : HeaderLine) (rest : Bytes)
    (hpos : pos ≤ raw.length) (hdrop : raw.drop pos = h.bytes ++ (crlf ++ rest))
    (m : Map Bytes Bytes) :
    headerLine raw pos (pos + h.bytes.length) m = .ok (m.insert h.1.val h.2.val) := by
  have hlen : raw.length = pos + (h.bytes.length + (2 + rest.length)) := by
    have := congrArg List.length hdrop
    simp only [List.length_drop, List.length_append] at this
    simp only [crlf, List.length_cons, List.length_nil] at this
    omega
  have hf := field_length h
  have hcolon : findByte (ch ':') raw pos = some (pos + h.1.val.length) := by
    have hd : raw.drop pos = h.1.val ++ ([ch ':'] ++ (ch ' ' :: h.2.val ++ (crlf ++ rest))) := by
      rw [hdrop]
      simp [HeaderLine.bytes, text]
    have hnot : ch ':' ∉ h.1.val := fun hc => (h.1.property _ hc).1 rfl
    rw [findByte, findFrom_eq hpos hd, indexOf_byte hnot]
    simp [Nat.add_comm]
  have hname : substr raw pos (pos + h.1.val.length - pos) = .ok h.1.val :=
    substr_between hpos (by rw [hdrop, HeaderLine.bytes, List.append_assoc]) (by omega)
  have hspace : raw[pos + h.1.val.length + 1]? = some (ch ' ') := by
    have : (raw.drop pos)[h.1.val.length + 1]? = some (ch ' ') := by
      rw [hdrop]
      simp [HeaderLine.bytes, text]
    rwa [List.getElem?_drop, ← Nat.add_assoc] at this
  have hvalue : substr raw (pos + h.1.val.length + 2)
      (pos + h.bytes.length - (pos + h.1.val.length + 2)) = .ok h.2.val := by
    refine substr_between (by omega) (v := crlf ++ rest) ?_ (by omega)
    rw [show pos + h.1.val.length + 2 = pos + (h.1.val.length + 2) by omega, ← List.drop_drop,
      hdrop]
    simp [HeaderLine.bytes, text, List.drop_append]
  have hcond : pos + h.1.val.length + 1 < pos + h.bytes.length ∧
      raw[pos + h.1.val.length + 1]? = some (ch ' ') := ⟨by omega, hspace⟩
  unfold headerLine
  simp only [hcolon]
  rw [if_pos (show pos + h.1.val.length < pos + h.bytes.length by omega), hname]
  simp only [bind, Except.bind, hcond, and_self, if_true, hvalue]

/-- The header loop reads every line and stops behind the empty one. -/
theorem parseHeadersLoop_fields (raw : Bytes) (headers : List HeaderLine)
    (rest : Bytes) (fuel pos : Nat) (m : Map Bytes Bytes) (hpos : pos ≤ raw.length)
    (hdrop : raw.drop pos = fields headers ++ (crlf ++ rest)) (hfuel : headers.length < fuel) :
    parseHeadersLoop raw fuel pos m =
      .ok (m.setAll (entries headers), pos + (fields headers).length + 2) := by
  induction headers generalizing fuel pos m with
  | nil =>
    obtain ⟨fuel, rfl⟩ : ∃ f, fuel = f + 1 := ⟨fuel - 1, by simp at hfuel; omega⟩
    have hlt : pos < raw.length := by
      have := congrArg List.length hdrop
      simp [fields, crlf] at this
      omega
    have hfind : findFrom crlf raw pos = some pos := by
      rw [findFrom_eq hpos hdrop, fields, List.flatMap_nil, List.nil_append,
        indexOf_prefixed (List.prefix_append _ _)]
      simp
    simp [parseHeadersLoop, hlt, hfind, fields, entries]
  | cons h headers ih =>
    obtain ⟨fuel, rfl⟩ : ∃ f, fuel = f + 1 := ⟨fuel - 1, by simp at hfuel; omega⟩
    have hd : raw.drop pos = h.bytes ++ (crlf ++ (fields headers ++ (crlf ++ rest))) := by
      rw [hdrop]
      simp [fields]
    have hlen : raw.length =
        pos + (h.bytes.length + (2 + (fields headers ++ (crlf ++ rest)).length)) := by
      have := congrArg List.length hd
      simp only [List.length_drop, List.length_append] at this ⊢
      simp only [crlf, List.length_cons, List.length_nil] at this ⊢
      omega
    have hf := field_length h
    have hfind : findFrom crlf raw pos = some (pos + h.bytes.length) := by
      rw [findFrom_eq hpos hd, indexOf_crlf (field_no_cr h)]
      simp [Nat.add_comm]
    have hdrop' : raw.drop (pos + h.bytes.length + 2) = fields headers ++ (crlf ++ rest) := by
      rw [Nat.add_assoc, ← List.drop_drop, hd]
      simp [crlf, List.drop_append]
    have hline := headerLine_field raw pos h _ hpos hd m
    have hrest := ih fuel (pos + h.bytes.length + 2) (m.insert h.1.val h.2.val) (by omega) hdrop'
      (by simpa using hfuel)
    have hne : ¬ pos + h.bytes.length = pos := by omega
    rw [parseHeadersLoop, if_pos (by omega), hfind]
    simp only [hne, if_false, hline]
    show parseHeadersLoop raw fuel (pos + h.bytes.length + 2) _ = _
    rw [hrest]
    simp only [fields, List.flatMap_cons, List.length_append, entries, List.map_cons,
      Map.setAll_cons, crlf, List.length_cons, List.length_nil]
    congr 2
    omega

/-! ### The empty line -/

/-- The first CRLFCRLF behind a line and the header lines that follow it. -/
theorem headerEnd_wire (u : Bytes) (hu : ch '\r' ∉ u) (headers : List HeaderLine)
    (body : Bytes) :
    ∃ k, indexOf (crlf ++ crlf) (u ++ (crlf ++ (fields headers ++ (crlf ++ body)))) = some k ∧
      k + 4 = (u ++ (crlf ++ (fields headers ++ crlf))).length := by
  induction headers generalizing u with
  | nil =>
    refine ⟨u.length, ?_, by simp [fields, crlf]⟩
    have := @indexOf_delimiter _ _ (ch '\r') [ch '\n', ch '\r', ch '\n'] _ hu body
    simpa [fields, crlf] using this
  | cons h headers ih =>
    obtain ⟨k, hk, hlen⟩ := ih h.bytes (field_no_cr h)
    obtain ⟨c, v, hcv, hc⟩ := fields_head h (crlf ++ (fields headers ++ (crlf ++ body)))
    have hsplit : u ++ (crlf ++ (fields (h :: headers) ++ (crlf ++ body))) =
        (u ++ crlf) ++ (c :: v) := by
      rw [← hcv]
      simp [fields]
    -- neither in the line nor in its end does CRLFCRLF start: a header line follows
    have hskip : ∀ j < (u ++ crlf).length,
        ¬ (crlf ++ crlf) <+: ((u ++ crlf) ++ (c :: v)).drop j := by
      intro j hj
      rw [List.append_assoc]
      simp only [crlf, List.length_append, List.length_cons, List.length_nil] at hj
      by_cases hju : j < u.length
      · exact not_prefix_drop hu _ hju
      · by_cases hje : j = u.length
        · subst hje
          rw [List.drop_left]
          simp only [crlf, List.cons_append, List.nil_append, List.cons_prefix_cons]
          intro hp
          exact hc hp.2.2.1.symm
        · have hj1 : j = u.length + 1 := by omega
          subst hj1
          rw [List.drop_append]
          simp only [crlf, List.drop_eq_nil_of_le (Nat.le_succ u.length), Nat.add_sub_cancel_left,
            List.cons_append, List.nil_append, List.drop_succ_cons, List.drop_zero,
            List.cons_prefix_cons]
          intro hp
          exact absurd hp.1 (by decide)
    refine ⟨k + (u ++ crlf).length, ?_, ?_⟩
    · rw [hsplit, indexOf_skip _ hskip, ← hcv, hk]
      rfl
    · simp only [fields, List.flatMap_cons, List.length_append] at hlen ⊢
      omega

/-! ### The whole request -/

theorem fields_fuel (headers : List HeaderLine) :
    headers.length ≤ (fields headers).length := by
  induction headers with
  | nil => exact Nat.zero_le _
  | cons h headers ih =>
    have := field_length h
    simp only [fields, List.flatMap_cons, List.length_append, List.length_cons] at ih ⊢
    omega

/-- The parsed request, field by field. -/
theorem ofRaw_lax (w : LaxRequest) :
    ∃ r, ofRaw w.bytes = .ok r ∧ r.method = w.method.val ∧ r.path = w.target.val ∧
      r.version = w.version.val ∧ r.body = w.body ∧
      r.headers = Map.ofList (entries w.headers) ∧
      r.normalizePath = w.target.val.takeWhile (· ≠ ch '?') ∧
      r.queryString = (w.target.val.dropWhile (· ≠ ch '?')).drop 1 ∧ r.params = ∅ := by
  obtain ⟨r, hr, hmethod, hpath, hversion, hnorm, hquery, hheaders, hparams, _⟩ :=
    parseRequestLine_wire w
  have hcr := requestLine_no_cr w
  have hlen : w.bytes.length =
      w.requestLine.length + (2 + ((fields w.headers).length + (2 + w.body.length))) := by
    simp [bytes, crlf]
    omega
  have hfind : findFrom crlf w.bytes 0 = some w.requestLine.length := by
    rw [findFrom_zero]
    exact indexOf_crlf hcr _
  have hline : substr w.bytes 0 w.requestLine.length = .ok w.requestLine :=
    substr_between (Nat.zero_le _) rfl rfl
  have hdrop : w.bytes.drop (w.requestLine.length + 2) =
      fields w.headers ++ (crlf ++ w.body) := by
    rw [← List.drop_drop, bytes, List.drop_left]
    rfl
  have hfields := fields_fuel w.headers
  have hloop := parseHeadersLoop_fields w.bytes w.headers w.body w.bytes.length
    (w.requestLine.length + 2) r.headers (by omega) hdrop (by omega)
  obtain ⟨k, hk, hk4⟩ := headerEnd_wire w.requestLine hcr w.headers w.body
  have hend : findFrom (crlf ++ crlf) w.bytes 0 = some k := by
    rw [findFrom_zero]
    exact hk
  have hbody : substrFrom w.bytes (k + 4) = .ok w.body := by
    rw [substrFrom_of_le (by rw [hk4, hlen]; simp [crlf]; omega), hk4]
    have : w.bytes = (w.requestLine ++ (crlf ++ (fields w.headers ++ crlf))) ++ w.body := by
      simp [bytes]
    rw [this, List.drop_left]
  refine ⟨{r with headers := r.headers.setAll (entries w.headers), body := w.body}, ?_, hmethod,
    hpath, hversion, rfl, ?_, hnorm, hquery, hparams⟩
  · simp only [ofRaw, hfind, hline, bind, Except.bind, hr, parseHeaders, hloop, hend, hbody]
  · rw [hheaders]
    rfl

theorem ofRaw_wire (w : WireRequest) :
    ∃ r, ofRaw w.bytes = .ok r ∧ r.method = w.method.val ∧ r.path = w.target.val ∧
      r.version = w.version.val ∧ r.body = w.body ∧
      r.headers = Map.ofList (WireRequest.entries w.headers) ∧
      r.normalizePath = w.target.val.takeWhile (· ≠ ch '?') ∧
      r.queryString = (w.target.val.dropWhile (· ≠ ch '?')).drop 1 ∧ r.params = ∅ := by
  have hlax := ofRaw_lax w.lax
  rwa [w.lax_bytes, w.lax_entries] at hlax

/-! ### The clients' requests -/

theorem digit_no_break {c : Char} (h : c.isDigit) : ch c ≠ ch '\r' ∧ ch c ≠ ch '\n' := by
  have hc : 48 ≤ c.toNat ∧ c.toNat ≤ 57 := Char.isDigit_iff_toNat.mp h
  have hd : (ch c).toNat = c.toNat := by
    rw [ch, Nat.toUInt8, UInt8.toNat_ofNat', Nat.mod_eq_of_lt (by omega)]
  have hne : ∀ b : UInt8, b.toNat < 48 → ch c ≠ b := by
    intro b hb he
    rw [← he, hd] at hb
    omega
  exact ⟨hne _ (by decide), hne _ (by decide)⟩

/-- A number in decimal has no line break in it. -/
theorem decimal_no_break (n : Int) :
    ∀ c ∈ text (toString n), c ≠ ch '\r' ∧ c ≠ ch '\n' := by
  intro c hc
  obtain ⟨d, hd, rfl⟩ := List.mem_map.mp hc
  have hnat : ∀ m : Nat, d ∈ m.repr.toList → ch d ≠ ch '\r' ∧ ch d ≠ ch '\n' := by
    intro m hm
    rw [Nat.toList_repr] at hm
    exact digit_no_break (Nat.isDigit_of_mem_toDigits (by decide) (by decide) hm)
  rw [Int.toString_eq_repr] at hd
  cases n with
  | ofNat m => exact hnat m hd
  | negSucc m =>
    have hd' : d ∈ ("-" ++ (m + 1).repr).toList := hd
    rw [String.toList_append] at hd'
    rcases List.mem_append.mp hd' with hd' | hd'
    · have : d = '-' := by simpa using hd'
      subst this
      decide
    · exact hnat _ hd'

/-- A value that starts with no space still does with something behind it that
does not either. -/
theorem head_append {u v : Bytes} (hu : u.head? ≠ some (ch ' ')) (hv : v.head? ≠ some (ch ' ')) :
    (u ++ v).head? ≠ some (ch ' ') := by
  cases u with
  | nil => exact hv
  | cons c u => simpa using hu

/-- The request of `HttpClient::sendRequest`: a request line, two headers and no body. -/
def sentRequest (host : FieldValue) (keepAlive : Bool) (method path : Token) : WireRequest :=
  {method := method, target := path
   version := ⟨text "HTTP/1.1", http_line⟩
   headers := [
     (⟨text "Host", host_name⟩, host),
     (⟨text "Connection", connection_name⟩,
       if keepAlive then ⟨text "keep-alive", every_char (by decide), by decide⟩
       else ⟨text "close", every_char (by decide), by decide⟩)]
   body := []}

theorem sentRequest_bytes (host : FieldValue) (keepAlive : Bool) (method path : Token) :
    (sentRequest host keepAlive method path).bytes =
      sendRequestText host.val keepAlive method.val path.val := by
  cases keepAlive <;>
    simp [sentRequest, WireRequest.bytes, WireRequest.requestLine, WireRequest.fields,
      WireRequest.field, crlf, sendRequestText, text]

theorem sendRequestText_wire (host : FieldValue) (keepAlive : Bool) (method path : Token) :
    ∃ w : WireRequest, w.bytes = sendRequestText host.val keepAlive method.val path.val ∧
      w.method = method ∧ w.target = path ∧ w.body = [] :=
  ⟨sentRequest host keepAlive method path, sentRequest_bytes host keepAlive method path,
    rfl, rfl, rfl⟩

theorem hostPort_no_break {host : Bytes} (hhost : ∀ c ∈ host, c ≠ ch '\r' ∧ c ≠ ch '\n')
    (port : Int) : ∀ c ∈ host ++ (text ":" ++ text (toString port)),
      c ≠ ch '\r' ∧ c ≠ ch '\n' := by
  intro c hc
  rcases List.mem_append.mp hc with hc | hc
  · exact hhost c hc
  · rcases List.mem_append.mp hc with hc | hc
    · have : c = ch ':' := by simpa [text] using hc
      subst this
      decide
    · exact decimal_no_break port c hc

/-- A key in base64 has no space and no line break in it. -/
theorem base64_no_break (random : Bytes) :
    (∀ c ∈ Utils.base64Encode random, c ≠ ch '\r' ∧ c ≠ ch '\n') ∧
      (Utils.base64Encode random).head? ≠ some (ch ' ') := by
  have htable : ∀ c ∈ Utils.lookupTable, c ≠ ch '\r' ∧ c ≠ ch '\n' ∧ c ≠ ch ' ' :=
    every (by decide)
  have halpha : ∀ c, Utils.Base64Byte c → c ≠ ch '\r' ∧ c ≠ ch '\n' ∧ c ≠ ch ' ' := by
    intro c hc
    rcases hc with hc | rfl
    · exact htable c hc
    · decide
  have hall := fun c hc => halpha c (Utils.base64Encode_alphabet random c hc)
  exact ⟨fun c hc => ⟨(hall c hc).1, (hall c hc).2.1⟩,
    fun h => (hall _ (List.mem_of_mem_head? h)).2.2 rfl⟩

/-- `WebSocketClient::handshake` writes a request line, five headers and no body. -/
theorem handshakeText_wire (host : FieldValue) (port : Int) (path : Token) (random : Bytes) :
    ∃ w : WireRequest, w.bytes = handshakeText host.val port path.val random ∧
      w.method.val = text "GET" ∧ w.target = path ∧ w.body = [] := by
  refine ⟨{
    method := ⟨text "GET", every_char (by decide)⟩, target := path
    version := ⟨text "HTTP/1.1", http_line⟩
    headers := [
      (⟨text "Host", host_name⟩,
        ⟨host.val ++ (text ":" ++ text (toString port)), hostPort_no_break host.property.1 port,
          head_append host.property.2 (by simp [text]; decide)⟩),
      (⟨text "Upgrade", every_char (by decide)⟩,
        ⟨text "websocket", every_char (by decide), by decide⟩),
      (⟨text "Connection", connection_name⟩, ⟨text "Upgrade", every_char (by decide), by decide⟩),
      (⟨text "Sec-WebSocket-Key", every_char (by decide)⟩,
        ⟨Utils.base64Encode random, base64_no_break random⟩),
      (⟨text "Sec-WebSocket-Version", every_char (by decide)⟩,
        ⟨text "13", every_char (by decide), by decide⟩)]
    body := []}, ?_, rfl, rfl, rfl⟩
  simp [WireRequest.bytes, WireRequest.requestLine, WireRequest.fields, WireRequest.field, crlf,
    handshakeText, text]

/-- **Parsing a written request gives back its parts**: the method, the target and
its two halves around the first question mark, the version, the headers with the
last duplicate winning, and the body, whatever bytes it holds. What the two
clients write are such requests. -/
theorem parsing_inverts_writing :
    (∀ w : WireRequest, ∃ r, ofRaw w.bytes = .ok r ∧ r.method = w.method.val ∧
      r.path = w.target.val ∧ r.version = w.version.val ∧ r.body = w.body ∧
      r.headers = Map.ofList (WireRequest.entries w.headers) ∧
      r.normalizePath = w.target.val.takeWhile (· ≠ ch '?') ∧
      r.queryString = (w.target.val.dropWhile (· ≠ ch '?')).drop 1) ∧
    (∀ (host : FieldValue) (keepAlive : Bool) (method path : Token), ∃ w : WireRequest,
      w.bytes = sendRequestText host.val keepAlive method.val path.val ∧
      w.method = method ∧ w.target = path ∧ w.body = []) ∧
    (∀ (host : FieldValue) (port : Int) (path : Token) (random : Bytes), ∃ w : WireRequest,
      w.bytes = handshakeText host.val port path.val random ∧
      w.method.val = text "GET" ∧ w.target = path ∧ w.body = []) := by
  refine ⟨fun w => ?_, sendRequestText_wire, handshakeText_wire⟩
  obtain ⟨r, hr, hmethod, hpath, hversion, hbody, hheaders, hnorm, hquery, _⟩ := ofRaw_wire w
  exact ⟨r, hr, hmethod, hpath, hversion, hbody, hheaders, hnorm, hquery⟩

end HttpServer.Request
