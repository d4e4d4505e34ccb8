import HttpServer.Request.Parse
import HttpServer.Utils.Percent

/-! Query strings: pairs that were percent-encoded and joined are what the request line
is read into.

One round of the loop reads one pair and stands behind its ampersand
(`parseQueryLoop_pair`); the rest is an induction on the pairs. -/
namespace HttpServer.Request
open Lib Lib.Search Utils

/-- Keys and values joined by equals signs, pairs by ampersands. -/
def queryText : List (Bytes × Bytes) → Bytes
  | [] => []
  | [(key, value)] => key ++ ch '=' :: value
  | (key, value) :: part :: parts =>
    key ++ ch '=' :: (value ++ ch '&' :: queryText (part :: parts))

theorem parseQueryLoop_end {q : Bytes} {start : Nat} (h : q.length ≤ start) (fuel : Nat)
    (m : Map Bytes Bytes) : parseQueryLoop q fuel start m = .ok m := by
  cases fuel with
  | zero => rw [parseQueryLoop, if_neg (Nat.not_lt.mpr h)]
  | succ fuel => rw [parseQueryLoop, if_neg (Nat.not_lt.mpr h)]

/-- One round: a pair, and an ampersand behind it unless the string ends there. -/
theorem parseQueryLoop_pair {q key value tail : Bytes} {start : Nat} (hle : start ≤ q.length)
    (hdrop : q.drop start = key ++ ch '=' :: (value ++ tail)) (hkey : ch '&' ∉ key)
    (hequals : ch '=' ∉ key) (hvalue : ch '&' ∉ value)
    (htail : tail = [] ∨ ∃ rest, tail = ch '&' :: rest) (fuel : Nat) (m : Map Bytes Bytes) :
    parseQueryLoop q (fuel + 1) start m =
      parseQueryLoop q fuel (start + (key.length + 1 + value.length) + 1)
        (m.insert (urlDecode key) (urlDecode value)) := by
  have hlen : q.length = start + (key.length + 1 + value.length + tail.length) := by
    have := congrArg List.length hdrop
    simp only [List.length_drop, List.length_append, List.length_cons] at this
    omega
  have hpair : ch '&' ∉ key ++ ch '=' :: value := by
    intro hc
    rcases List.mem_append.mp hc with hc | hc
    · exact hkey hc
    · rcases List.mem_cons.mp hc with hc | hc
      · exact absurd hc (by decide)
      · exact hvalue hc
  have hsplit : q.drop start = (key ++ ch '=' :: value) ++ tail := by
    rw [hdrop, List.append_assoc, List.cons_append]
  have hamp : (findByte (ch '&') q start).getD q.length =
      start + (key.length + 1 + value.length) := by
    rw [findByte, findFrom_eq hle hsplit]
    rcases htail with rfl | ⟨rest, rfl⟩
    · rw [List.append_nil, indexOf_absent hpair]
      simp only [List.length_nil] at hlen
      exact hlen
    · have hindex : indexOf [ch '&'] (key ++ ch '=' :: value ++ ch '&' :: rest) =
          some (key ++ ch '=' :: value).length := indexOf_byte hpair rest
      rw [hindex]
      simp
      omega
  have heq : (findByte (ch '=') q start).getD q.length = start + key.length := by
    have hindex : indexOf [ch '='] (key ++ ch '=' :: (value ++ tail)) = some key.length :=
      indexOf_byte hequals _
    rw [findByte, findFrom_eq hle hdrop, hindex]
    simp
    omega
  have hcut : substr q start (start + key.length - start) = .ok key :=
    substr_between hle hdrop (by omega)
  have hrest : substr q (start + key.length + 1)
      (start + (key.length + 1 + value.length) - (start + key.length) - 1) = .ok value := by
    refine substr_between (by omega) (v := tail) ?_ (by omega)
    rw [Nat.add_assoc, ← List.drop_drop, hdrop]
    simp [List.drop_append]
  rw [parseQueryLoop, if_pos (by omega)]
  simp only [hamp, heq]
  rw [if_pos (by omega), hcut, hrest]
  rfl

/-- The pairs, and one encoding of each key and value. -/
def EncodesAll (pairs parts : List (Bytes × Bytes)) : Prop :=
  List.Forall₂ (fun pair part => Encodes pair.1 part.1 ∧ Encodes pair.2 part.2) pairs parts

/-- The loop stores the pairs from `start` on, one after the other. -/
theorem parseQueryLoop_text {q : Bytes} {pairs parts : List (Bytes × Bytes)}
    (h : EncodesAll pairs parts) {start fuel : Nat} (m : Map Bytes Bytes) (hle : start ≤ q.length)
    (hdrop : q.drop start = queryText parts) (hfuel : q.length ≤ start + fuel) :
    parseQueryLoop q fuel start m = .ok (m.setAll pairs) := by
  induction h generalizing start fuel m with
  | nil =>
    refine parseQueryLoop_end ?_ fuel m
    have := congrArg List.length hdrop
    simp only [queryText, List.length_drop, List.length_nil] at this
    omega
  | @cons pair part pairs parts hpart hparts ih =>
    obtain ⟨key, value⟩ := part
    obtain ⟨hkey, hvalue⟩ := hpart
    have hne := encodes_ne hkey
    have hround := fun tail => @parseQueryLoop_pair q key value tail start hle
    have hamp : ch '&' ∉ key := fun hc => (hne _ hc).2.1 rfl
    have hequals : ch '=' ∉ key := fun hc => (hne _ hc).2.2 rfl
    have hamp' : ch '&' ∉ value := fun hc => (encodes_ne hvalue _ hc).2.1 rfl
    have hlen := congrArg List.length hdrop
    rw [List.length_drop] at hlen
    cases parts with
    | nil =>
      cases hparts
      simp only [queryText, List.length_append, List.length_cons] at hlen
      obtain ⟨fuel, rfl⟩ : ∃ f, fuel = f + 1 := ⟨fuel - 1, by omega⟩
      rw [hround [] (by rw [hdrop, List.append_nil]; rfl) hamp hequals hamp' (.inl rfl),
        urlDecode_encodes hkey, urlDecode_encodes hvalue, parseQueryLoop_end (by omega)]
      rfl
    | cons next parts =>
      simp only [queryText, List.length_append, List.length_cons] at hlen
      obtain ⟨fuel, rfl⟩ : ∃ f, fuel = f + 1 := ⟨fuel - 1, by omega⟩
      have hrest : q.drop (start + (key.length + 1 + value.length) + 1) =
          queryText (next :: parts) := by
        have hsplit : queryText ((key, value) :: next :: parts) =
            key ++ ch '=' :: (value ++ [ch '&']) ++ queryText (next :: parts) := by
          simp [queryText]
        rw [Nat.add_assoc, ← List.drop_drop, hdrop, hsplit, List.drop_left']
        simp only [List.length_append, List.length_cons, List.length_nil]
        omega
      rw [hround (ch '&' :: queryText (next :: parts)) hdrop hamp hequals hamp' (.inr ⟨_, rfl⟩),
        urlDecode_encodes hkey, urlDecode_encodes hvalue,
        ih _ (by omega) hrest (by omega)]
      rfl

/-- No word of a request line ends inside a query. -/
theorem queryText_no_space {pairs parts : List (Bytes × Bytes)} (h : EncodesAll pairs parts) :
    ch ' ' ∉ queryText parts := by
  induction h with
  | nil => exact List.not_mem_nil
  | @cons pair part pairs parts hpart hparts ih =>
    obtain ⟨key, value⟩ := part
    have hkey : ch ' ' ∉ key := fun hc => (encodes_ne hpart.1 _ hc).1 rfl
    have hvalue : ch ' ' ∉ value := fun hc => (encodes_ne hpart.2 _ hc).1 rfl
    cases parts with
    | nil =>
      simp only [queryText, List.mem_append, List.mem_cons, not_or]
      exact ⟨hkey, by decide, hvalue⟩
    | cons next parts =>
      simp only [queryText, List.mem_append, List.mem_cons, not_or]
      exact ⟨hkey, by decide, hvalue, by decide, ih⟩

/-- **Query strings round trip**: whatever the keys and the values are, and however their
bytes are escaped, the request line is read into the map of the pairs. The last pair of a
key wins. -/
theorem query_round_trip (req : Request) {method path version : Bytes}
    {pairs parts : List (Bytes × Bytes)} (hmethod : ch ' ' ∉ method)
    (hpath : ch '?' ∉ path ∧ ch ' ' ∉ path) (hparts : EncodesAll pairs parts) :
    ∃ r, parseRequestLine req
        (method ++ (ch ' ' :: (path ++ ch '?' :: queryText parts ++ (ch ' ' :: version)))) =
          .ok r ∧
      r.query = Map.ofList pairs ∧ r.normalizePath = path := by
  have hquery : parseQueryString (queryText parts) ∅ = .ok (Map.ofList pairs) := by
    have hloop := @parseQueryLoop_text (queryText parts) pairs parts hparts 0
      (queryText parts).length ∅ (Nat.zero_le _) rfl (by omega)
    unfold parseQueryString
    split
    · next hnil =>
      rw [hnil] at hloop
      exact hloop
    · exact hloop
  have htarget : ch ' ' ∉ path ++ ch '?' :: queryText parts := by
    simp only [List.mem_append, List.mem_cons, not_or]
    exact ⟨hpath.2, by decide, queryText_no_space hparts⟩
  exact ⟨_, parseRequestLine_query req version hmethod htarget hpath.1 hquery, rfl, rfl⟩

theorem query_round_trip_search :
    ∃ r, parseRequestLine {}
        (text "GET" ++ (ch ' ' :: (text "/search" ++ ch '?' ::
          queryText [(text "q", percentEncode (text "a b&c")), (text "q", text "%2d+")] ++
            (ch ' ' :: text "HTTP/1.1")))) = .ok r ∧
      r.query = Map.ofList [(text "q", text "a b&c"), (text "q", text "- ")] ∧
      r.normalizePath = text "/search" :=
  query_round_trip {} (by decide) (by decide)
    (.cons ⟨encodes_percentEncode (text "q"), encodes_percentEncode (text "a b&c")⟩
      (.cons ⟨encodes_percentEncode (text "q"), .escape rfl rfl rfl (.plus .nil)⟩ .nil))

end HttpServer.Request
