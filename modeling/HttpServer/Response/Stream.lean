import HttpServer.Response.Message

/-! Events sent with `Response::stream`.

Every call goes through `build`, which writes a head of its own: only the first event has
the head in front that a client reads, and the next head stands among the events. So one
event makes a response, if no header of its response ends the head early, and no other
number of events does (`oneHead_iff`). -/
namespace HttpServer.Response
open Lib Lib.Search Utils

/-! ### What `stream` does -/

/-- `stream(content)`: the response afterwards, and the bytes that are handed to `send`. -/
def stream (fs : FileSystem) (res : Response) (content : Bytes) : Response × Option Bytes :=
  Response.build fs true {res with content := cStr content, contentType := .sse}

/-- What is sent by one call after the other, each of them in full. -/
def streamed (fs : FileSystem) : Response → List Bytes → Bytes
  | _, [] => []
  | res, event :: events =>
    (stream fs res event).2.getD [] ++ streamed fs (stream fs res event).1 events

/-- A string that is not empty, as a pointer to its first character passes it on. -/
abbrev Event : Type := {e : Bytes // e ≠ [] ∧ 0 ∉ e}

/-- A status line and header lines up to the first empty line. -/
structure IsHead (head : Bytes) : Prop where
  status : ∃ first rest, StatusLine first ∧ head = first ++ crlf ++ rest
  ends : indexOf (crlf ++ crlf) head = some (head.length - 4)

/-- One head, and then this body. -/
def OneHead (message body : Bytes) : Prop := ∃ head, message = head ++ body ∧ IsHead head

/-- Neither the name nor the value makes an empty line. -/
structure Unbroken (header : Bytes × Bytes) : Prop where
  name : ¬ crlf ++ crlf <:+: crlf ++ header.1
  value : ¬ crlf ++ crlf <:+: header.2 ++ crlf

/-! ### The head of one event -/

/-- A line break in between belongs to one side. -/
theorem infix_around_crlf (left right : Bytes) :
    crlf ++ crlf <:+: left ++ (crlf ++ right) ↔
      crlf ++ crlf <:+: left ++ crlf ∨ crlf ++ crlf <:+: crlf ++ right := by
  refine ⟨fun h => ?_, fun h => ?_⟩
  · induction left with
    | nil => exact .inr h
    | cons c left ih =>
      rcases List.infix_cons_iff.mp h with hstart | hinside
      · cases left with
        | nil =>
          have hnext := (List.cons_prefix_cons.mp hstart).2
          exact absurd (List.cons_prefix_cons.mp hnext).1 (by decide)
        | cons d left =>
          -- Four letters end before `right` starts.
          have hleft : c :: d :: left ++ crlf <+: c :: d :: left ++ (crlf ++ right) := by
            rw [← List.append_assoc]
            exact List.prefix_append _ _
          refine .inl (List.prefix_of_prefix_length_le hstart hleft ?_).isInfix
          show 4 ≤ (c :: d :: left ++ crlf).length
          rw [List.length_append, List.length_cons, List.length_cons]
          show 4 ≤ left.length + 1 + 1 + 2
          omega
      · rcases ih hinside with hl | hr
        · exact .inl (hl.trans (List.suffix_cons c _).isInfix)
        · exact .inr hr
  · rcases h with hl | hr
    · rw [← List.append_assoc]
      exact hl.trans (List.prefix_append _ _).isInfix
    · exact hr.trans (List.suffix_append _ _).isInfix

/-- No empty line comes up among the header lines where none is in a header. -/
theorem fieldLines_unbroken (left : Bytes) (headers : List (Bytes × Bytes)) :
    crlf ++ crlf <:+: left ++ (crlf ++ (fieldLines headers ++ [ch '\r'])) ↔
      crlf ++ crlf <:+: left ++ crlf ∨ ∃ e ∈ headers, ¬ Unbroken e := by
  induction headers generalizing left with
  | nil =>
    have hlast : ¬ crlf ++ crlf <:+ (left ++ crlf) ++ [ch '\r'] := by
      intro h
      obtain ⟨t, ht, _⟩ := (List.suffix_concat_iff.mp h).resolve_left (by decide)
      have hletter := congrArg List.getLast? ht
      rw [List.getLast?_concat] at hletter
      exact absurd hletter (by decide)
    have hsplit : left ++ (crlf ++ (fieldLines [] ++ [ch '\r'])) = (left ++ crlf) ++ [ch '\r'] :=
      (List.append_assoc ..).symm
    rw [hsplit, List.infix_concat_iff, or_iff_right hlast]
    simp
  | cons e headers ih =>
    have hcolon : ch ':' ∉ crlf ++ crlf := by decide
    have hspace : ch ' ' ∉ crlf ++ crlf := by decide
    have hempty : ¬ crlf ++ crlf <:+: [] := by decide
    have hsplit : left ++ (crlf ++ (fieldLines (e :: headers) ++ [ch '\r'])) =
        (left ++ (crlf ++ e.1)) ++ ch ':' :: ([] ++ ch ' ' ::
          (e.2 ++ (crlf ++ (fieldLines headers ++ [ch '\r'])))) := by
      rw [fieldLines, List.flatMap_cons, ← fieldLines]
      simp only [List.append_assoc, List.nil_append]
      rfl
    have hbroken : ¬ Unbroken e ↔
        crlf ++ crlf <:+: crlf ++ e.1 ∨ crlf ++ crlf <:+: e.2 ++ crlf := by
      rw [← not_iff_not, not_not, not_or]
      exact ⟨fun h => ⟨h.name, h.value⟩, fun h => ⟨h.1, h.2⟩⟩
    rw [hsplit, infix_append_cons_iff hcolon, infix_append_cons_iff hspace, infix_around_crlf, ih]
    simp only [List.mem_cons, exists_eq_or_imp, hbroken, hempty, false_or, or_assoc]

/-- One line break is too few for an empty line. -/
theorem one_break {left right : Bytes} (hl : ch '\r' ∉ left) (hr : ch '\r' ∉ right) :
    ¬ crlf ++ crlf <:+: left ++ (crlf ++ right) := by
  intro hinside
  have hcount := hinside.sublist.count_le (ch '\r')
  rw [@List.count_append _ _ _ left, @List.count_append _ _ _ crlf right,
    List.count_eq_zero.mpr hl, List.count_eq_zero.mpr hr] at hcount
  exact absurd hcount (by decide)

theorem Tidy.unbroken {e : Bytes × Bytes} (h : Tidy e) : Unbroken e := by
  refine ⟨?_, ?_⟩
  · exact @one_break [] e.1 List.not_mem_nil fun hc => (h.name_bytes _ hc).2.1 rfl
  · have hone := @one_break e.2 [] (fun hc => (h.value_bytes _ hc).1 rfl) List.not_mem_nil
    rwa [List.append_nil] at hone

/-- What stands in front of the content of a message with these headers. -/
def headOf (status : Status) (headers : List (Bytes × Bytes)) : Bytes :=
  status.toBytes ++ fieldLines headers ++ crlf

/-- Every line ends in a line break. -/
theorem ends_in_crlf (status : Status) (headers : List (Bytes × Bytes)) :
    ∃ lines, status.toBytes ++ fieldLines headers = lines ++ crlf := by
  obtain ⟨first, hfirst, _⟩ := toBytes_line status
  rw [hfirst]
  rcases List.eq_nil_or_concat headers with rfl | ⟨init, e, rfl⟩
  · exact ⟨first, List.append_nil _⟩
  · refine ⟨first ++ crlf ++ (fieldLines init ++ (e.1 ++ text ": " ++ e.2)), ?_⟩
    simp only [fieldLines, List.concat_eq_append, List.flatMap_append, List.flatMap_singleton,
      List.append_assoc]

theorem isHead_headOf (status : Status) (headers : List (Bytes × Bytes)) :
    IsHead (headOf status headers) ↔ ∀ e ∈ headers, Unbroken e := by
  obtain ⟨first, hfirst, hline⟩ := toBytes_line status
  obtain ⟨lines, hlines⟩ := ends_in_crlf status headers
  have hhead : headOf status headers = lines ++ ((crlf ++ [ch '\r']) ++ [ch '\n']) := by
    rw [headOf, hlines, List.append_assoc]
    rfl
  have hlength : (headOf status headers).length - 4 = lines.length := by
    rw [hhead, List.length_append]
    exact Nat.add_sub_cancel ..
  have hclear : ¬ crlf ++ crlf <:+: first ++ crlf := by
    have hone := @one_break first [] (fun hc => (hline.bytes _ hc).2.1 rfl) List.not_mem_nil
    rwa [List.append_nil] at hone
  have hends : indexOf (crlf ++ crlf) (headOf status headers) =
      some ((headOf status headers).length - 4) ↔ ∀ e ∈ headers, Unbroken e := by
    have hbefore : lines ++ (crlf ++ [ch '\r']) =
        first ++ (crlf ++ (fieldLines headers ++ [ch '\r'])) := by
      rw [← List.append_assoc, ← hlines, hfirst]
      simp only [List.append_assoc]
    have hlast := indexOf_last_iff lines (crlf ++ [ch '\r']) (ch '\n')
    rw [hbefore, ← hhead, ← hlength] at hlast
    refine hlast.trans ?_
    show ¬ crlf ++ crlf <:+: _ ↔ _
    rw [fieldLines_unbroken, or_iff_right hclear]
    simp only [not_exists, not_and, not_not]
  refine ⟨fun h => hends.mp h.ends, fun h => ⟨⟨first, fieldLines headers ++ crlf, hline, ?_⟩,
    hends.mpr h⟩⟩
  rw [headOf, hfirst]
  simp only [List.append_assoc]

/-! ### One call -/

/-- The headers that an event is sent with. -/
def streamHeaders (res : Response) : List (Bytes × Bytes) :=
  ({res with contentType := .sse}.addHeaders true).headers

/-- They do not depend on the event. -/
theorem addHeaders_event (res : Response) (content : Bytes) :
    ({res with content := content, contentType := .sse}.addHeaders true).headers =
      res.streamHeaders := by
  rw [streamHeaders, addHeaders_eq, setHeaders_eq, setHeaders_eq, addHeaders_eq, setHeaders_eq,
    setHeaders_eq]
  rfl

theorem stream_data (fs : FileSystem) (res : Response) (event : Event) :
    (stream fs res event.val).2 =
      some (headOf res.status res.streamHeaders ++ event.val) := by
  obtain ⟨hne, hnul⟩ := event.property
  have hstr : cStr event.val = event.val :=
    List.takeWhile_eq_self_iff.mpr fun c hc => decide_eq_true fun hzero => hnul (hzero ▸ hc)
  have hload : loadContent fs {res with content := event.val, contentType := .sse} =
      {res with content := event.val, contentType := .sse} := by
    have hother : ContentType.sse ≠ ContentType.html := by decide
    exact if_neg fun h => hother h.1
  have hcontent : ({res with content := event.val, contentType := .sse} : Response).content ≠ [] :=
    hne
  unfold stream
  rw [hstr, build_eq hcontent, hload, addHeaders_event]
  rfl

theorem lookup_streamHeaders (res : Response) (k : Bytes) :
    res.streamHeaders.lookup k =
      if res.headers.lookup (text "Content-Type") = none then
        if k = text "Cache-Control" then some (text "no-cache")
        else if k = text "Content-Type" then some (text "text/event-stream")
        else res.headers.lookup k
      else res.headers.lookup k := by
  unfold streamHeaders addHeaders
  simp only [Option.isNone_iff_eq_none, Bool.not_true, Bool.false_and, Bool.false_eq_true, if_false]
  split
  · have hsse : (({res with contentType := .sse} : Response).setHeader (text "Content-Type")
        ContentType.sse.toBytes).contentType = .sse := rfl
    rw [if_pos hsse, lookup_setHeader, lookup_setHeader]
    rfl
  · rfl

theorem streamHeaders_sorted {res : Response} (h : Made res) :
    SortedMap.Sorted Before res.streamHeaders := by
  have hheaded : Headed ({res with contentType := .sse} : Response).headers := h.headed
  rw [streamHeaders, addHeaders_eq]
  exact ((hheaded.setHeaders _).setHeaders _).sorted

/-- What is added breaks nothing, so that only a header that was set can, unless it is a
`Cache-Control` that is overwritten along with the type. -/
theorem streamHeaders_unbroken {res : Response} (h : Made res) :
    (∀ e ∈ res.streamHeaders, Unbroken e) ↔ ∀ e ∈ res.headers, Unbroken e ∨
      (e.1 = text "Cache-Control" ∧ res.headers.lookup (text "Content-Type") = none) := by
  have hmem : ∀ k v, (k, v) ∈ res.streamHeaders ↔ res.streamHeaders.lookup k = some v :=
    fun _ _ => SortedMap.mem_iff_lookup before_strict (streamHeaders_sorted h)
  have hmem' : ∀ k v, (k, v) ∈ res.headers ↔ res.headers.lookup k = some v :=
    fun _ _ => SortedMap.mem_iff_lookup before_strict h.headed.sorted
  refine ⟨fun hall e he => ?_, fun hall e he => ?_⟩
  · by_cases hover : e.1 = text "Cache-Control" ∧ res.headers.lookup (text "Content-Type") = none
    · exact .inr hover
    · refine .inl (hall e ((hmem e.1 e.2).mpr ?_))
      have hlookup := (hmem' e.1 e.2).mp he
      rw [lookup_streamHeaders]
      split
      · next hnone =>
        rw [if_neg fun hcache => hover ⟨hcache, hnone⟩, if_neg, hlookup]
        intro htype
        rw [htype, hnone] at hlookup
        cases hlookup
      · exact hlookup
  · rcases portable_addHeaders he with hown | hadded
    · rcases hall e hown with hunbroken | ⟨hcache, hnone⟩
      · exact hunbroken
      · have hlookup := (hmem e.1 e.2).mp he
        rw [lookup_streamHeaders, if_pos hnone, if_pos hcache] at hlookup
        obtain ⟨key, val⟩ := e
        obtain rfl : key = text "Cache-Control" := hcache
        obtain rfl : val = text "no-cache" := (Option.some.inj hlookup).symm
        exact ⟨by decide, by decide⟩
    · exact hadded.toTidy.unbroken

/-! ### Sequences of calls -/

theorem flatten_le_streamed (fs : FileSystem) (res : Response) (events : List Event) :
    (events.map Subtype.val).flatten.length ≤
      (streamed fs res (events.map Subtype.val)).length := by
  induction events generalizing res with
  | nil => exact Nat.le_refl _
  | cons event events ih =>
    rw [List.map_cons, List.flatten_cons, streamed, stream_data, Option.getD_some,
      List.length_append, List.length_append, List.length_append]
    have hrest := ih (stream fs res event.val).1
    omega

/-- A second event brings a second head. -/
theorem not_oneHead (fs : FileSystem) (res : Response) (event next : Event)
    (events : List Event) :
    ¬ OneHead (streamed fs res ((event :: next :: events).map Subtype.val))
      ((event :: next :: events).map Subtype.val).flatten := by
  intro ⟨head, hsent, hhead⟩
  obtain ⟨lines, hlines⟩ := ends_in_crlf res.status res.streamHeaders
  have hfirst : headOf res.status res.streamHeaders = lines ++ (crlf ++ crlf) := by
    rw [headOf, hlines, List.append_assoc]
  rw [List.map_cons, List.flatten_cons, streamed, stream_data, Option.getD_some, hfirst] at hsent
  generalize hres : (stream fs res event.val).1 = res' at hsent
  have hmore : ((next :: events).map Subtype.val).flatten.length <
      (streamed fs res' ((next :: events).map Subtype.val)).length := by
    rw [List.map_cons, List.flatten_cons, streamed, stream_data, Option.getD_some]
    have hrest := flatten_le_streamed fs (stream fs res' next.val).1 events
    have hend : (headOf res'.status res'.streamHeaders).length =
        (res'.status.toBytes ++ fieldLines res'.streamHeaders).length + 2 := List.length_append
    simp only [List.length_append] at hrest hend ⊢
    omega
  generalize ((next :: events).map Subtype.val).flatten = body at hsent hmore
  generalize streamed fs res' ((next :: events).map Subtype.val) = sent at hsent hmore
  have hlength := congrArg List.length hsent
  simp only [List.length_append] at hlength
  -- The first head is a proper beginning of whatever might be the only one.
  have hshort : lines ++ (crlf ++ crlf) <+: head := by
    have hwhole : lines ++ (crlf ++ crlf) <+: head ++ (event.val ++ body) := by
      rw [← hsent, List.append_assoc]
      exact List.prefix_append _ _
    refine List.prefix_of_prefix_length_le hwhole (List.prefix_append _ _) ?_
    simp only [List.length_append]
    omega
  obtain ⟨rest, hrest⟩ := hshort
  refine (indexOf_eq_some hhead.ends).2.2 lines.length ?_ ?_
  · have htwo : crlf.length = 2 := rfl
    have hlong := congrArg List.length hrest
    simp only [List.length_append] at hlong
    omega
  · rw [← hrest, List.append_assoc, List.drop_left]
    exact List.prefix_append _ _

/-- **Events make one response** exactly where there is one of them, and no header of the
response ends its head early. -/
theorem oneHead_iff {res : Response} (hres : Made res) (fs : FileSystem) (events : List Event) :
    OneHead (streamed fs res (events.map Subtype.val)) (events.map Subtype.val).flatten ↔
      events.length = 1 ∧ ∀ e ∈ res.headers, Unbroken e ∨
        (e.1 = text "Cache-Control" ∧ res.headers.lookup (text "Content-Type") = none) := by
  rw [← streamHeaders_unbroken hres]
  match events with
  | [] =>
    refine iff_of_false (fun ⟨head, hsent, hhead⟩ => ?_) fun h => absurd h.1 (by decide)
    have hnil : head = [] := (List.append_eq_nil_iff.mp hsent.symm).1
    have hends := hhead.ends
    rw [hnil] at hends
    exact absurd hends (by decide)
  | [event] =>
    have hsent : streamed fs res ([event].map Subtype.val) =
        headOf res.status res.streamHeaders ++ event.val := by
      rw [List.map_singleton, streamed, stream_data]
      exact List.append_nil _
    have hbody : ([event].map Subtype.val).flatten = event.val := List.append_nil _
    rw [hsent, hbody, ← isHead_headOf res.status]
    refine ⟨fun ⟨head, hhead, hends⟩ => ⟨rfl, ?_⟩, fun h => ⟨_, rfl, h.2⟩⟩
    rwa [List.append_cancel_right hhead]
  | event :: next :: events =>
    refine iff_of_false (not_oneHead fs res event next events) fun h => ?_
    exact absurd h.1 (by simp)

theorem oneHead_iff_first :
    OneHead (streamed ⟨fun _ => none, fun _ => none⟩ (Response.make .plainText [] 5) [text "a"])
        (text "a") ↔
      [text "a"].length = 1 ∧ ∀ e ∈ (Response.make .plainText [] 5).headers, Unbroken e ∨
        (e.1 = text "Cache-Control" ∧
          (Response.make .plainText [] 5).headers.lookup (text "Content-Type") = none) :=
  oneHead_iff (Made.make .plainText [] 5) ⟨fun _ => none, fun _ => none⟩
    [⟨text "a", by decide, by decide⟩]

/-- The second of two events comes behind a head of its own. -/
theorem streamed_two_heads :
    ¬ ∀ res : Response, Made res → ∀ (fs : FileSystem) (events : List Event),
      OneHead (streamed fs res (events.map Subtype.val)) (events.map Subtype.val).flatten :=
  fun h => not_oneHead ⟨fun _ => none, fun _ => none⟩ (Response.make .plainText [] 5)
    ⟨text "a", by decide, by decide⟩ ⟨text "b", by decide, by decide⟩ []
    (h _ (Made.make .plainText [] 5) _ _)

end HttpServer.Response
