import HttpServer.Request.Parse
import HttpServer.Response.Build
import HttpServer.Utils.Text

/-! The message of a response, as a reader sees it.

With no line break in its headers and no colon in their names, a message is a status line,
header lines and the content, cut where a reader of the format cuts it: the length it
declares and the length it has are those of the response (`declaredLength_message`,
`contentLength_message`). -/
namespace HttpServer.Response
open Lib Lib.Search Utils

/-- A header that is one line with one name. -/
structure Tidy (header : Bytes × Bytes) : Prop where
  name_bytes : ∀ c ∈ header.1, c ≠ ch ':' ∧ c ≠ ch '\r' ∧ c ≠ ch '\n'
  value_bytes : ∀ c ∈ header.2, c ≠ ch '\r' ∧ c ≠ ch '\n'

/-- A header that is found again as it was: nothing in it ends a line or the name, and
nothing at its ends is trimmed. -/
structure Portable (header : Bytes × Bytes) : Prop extends Tidy header where
  name_ne : header.1 ≠ []
  name_ends : ∀ c, header.1.head? = some c ∨ header.1.getLast? = some c →
    c ≠ ch ' ' ∧ c ≠ ch '\t'
  value_ends : ∀ c, header.2.head? = some c ∨ header.2.getLast? = some c →
    c ≠ ch ' ' ∧ c ≠ ch '\t'

theorem exists_lines {headers : List (Bytes × Bytes)} (h : ∀ e ∈ headers, Tidy e) :
    ∃ lines : List HeaderLine, LaxRequest.entries lines = headers := by
  induction headers with
  | nil => exact ⟨[], rfl⟩
  | cons e headers ih =>
    have he := h e (List.mem_cons_self ..)
    obtain ⟨lines, hlines⟩ := ih fun e he => h e (List.mem_cons_of_mem _ he)
    exact ⟨(⟨e.1, he.name_bytes⟩, ⟨e.2, he.value_bytes⟩) :: lines, by rw [← hlines]; rfl⟩

/-- What the builder writes for the headers are lines of the format. -/
theorem fieldLines_entries (lines : List HeaderLine) :
    fieldLines (LaxRequest.entries lines) = LaxRequest.fields lines := by
  rw [fieldLines, LaxRequest.entries, List.flatMap_map, LaxRequest.fields]
  congr 1
  funext l
  simp [HeaderLine.bytes]

/-! ### What `build` adds -/

/-- A header of literals, portable where its characters are. -/
theorem portable_literal {name value : List Char} (hne : name ≠ [])
    (hname : (name.all fun c =>
      decide (ch c ≠ ch ':' ∧ ch c ≠ ch '\r' ∧ ch c ≠ ch '\n' ∧ ch c ≠ ch ' ' ∧
        ch c ≠ ch '\t')) = true)
    (hvalue : (value.all fun c => decide (ch c ≠ ch '\r' ∧ ch c ≠ ch '\n' ∧ ch c ≠ ch '\t')) = true)
    (hends : ((value.head?.toList ++ value.getLast?.toList).all fun c =>
      decide (ch c ≠ ch ' ')) = true) :
    Portable (text (String.ofList name), text (String.ofList value)) := by
  have hnames : ∀ c ∈ text (String.ofList name), c ≠ ch ':' ∧ c ≠ ch '\r' ∧ c ≠ ch '\n' ∧
      c ≠ ch ' ' ∧ c ≠ ch '\t' := every_char hname
  have hvalues : ∀ c ∈ text (String.ofList value), c ≠ ch '\r' ∧ c ≠ ch '\n' ∧ c ≠ ch '\t' :=
    every_char hvalue
  have hmem : ∀ {s : Bytes} {c : UInt8}, s.head? = some c ∨ s.getLast? = some c → c ∈ s :=
    fun hc => hc.elim List.mem_of_mem_head? List.mem_of_mem_getLast?
  refine ⟨⟨fun c hc => ?_, fun c hc => ?_⟩, ?_, fun c hc => ?_, fun c hc => ⟨?_, ?_⟩⟩
  · exact ⟨(hnames c hc).1, (hnames c hc).2.1, (hnames c hc).2.2.1⟩
  · exact ⟨(hvalues c hc).1, (hvalues c hc).2.1⟩
  · rw [text_ofList]
    exact fun hnil => hne (List.map_eq_nil_iff.mp hnil)
  · exact (hnames c (hmem hc)).2.2.2
  · simp only [text_ofList, List.head?_map, List.getLast?_map] at hc
    have hall := List.all_eq_true.mp hends
    rcases hc with hc | hc
    · obtain ⟨d, hd, rfl⟩ := Option.map_eq_some_iff.mp hc
      exact of_decide_eq_true (hall d (by simp [hd]))
    · obtain ⟨d, hd, rfl⟩ := Option.map_eq_some_iff.mp hc
      exact of_decide_eq_true (hall d (by simp [hd]))
  · exact (hvalues c (hmem hc)).2.2

theorem portable_contentType (type : ContentType) :
    Portable (text "Content-Type", type.toBytes) := by
  cases type <;> exact portable_literal (by decide) (by decide) (by decide) (by decide)

/-- A length is portable: it is written in digits. -/
theorem portable_length (n : Nat) : Portable (text "Content-Length", toDecimal n) := by
  have hname : Portable (text "Content-Length", text "") :=
    portable_literal (by decide) (by decide) (by decide) (by decide)
  refine ⟨⟨hname.name_bytes, fun c hc => ?_⟩, hname.name_ne, hname.name_ends, fun c hc => ?_⟩
  · exact ⟨toDecimal_ne hc (by decide), toDecimal_ne hc (by decide)⟩
  · have hmem : c ∈ toDecimal n := hc.elim List.mem_of_mem_head? List.mem_of_mem_getLast?
    exact ⟨toDecimal_ne hmem (by decide), toDecimal_ne hmem (by decide)⟩

/-- What `build` adds is portable. -/
theorem portable_addHeaders {chunked : Bool} {res : Response} {e : Bytes × Bytes}
    (he : e ∈ (res.addHeaders chunked).headers) : e ∈ res.headers ∨ Portable e := by
  rcases mem_addHeaders he with he | rfl | rfl | rfl
  · exact .inl he
  · exact .inr (portable_contentType _)
  · exact .inr (portable_literal (by decide) (by decide) (by decide) (by decide))
  · exact .inr (portable_length _)

/-! ### Status lines -/

/-- What a status line is: a line without a colon. -/
structure StatusLine (first : Bytes) : Prop where
  ne_nil : first ≠ []
  bytes : ∀ c ∈ first, c ≠ ch ':' ∧ c ≠ ch '\r' ∧ c ≠ ch '\n'

theorem statusLine_of {status : Bytes} {chars : List Char}
    (hstatus : status = text (String.ofList chars))
    (hend : chars.drop (chars.length - 2) = ['\r', '\n'])
    (hne : chars.take (chars.length - 2) ≠ [])
    (hline : ((chars.take (chars.length - 2)).all fun c =>
      decide (ch c ≠ ch ':' ∧ ch c ≠ ch '\r' ∧ ch c ≠ ch '\n')) = true) :
    ∃ first, status = first ++ crlf ∧ StatusLine first := by
  refine ⟨(chars.take (chars.length - 2)).map ch, ?_, ?_, ?_⟩
  · rw [hstatus, text_ofList]
    conv => lhs; rw [← List.take_append_drop (chars.length - 2) chars, hend, List.map_append]
    rfl
  · exact fun hnil => hne (List.map_eq_nil_iff.mp hnil)
  · intro c hc
    obtain ⟨d, hd, rfl⟩ := List.mem_map.mp hc
    exact of_decide_eq_true (List.all_eq_true.mp hline d hd)

theorem toBytes_line (status : Status) :
    ∃ first, status.toBytes = first ++ crlf ∧ StatusLine first := by
  cases status <;> exact statusLine_of rfl (by decide) (by decide) (by decide)

/-! ### Lengths -/

/-- The length a message declares, in the last header of that name. -/
def declaredLength (message : Bytes) : Option Nat :=
  match findFrom crlf message 0 with
  | none => none
  | some lineEnd =>
    match Request.parseHeaders message (lineEnd + 2) ∅ with
    | .error _ => none
    | .ok (headers, _) => (headers.lookup (text "Content-Length")).map decimalValue

/-- How many bytes stand behind the first CRLFCRLF. -/
def contentLength (message : Bytes) : Option Nat :=
  (findFrom (crlf ++ crlf) message 0).map fun headEnd => message.length - (headEnd + 4)

/-- The declared length is the length there is. -/
def Framed (message : Bytes) : Prop :=
  ∃ n, declaredLength message = some n ∧ contentLength message = some n

theorem declaredLength_message {first : Bytes} (hfirst : StatusLine first)
    (lines : List HeaderLine) (content : Bytes) :
    declaredLength (first ++ (crlf ++ (LaxRequest.fields lines ++ (crlf ++ content)))) =
      (Map.lastValue (LaxRequest.entries lines) (text "Content-Length")).map decimalValue := by
  have hcr : ch '\r' ∉ first := fun hc => (hfirst.bytes _ hc).2.1 rfl
  generalize hm : first ++ (crlf ++ (LaxRequest.fields lines ++ (crlf ++ content))) = message
  have hfind : findFrom crlf message 0 = some first.length := by
    rw [findFrom_zero, ← hm]
    exact Request.indexOf_crlf hcr _
  have hlen : message.length =
      first.length + (2 + ((LaxRequest.fields lines).length + (2 + content.length))) := by
    rw [← hm]
    simp only [List.length_append]
    rfl
  have hdrop : message.drop (first.length + 2) =
      LaxRequest.fields lines ++ (crlf ++ content) := by
    rw [← List.drop_drop, ← hm, List.drop_left]
    rfl
  have hfuel := Request.fields_fuel lines
  have hloop := Request.parseHeadersLoop_fields message lines content message.length
    (first.length + 2) ∅ (by omega) hdrop (by omega)
  unfold declaredLength Request.parseHeaders
  simp only [hfind, hloop]
  rw [← Map.lookup_ofList]
  rfl

theorem contentLength_message {first : Bytes} (hfirst : StatusLine first)
    (lines : List HeaderLine) (content : Bytes) :
    contentLength (first ++ (crlf ++ (LaxRequest.fields lines ++ (crlf ++ content)))) =
      some content.length := by
  have hcr : ch '\r' ∉ first := fun hc => (hfirst.bytes _ hc).2.1 rfl
  obtain ⟨k, hk, hlen⟩ := Request.headerEnd_wire first hcr lines content
  rw [contentLength, findFrom_zero, hk, Option.map_some, hlen]
  simp only [List.length_append]
  congr 1
  omega

/-- What `build` makes of a response: a status line, a line for each header, an empty line
and the content. -/
theorem build_message (fs : FileSystem) {res : Response} (hcontent : res.content ≠ [])
    (htidy : ∀ e ∈ res.headers, Tidy e) : ∃ (first : Bytes) (lines : List HeaderLine),
    StatusLine first ∧
      LaxRequest.entries lines = ((res.loadContent fs).addHeaders false).headers ∧
      (res.build fs false).2 = some (first ++
        (crlf ++ (LaxRequest.fields lines ++ (crlf ++ (res.loadContent fs).content)))) := by
  obtain ⟨first, hfirst, hline⟩ := toBytes_line res.status
  obtain ⟨lines, hlines⟩ : ∃ lines : List HeaderLine,
      LaxRequest.entries lines = ((res.loadContent fs).addHeaders false).headers := by
    apply exists_lines
    intro e he
    rcases portable_addHeaders he with he | he
    · rw [loadContent_headers] at he
      exact htidy e he
    · exact he.toTidy
  refine ⟨first, lines, hline, hlines, ?_⟩
  rw [build_eq hcontent, hfirst, ← hlines, fieldLines_entries]
  simp only [List.append_assoc]

/-- **A built message is framed** exactly where a length that was set before is the length
of the content; one that `build` sets itself is. -/
theorem framed_build_iff {fs : FileSystem} {res : Response} {message : Bytes}
    (hheaded : Headed res.headers) (htidy : ∀ e ∈ res.headers, Tidy e)
    (hbuild : (res.build fs false).2 = some message) :
    Framed message ↔ ∀ length, res.headers.lookup (text "Content-Length") = some length →
      decimalValue length = (res.loadContent fs).content.length := by
  have hcontent : res.content ≠ [] := by
    intro hnil
    rw [build, if_pos hnil] at hbuild
    cases hbuild
  have hsorted : SortedMap.Sorted Before ((res.loadContent fs).addHeaders false).headers := by
    have hbuilt := (hheaded.build fs false).sorted
    rwa [build_eq hcontent] at hbuilt
  obtain ⟨first, lines, hline, hlines, hmessage⟩ := build_message fs hcontent htidy
  rw [hbuild] at hmessage
  have hmessage := Option.some.inj hmessage
  have hlookup := addHeaders_length (res.loadContent fs)
  rw [loadContent_headers] at hlookup
  have hdeclared : declaredLength message =
      some (decimalValue ((res.headers.lookup (text "Content-Length")).getD
        (toDecimal (res.loadContent fs).content.length))) := by
    have hlast : Map.lastValue ((res.loadContent fs).addHeaders false).headers
        (text "Content-Length") =
        ((res.loadContent fs).addHeaders false).headers.reverse.lookup (text "Content-Length") := by
      unfold Map.lastValue
      rw [lawful_beq_subsingleton (instBEqOfDecidableEq : BEq Bytes) List.instBEq]
    rw [hmessage, declaredLength_message hline, hlines, hlast,
      SortedMap.lookup_reverse before_strict hsorted, hlookup]
    rfl
  have hlength : contentLength message = some (res.loadContent fs).content.length := by
    rw [hmessage, contentLength_message hline]
  unfold Framed
  rw [hdeclared, hlength]
  cases hset : res.headers.lookup (text "Content-Length") with
  | none =>
    rw [Option.getD_none, decimalValue_toDecimal]
    exact ⟨fun _ _ => nofun, fun _ => ⟨_, rfl, rfl⟩⟩
  | some length =>
    rw [Option.getD_some]
    constructor
    · intro ⟨n, hn, hn'⟩ length' hlength'
      rw [← Option.some.inj hlength', Option.some.inj hn, Option.some.inj hn']
    · intro h
      exact ⟨_, rfl, congrArg some (h length rfl).symm⟩

end HttpServer.Response
