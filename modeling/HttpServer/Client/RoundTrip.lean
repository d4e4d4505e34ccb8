import HttpServer.Client
import HttpServer.Response.Message

/-! Responses written and parsed.

The builder ends every line with CRLF, the parser cuts the head at line feeds and trims
what it finds on either side of a colon. A line of the one is a line of the other with a
carriage return at its end (`headLines`), which the trimming removes with the space in
front; and the headers, stored into a fresh response, replace the one it starts with. -/
namespace HttpServer.Client
open Lib Lib.Search Utils Response

theorem name_not_blank {header : Bytes × Bytes} (h : Portable header) (c : UInt8)
    (hc : header.1.head? = some c ∨ header.1.getLast? = some c) : isBlank c = false := by
  have hmem : c ∈ header.1 := hc.elim List.mem_of_mem_head? List.mem_of_mem_getLast?
  obtain ⟨hspace, htab⟩ := h.name_ends c hc
  obtain ⟨_, hcr, hlf⟩ := h.name_bytes c hmem
  exact isBlank_eq_false.mpr ⟨hspace, htab, hcr, hlf⟩

theorem value_not_blank {header : Bytes × Bytes} (h : Portable header) (c : UInt8)
    (hc : header.2.head? = some c ∨ header.2.getLast? = some c) : isBlank c = false := by
  have hmem : c ∈ header.2 := hc.elim List.mem_of_mem_head? List.mem_of_mem_getLast?
  obtain ⟨hspace, htab⟩ := h.value_ends c hc
  obtain ⟨hcr, hlf⟩ := h.value_bytes c hmem
  exact isBlank_eq_false.mpr ⟨hspace, htab, hcr, hlf⟩

/-! ### The head -/

/-- A first line and the header lines behind it, the last one without its end. -/
def headText (first : Bytes) : List HeaderLine → Bytes
  | [] => first
  | l :: lines => first ++ (crlf ++ headText l.bytes lines)

/-- The same, cut at line feeds. -/
def headLines (first : Bytes) : List HeaderLine → List Bytes
  | [] => [first]
  | l :: lines => (first ++ [ch '\r']) :: headLines l.bytes lines

theorem headText_crlf (first : Bytes) (lines : List HeaderLine) :
    headText first lines ++ crlf = first ++ (crlf ++ LaxRequest.fields lines) := by
  induction lines generalizing first with
  | nil => simp [headText, LaxRequest.fields]
  | cons l lines ih =>
    rw [headText, List.append_assoc, List.append_assoc, ih]
    simp [LaxRequest.fields]

theorem line_no_lf (l : HeaderLine) : ch '\n' ∉ l.bytes := by
  intro hc
  rcases List.mem_append.mp hc with hc | hc
  · exact (l.1.property _ hc).2.2 rfl
  · rcases List.mem_append.mp hc with hc | hc
    · revert hc
      decide
    · exact (l.2.property _ hc).2 rfl

theorem splitOn_headText {first : Bytes} (hfirst : ch '\n' ∉ first) (lines : List HeaderLine) :
    (headText first lines).splitOn (ch '\n') = headLines first lines := by
  induction lines generalizing first with
  | nil => exact List.splitOn_eq_singleton hfirst
  | cons l lines ih =>
    have hcr : ch '\n' ∉ first ++ [ch '\r'] := by
      intro hc
      rcases List.mem_append.mp hc with hc | hc
      · exact hfirst hc
      · revert hc
        decide
    have hcut : headText first (l :: lines) =
        (first ++ [ch '\r']) ++ ch '\n' :: headText l.bytes lines := by
      simp [headText, crlf]
    rw [hcut, List.splitOn_append_cons_self_of_not_mem hcr, ih (line_no_lf l), headLines]

theorem line_ne_nil (l : HeaderLine) : l.bytes ≠ [] := by
  intro hnil
  have hlen := congrArg List.length hnil
  simp [HeaderLine.bytes, text] at hlen

/-- No line is empty, so the cutting goes to the end. -/
theorem takeWhile_headLines {first : Bytes} (hfirst : first ≠ []) (lines : List HeaderLine) :
    (headLines first lines).takeWhile (· ≠ []) = headLines first lines := by
  induction lines generalizing first with
  | nil => simp [headLines, hfirst]
  | cons l lines ih =>
    have hne : first ++ [ch '\r'] ≠ [] := by simp
    rw [headLines, List.takeWhile_cons, if_pos (decide_eq_true hne), ih (line_ne_nil l)]

/-- One line, with its carriage return or without, is the header it was written for. -/
theorem addHeaderLine_line (res : Response) {l : HeaderLine}
    (h : Portable (l.1.val, l.2.val)) {back : Bytes} (hback : ∀ c ∈ back, isBlank c = true) :
    addHeaderLine res (l.bytes ++ back) = .ok (res.setHeader l.1.val l.2.val) := by
  have hline : l.bytes ++ back = l.1.val ++ ([ch ':'] ++ ([ch ' '] ++ (l.2.val ++ back))) := by
    simp [HeaderLine.bytes, text]
  have hnot : ch ':' ∉ l.1.val := fun hc => (l.1.property _ hc).1 rfl
  have hfind : findByte (ch ':') (l.bytes ++ back) 0 = some l.1.val.length := by
    rw [hline, findByte, findFrom_zero]
    exact Request.indexOf_byte hnot _
  have hname : substr (l.bytes ++ back) 0 l.1.val.length = .ok l.1.val :=
    substr_between (Nat.zero_le _) hline rfl
  have hvalue : substrFrom (l.bytes ++ back) (l.1.val.length + 1) =
      .ok ([ch ' '] ++ (l.2.val ++ back)) := by
    rw [substrFrom_of_le, hline, ← List.drop_drop, List.drop_left]
    · rfl
    · rw [hline, List.length_append, List.length_append]
      exact Nat.add_le_add_left (Nat.le_add_right ..) _
  have htrimName : trim l.1.val = l.1.val := by
    have hnone : ∀ c ∈ ([] : Bytes), isBlank c = true := fun c hc => absurd hc List.not_mem_nil
    have hpadded : trim ([] ++ (l.1.val ++ [])) = l.1.val :=
      trim_padded hnone hnone (name_not_blank h)
    rwa [List.append_nil, List.nil_append] at hpadded
  have hspace : ∀ c ∈ [ch ' '], isBlank c = true := every (by decide)
  have htrimValue : trim ([ch ' '] ++ (l.2.val ++ back)) = l.2.val :=
    trim_padded hspace hback (value_not_blank h)
  unfold addHeaderLine
  simp only [hfind, hname, hvalue, strings, Except.mapError, bind, Except.bind, htrimName,
    htrimValue]

/-- All header lines, one after the other. -/
theorem foldlM_headLines (l : HeaderLine) (lines : List HeaderLine) (res : Response)
    (h : ∀ e ∈ LaxRequest.entries (l :: lines), Portable e) :
    (headLines l.bytes lines).foldlM addHeaderLine res =
      .ok (res.setHeaders (LaxRequest.entries (l :: lines))) := by
  have hl : Portable (l.1.val, l.2.val) := h _ (List.mem_cons_self ..)
  induction lines generalizing l res with
  | nil =>
    have hline : addHeaderLine res (l.bytes ++ []) = .ok (res.setHeader l.1.val l.2.val) :=
      addHeaderLine_line res hl nofun
    rw [List.append_nil] at hline
    rw [headLines, List.foldlM_cons, hline]
    rfl
  | cons l' lines ih =>
    have hcr : ∀ c ∈ [ch '\r'], isBlank c = true := every (by decide)
    have hline := addHeaderLine_line res hl hcr
    rw [headLines, List.foldlM_cons, hline]
    have hrest : ∀ e ∈ LaxRequest.entries (l' :: lines), Portable e :=
      fun e he => h e (List.mem_cons_of_mem _ he)
    exact ih l' (res.setHeader l.1.val l.2.val) hrest (hrest _ (List.mem_cons_self ..))

/-! ### The whole message -/

/-- The status line names no header. -/
theorem addHeaderLine_status (res : Response) {first back : Bytes} (h : StatusLine first)
    (hback : ch ':' ∉ back) : addHeaderLine res (first ++ back) = .ok res := by
  have hnot : ch ':' ∉ first ++ back := by
    intro hc
    rcases List.mem_append.mp hc with hc | hc
    · exact (h.bytes _ hc).1 rfl
    · exact hback hc
  unfold addHeaderLine
  rw [Request.findByte_not_mem hnot]

theorem foldlM_message {first : Bytes} (hfirst : StatusLine first) (lines : List HeaderLine)
    (res : Response) (h : ∀ e ∈ LaxRequest.entries lines, Portable e) :
    (headLines first lines).foldlM addHeaderLine res =
      .ok (res.setHeaders (LaxRequest.entries lines)) := by
  cases lines with
  | nil =>
    have hline : addHeaderLine res (first ++ []) = .ok res :=
      addHeaderLine_status res hfirst nofun
    rw [List.append_nil] at hline
    rw [headLines, List.foldlM_cons, hline]
    rfl
  | cons l lines =>
    have hcr : ch ':' ∉ [ch '\r'] := by decide
    have hline := addHeaderLine_status res hfirst hcr
    rw [headLines, List.foldlM_cons, hline]
    exact foldlM_headLines l lines res h

/-- A message in this form is read as its status, its headers and its content. -/
theorem parseResponse_message (unset : ContentType) (unsetFd : Int) {first : Bytes}
    (hfirst : StatusLine first) {lines : List HeaderLine} (content : Bytes)
    (h : ∀ e ∈ LaxRequest.entries lines, Portable e)
    (hplain : ((Response.make unset [] unsetFd).setHeaders
      (LaxRequest.entries lines)).headers.lookup (text "Transfer-Encoding") = none)
    {raw : Bytes} (hraw : raw = first ++ (crlf ++ (LaxRequest.fields lines ++ (crlf ++ content)))) :
    parseResponse unset unsetFd raw = (parseStatus raw).bind fun status =>
      .ok ({(Response.make unset [] unsetFd).setHeaders (LaxRequest.entries lines) with
        status := status}.append content) := by
  have hcr : ch '\r' ∉ first := fun hc => (hfirst.bytes _ hc).2.1 rfl
  have hlf : ch '\n' ∉ first := fun hc => (hfirst.bytes _ hc).2.2 rfl
  obtain ⟨k, hk, hlen⟩ := Request.headerEnd_wire first hcr lines content
  have hsplit : raw = headText first lines ++ (crlf ++ (crlf ++ content)) := by
    rw [← List.append_assoc, headText_crlf, hraw]
    simp
  have htwo : crlf.length = 2 := rfl
  have hhead : (headText first lines).length = k := by
    have htotal := congrArg List.length (headText_crlf first lines)
    simp only [List.length_append] at htotal hlen
    omega
  have hfind : findFrom (crlf ++ crlf) raw 0 = some k := by
    rw [findFrom_zero, hraw]
    exact hk
  have hsection : substr raw 0 k = .ok (headText first lines) :=
    substr_between (Nat.zero_le _) hsplit hhead.symm
  have hbody : substrFrom raw (k + 4) = .ok content := by
    rw [substrFrom_of_le, ← List.drop_drop, hsplit, ← hhead, List.drop_left]
    · rfl
    · rw [hsplit, List.length_append, hhead, List.length_append, List.length_append]
      omega
  unfold parseResponse
  simp only [hfind, hsection, hbody, strings, Except.mapError, bind, Except.bind,
    splitOn_headText hlf, takeWhile_headLines hfirst.ne_nil, foldlM_message hfirst lines _ h,
    hplain]
  cases parseStatus raw with
  | error e => rfl
  | ok status => rfl

/-! ### What `build` adds -/

/-- No `Transfer-Encoding` is added. -/
theorem addHeaders_plain {res : Response}
    (h : res.headers.lookup (text "Transfer-Encoding") = none) :
    (res.addHeaders false).headers.lookup (text "Transfer-Encoding") = none := by
  rw [List.lookup_eq_none_iff] at h ⊢
  intro e he
  rcases mem_addHeaders he with he | rfl | rfl | rfl
  · exact h e he
  · exact bne_iff_ne.mpr (text_ne (by decide))
  · exact bne_iff_ne.mpr (text_ne (by decide))
  · exact bne_iff_ne.mpr (text_ne (by decide))

/-- **A response comes back as it was sent**: for every response with content that names no
file, and with headers that are portable and none a `Transfer-Encoding`, there is a message,
and what it is parsed to, where its status is, has the headers of the response after
`build` and its content. -/
theorem parseResponse_build (fs : FileSystem) (unset : ContentType) (unsetFd : Int)
    {res : Response} (hmade : Made res) (hcontent : res.content ≠ [])
    (hpage : ¬ (res.contentType = .html ∧ text ".html" <:+ res.content))
    (hheaders : ∀ e ∈ res.headers, Portable e)
    (hplain : res.headers.lookup (text "Transfer-Encoding") = none) :
    ∃ raw, (res.build fs false).2 = some raw ∧
      (∀ parsed, parseResponse unset unsetFd raw = .ok parsed →
        parsed.headers = (res.build fs false).1.headers ∧ parsed.content = res.content) ∧
      ∀ status, parseStatus raw = .ok status →
        ∃ parsed, parseResponse unset unsetFd raw = .ok parsed := by
  have hload : res.loadContent fs = res := if_neg hpage
  have hbuild := build_eq hcontent fs false
  obtain ⟨first, lines, hline, hlines, hmessage⟩ :=
    build_message fs hcontent fun e he => (hheaders e he).toTidy
  rw [hload] at hbuild hlines hmessage
  have hportable : ∀ e ∈ (res.addHeaders false).headers, Portable e :=
    fun e he => (portable_addHeaders he).elim (hheaders e) id
  have hheaded : Headed (res.addHeaders false).headers := by
    have hbuilt := hmade.headed.build fs false
    rwa [hbuild] at hbuilt
  -- the headers of the message replace the one the client starts with
  have hcopy : ((Response.make unset [] unsetFd).setHeaders (LaxRequest.entries lines)).headers =
      (res.addHeaders false).headers := by
    rw [setHeaders_eq, hlines]
    refine SortedMap.setAll_eq before_strict (List.pairwise_singleton ..) hheaded.sorted ?_
    intro k hk
    show List.lookup k [(text "Connection", text "keep-alive")] = none
    by_cases heq : k = text "Connection"
    · rw [heq] at hk
      exact absurd hk hheaded.connection
    · have hb : (k == text "Connection") = false := by simpa using heq
      simp only [List.lookup_cons, hb, List.lookup_nil]
  have hbody : ((Response.make unset [] unsetFd).setHeaders (LaxRequest.entries lines)).content =
      [] := by
    rw [setHeaders_eq]
    rfl
  have hbuilt : (res.build fs false).1 = res.addHeaders false := congrArg Prod.fst hbuild
  rw [hbuilt]
  have hparse := parseResponse_message unset unsetFd hline res.content (hlines ▸ hportable)
    (hcopy ▸ addHeaders_plain hplain) rfl
  refine ⟨_, hmessage, fun parsed hparsed => ?_, fun status hstatus => ?_⟩
  · rw [hparse] at hparsed
    cases hstatus : parseStatus (first ++
        (crlf ++ (LaxRequest.fields lines ++ (crlf ++ res.content)))) with
    | error e =>
      rw [hstatus] at hparsed
      cases hparsed
    | ok status =>
      rw [hstatus] at hparsed
      rw [← Except.ok.inj hparsed]
      refine ⟨hcopy, ?_⟩
      show (setHeaders _ _).content ++ res.content = res.content
      rw [hbody, List.nil_append]
  · rw [hparse, hstatus]
    exact ⟨_, rfl⟩

/-- A response with a colon in a value and an empty line in its content. -/
def traced : Response :=
  ((Response.make .html [] 5).setHeader (text "X-Trace") (text "a: b")).setContent .plainText
    .notFound (text "a\r\n\r\nb")

theorem parseResponse_build_traced :
    ∃ raw, (traced.build {stat := fun _ => none, contents := fun _ => none} false).2 = some raw ∧
      (∀ parsed, parseResponse .html 0 raw = .ok parsed →
        parsed.headers =
            (traced.build {stat := fun _ => none, contents := fun _ => none} false).1.headers ∧
          parsed.content = traced.content) ∧
      ∀ status, parseStatus raw = .ok status →
        ∃ parsed, parseResponse .html 0 raw = .ok parsed := by
  refine parseResponse_build _ .html 0 ?_ ?_ ?_ ?_ ?_
  · exact .setContent _ _ _ (.setHeader _ _ (.make _ _ _))
  · show text "a\r\n\r\nb" ≠ []
    rw [text_ofList]
    decide
  · exact fun h => absurd h.1 (by decide)
  · intro e he
    rcases SortedMap.mem_setAll (l := [(text "X-Trace", text "a: b")])
      (m := [(text "Connection", text "keep-alive")]) (r := Before) he with he | he
    · rw [List.mem_singleton.mp he]
      exact portable_literal (by decide) (by decide) (by decide) (by decide)
    · rw [List.mem_singleton.mp he]
      exact portable_literal (by decide) (by decide) (by decide) (by decide)
  · have hheaders : traced.headers =
        ((Response.make .html [] 5).setHeader (text "X-Trace") (text "a: b")).headers := rfl
    rw [hheaders, lookup_setHeader, if_neg (text_ne (by decide))]
    show List.lookup _ [(text "Connection", text "keep-alive")] = none
    rw [List.lookup_eq_none_iff]
    intro e he
    rw [List.mem_singleton.mp he]
    exact bne_iff_ne.mpr (text_ne (by decide))

end HttpServer.Client
