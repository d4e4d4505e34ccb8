import HttpServer.Response.Build
import HttpServer.Server.Static

/-! What the static handler makes of a target.

Of a request only the target counts: it selects a path and a type (`selectFile`), and what
stands at the path is the answer (`handleStaticResource_target`). So the handler fails on an
empty target where its path is a directory, on a file that can be read and has no type, and on
one that is too long for a string, and nowhere else (`serveStatic_iff`). And a query is part of
the path that is selected, so that nothing is found with one, unless a NUL hides it
(`query_ignored_iff`). -/
namespace HttpServer
open Lib Utils

/-! ### The file of a target -/

def isDirectory (fs : FileSystem) (path : Bytes) : Bool :=
  (fs.stat (cStr path)).any fun st => st.isDir

/-- The index page of a target that is a directory. -/
def indexPage (target : Bytes) : Bytes :=
  (if target.getLast? = some (ch '/') then target else target ++ text "/") ++ text "index.html"

/-- What a path of this type is answered with. -/
def answerFile (fs : FileSystem) (path type : Bytes) (res : Response) : Except Fault Response :=
  match fs.stat (cStr path) with
  | none => .ok (res.setContent .plainText .notFound (text "Not Found"))
  | some st =>
    match fs.contents (cStr path) with
    | none => .ok res
    | some content =>
      if type = [] then .error .badOptionalAccess
      else .ok (Server.fileResponse type st content res)

namespace Server
variable {W : Type}

/-- The path of the file that a target stands for, and the type it is sent with. -/
def selectFile (s : Server W) (fs : FileSystem) (target : Bytes) :
    Except Fault (Bytes × Bytes) :=
  if isDirectory fs (s.staticDirectory ++ target) then
    if target = [] then .error .undefined
    else .ok (s.staticDirectory ++ indexPage target, text "text/html")
  else .ok (s.staticDirectory ++ target, Request.getMimeType target)

theorem resolvePath_directory {s : Server W} {fs : FileSystem} {req : Request}
    (h : isDirectory fs (s.staticDirectory ++ req.path) = true) :
    s.resolvePath fs req =
      if req.path = [] then .error .undefined
      else .ok ((req.setPath (indexPage req.path)).setMimeType (text "text/html"),
        s.staticDirectory ++ indexPage req.path) := by
  unfold isDirectory at h
  unfold resolvePath indexPage
  simp only [h, if_true]
  cases hlast : req.path.getLast? with
  | none =>
    rw [if_pos (List.getLast?_eq_none_iff.mp hlast)]
  | some last =>
    have hne : req.path ≠ [] := by
      intro hnil
      rw [hnil] at hlast
      cases hlast
    rw [if_neg hne]
    by_cases hslash : last = ch '/'
    · simp only [hslash, ne_eq, not_true_eq_false, if_false, if_true]
    · have hother : ¬ some last = some (ch '/') := fun hsame => hslash (Option.some.inj hsame)
      simp only [hslash, hother, ne_eq, not_false_eq_true, if_true, if_false]

theorem resolvePath_plain {s : Server W} {fs : FileSystem} {req : Request}
    (h : isDirectory fs (s.staticDirectory ++ req.path) = false) :
    s.resolvePath fs req = .ok (req, s.staticDirectory ++ req.path) := by
  unfold isDirectory at h
  unfold resolvePath
  simp only [h, Bool.false_eq_true, if_false]

theorem handleStaticResource_found {s : Server W} {fs : FileSystem} {req found : Request}
    {path : Bytes} (h : s.resolvePath fs req = .ok (found, path)) (res : Response) :
    (s.handleStaticResource fs req res).map Prod.snd = answerFile fs path found.mimeType res := by
  unfold handleStaticResource answerFile
  simp only [h, bind, Except.bind]
  cases fs.stat (cStr path) with
  | none => rfl
  | some st =>
    cases fs.contents (cStr path) with
    | none => rfl
    | some content =>
      by_cases htype : found.mimeType = []
      · simp only [Request.mimeType?, if_pos htype]
        rfl
      · simp only [Request.mimeType?, if_neg htype]
        rfl

/-- What a target is answered with. -/
def answerTarget (s : Server W) (fs : FileSystem) (target : Bytes) (res : Response) :
    Except Fault Response := do
  let (path, type) ← s.selectFile fs target
  answerFile fs path type res

theorem answerTarget_directory {s : Server W} {fs : FileSystem} {target : Bytes}
    (h : isDirectory fs (s.staticDirectory ++ target) = true) (hne : target ≠ [])
    (res : Response) :
    s.answerTarget fs target res =
      answerFile fs (s.staticDirectory ++ indexPage target) (text "text/html") res := by
  unfold answerTarget selectFile
  rw [if_pos h, if_neg hne]
  rfl

theorem answerTarget_empty {s : Server W} {fs : FileSystem}
    (h : isDirectory fs (s.staticDirectory ++ []) = true) (res : Response) :
    s.answerTarget fs [] res = .error .undefined := by
  unfold answerTarget selectFile
  rw [if_pos h, if_pos rfl]
  rfl

theorem answerTarget_plain {s : Server W} {fs : FileSystem} {target : Bytes}
    (h : isDirectory fs (s.staticDirectory ++ target) = false) (res : Response) :
    s.answerTarget fs target res =
      answerFile fs (s.staticDirectory ++ target) (Request.getMimeType target) res := by
  unfold answerTarget selectFile
  rw [h]
  rfl

/-- The handler answers with the file that the target selects. -/
theorem handleStaticResource_target {s : Server W} {fs : FileSystem} {req : Request}
    (hmime : req.mimeType = Request.getMimeType req.path) (res : Response) :
    (s.handleStaticResource fs req res).map Prod.snd = s.answerTarget fs req.path res := by
  cases hdir : isDirectory fs (s.staticDirectory ++ req.path) with
  | false =>
    rw [handleStaticResource_found (resolvePath_plain hdir), answerTarget_plain hdir, hmime]
  | true =>
    have hresolve := resolvePath_directory hdir
    by_cases hnil : req.path = []
    · rw [hnil] at hdir ⊢
      rw [if_pos hnil] at hresolve
      unfold handleStaticResource
      rw [hresolve, answerTarget_empty hdir]
      rfl
    · rw [if_neg hnil] at hresolve
      rw [handleStaticResource_found hresolve, answerTarget_directory hdir hnil]
      rfl

/-! ### Failing -/

/-- `std::string content(size, '\0')`, where a string holds `maxSize` bytes at most. On some
file systems a directory opens as a stream, too, and has a size of its own. -/
def makeContent (s : Server W) (fs : FileSystem) (maxSize : Nat) (req : Request) :
    Except Thrown Unit := do
  let (_, path) ← (s.resolvePath fs req).mapError .fault
  match fs.stat (cStr path), fs.contents (cStr path) with
  | some _, some content => if maxSize < content.length then .error .lengthError else .ok ()
  | _, _ => .ok ()

/-- `handleStaticResource` with the string that it reads the file into. -/
def serveStatic (s : Server W) (fs : FileSystem) (maxSize : Nat) (req : Request)
    (res : Response) : Except Thrown (Request × Response) := do
  s.makeContent fs maxSize req
  (s.handleStaticResource fs req res).mapError .fault

end Server

/-- There is something at the path, and a stream opened on it has this content. -/
def Opens (fs : FileSystem) (path content : Bytes) : Prop :=
  fs.stat (cStr path) ≠ none ∧ fs.contents (cStr path) = some content

theorem answerFile_returns_iff {fs : FileSystem} {path type : Bytes} {res : Response} :
    (∃ out, answerFile fs path type res = .ok out) ↔
      ∀ content, Opens fs path content → type ≠ [] := by
  unfold answerFile Opens
  cases hstat : fs.stat (cStr path) with
  | none =>
    simp only
    exact ⟨fun _ content hopen => absurd rfl hopen.1, fun _ => ⟨_, rfl⟩⟩
  | some st =>
    cases hread : fs.contents (cStr path) with
    | none =>
      simp only
      exact ⟨fun _ content hopen => absurd hopen.2.symm (Option.some_ne_none content),
        fun _ => ⟨_, rfl⟩⟩
    | some content =>
      by_cases htype : type = []
      · simp only [if_pos htype]
        refine ⟨fun h => ?_, fun h => ?_⟩
        · obtain ⟨out, hout⟩ := h
          cases hout
        · exact absurd htype (h content ⟨Option.some_ne_none st, rfl⟩)
      · simp only [if_neg htype]
        exact ⟨fun _ _ _ => htype, fun _ => ⟨_, rfl⟩⟩

namespace Server
variable {W : Type}

theorem makeContent_returns_iff {s : Server W} {fs : FileSystem} {req found : Request}
    {path : Bytes} (h : s.resolvePath fs req = .ok (found, path)) (maxSize : Nat) :
    s.makeContent fs maxSize req = .ok () ↔
      ∀ content, Opens fs path content → content.length ≤ maxSize := by
  unfold makeContent Opens
  simp only [h, Except.mapError, bind, Except.bind]
  cases hstat : fs.stat (cStr path) with
  | none =>
    simp only
    exact ⟨fun _ content hopen => absurd rfl hopen.1, fun _ => trivial⟩
  | some st =>
    cases hread : fs.contents (cStr path) with
    | none =>
      simp only
      exact ⟨fun _ content hopen => absurd hopen.2.symm (Option.some_ne_none content),
        fun _ => trivial⟩
    | some content =>
      simp only
      split
      · next hlong =>
        refine ⟨fun hout => ?_, fun hfits => ?_⟩
        · cases hout
        · exact absurd (hfits content ⟨Option.some_ne_none st, rfl⟩) (Nat.not_le.mpr hlong)
      · next hfits =>
        refine ⟨fun _ content' hopen => ?_, fun _ => ?_⟩
        · rw [← Option.some.inj hopen.2]
          exact Nat.not_lt.mp hfits
        · rfl

theorem serveStatic_found {s : Server W} {fs : FileSystem} {req found : Request} {path : Bytes}
    (h : s.resolvePath fs req = .ok (found, path)) (maxSize : Nat) (res : Response) :
    (∃ out, s.serveStatic fs maxSize req res = .ok out) ↔
      ∀ content, Opens fs path content → content.length ≤ maxSize ∧ found.mimeType ≠ [] := by
  have hmake := makeContent_returns_iff h maxSize
  have hanswer := @answerFile_returns_iff fs path found.mimeType res
  rw [← handleStaticResource_found h res] at hanswer
  refine ⟨fun hout content hopen => ?_, fun hfine => ?_⟩
  · obtain ⟨out, hout⟩ := hout
    obtain ⟨_, hcontent, hout⟩ := bind_eq_ok hout
    refine ⟨hmake.mp hcontent content hopen, ?_⟩
    cases hhandle : s.handleStaticResource fs req res with
    | error fault =>
      rw [hhandle] at hout
      cases hout
    | ok served =>
      rw [hhandle] at hanswer
      exact hanswer.mp ⟨served.2, rfl⟩ content hopen
  · obtain ⟨answer, hmap⟩ := hanswer.mpr fun content hopen => (hfine content hopen).2
    unfold serveStatic
    rw [hmake.mpr fun content hopen => (hfine content hopen).1]
    cases hhandle : s.handleStaticResource fs req res with
    | error fault =>
      rw [hhandle] at hmap
      cases hmap
    | ok served => exact ⟨served, rfl⟩

/-- **The static handler completes** exactly where the target of a directory is not empty and
its index page fits a string, and where any other target, if there is something to read, has a
type and what is read fits a string. -/
theorem serveStatic_iff (s : Server W) (fs : FileSystem) (maxSize : Nat) {raw : Bytes}
    {req : Request} (hreq : Request.ofRaw raw = .ok req) (res : Response) :
    (∃ out, s.serveStatic fs maxSize req res = .ok out) ↔
      if isDirectory fs (s.staticDirectory ++ req.path) then
        req.path ≠ [] ∧ ∀ content, Opens fs (s.staticDirectory ++ indexPage req.path) content →
          content.length ≤ maxSize
      else ∀ content, Opens fs (s.staticDirectory ++ req.path) content →
        content.length ≤ maxSize ∧ Request.getMimeType req.path ≠ [] := by
  cases hdir : isDirectory fs (s.staticDirectory ++ req.path) with
  | false =>
    rw [serveStatic_found (resolvePath_plain hdir), Request.ofRaw_mimeType hreq]
    simp only [Bool.false_eq_true, if_false]
  | true =>
    have hresolve := resolvePath_directory hdir
    simp only [if_true]
    by_cases hnil : req.path = []
    · rw [if_pos hnil] at hresolve
      refine ⟨fun hout => ?_, fun h => ?_⟩
      · obtain ⟨out, hout⟩ := hout
        obtain ⟨_, hcontent, _⟩ := bind_eq_ok hout
        unfold makeContent at hcontent
        rw [hresolve] at hcontent
        cases hcontent
      · exact absurd hnil h.1
    · rw [if_neg hnil] at hresolve
      have htype : text "text/html" ≠ [] := by decide
      rw [serveStatic_found hresolve]
      refine ⟨fun h => ?_, fun h content hopen => ?_⟩
      · exact ⟨hnil, fun content hopen => (h content hopen).1⟩
      · exact ⟨h.2 content hopen, htype⟩

/-! ### A small tree -/

/-- A directory with two files of two bytes, one of them without an extension. -/
def sampleFiles : FileSystem where
  stat := fun path =>
    if path = text "./assets" then some {isDir := true, mtime := 0, size := 4096}
    else if path = text "./assets/README" ∨ path = text "./assets/a.txt" then
      some {isDir := false, mtime := 0, size := 2}
    else none
  contents := fun path =>
    if path = text "./assets/README" ∨ path = text "./assets/a.txt" then some (text "hi")
    else none

def sampleServer : Server Unit := {sockfd := 3, router := Router.empty}

/-- What `sampleServer` makes of a request for one of `sampleFiles`. -/
def sampleAnswer (raw : Bytes) : Except Thrown (Status × Bytes) := do
  let req ← (Request.ofRaw raw).mapError .fault
  let served ← sampleServer.serveStatic sampleFiles 2 req (Response.make .plainText [] 5)
  .ok (served.2.status, served.2.content)

theorem serveStatic_iff_text : ∃ req,
    Request.ofRaw (text "GET /a.txt HTTP/1.1\r\n\r\n") = .ok req ∧
      ((∃ out, sampleServer.serveStatic sampleFiles 2 req (Response.make .plainText [] 5) =
          .ok out) ↔
        if isDirectory sampleFiles (sampleServer.staticDirectory ++ req.path) then
          req.path ≠ [] ∧ ∀ content,
            Opens sampleFiles (sampleServer.staticDirectory ++ indexPage req.path) content →
              content.length ≤ 2
        else ∀ content, Opens sampleFiles (sampleServer.staticDirectory ++ req.path) content →
          content.length ≤ 2 ∧ Request.getMimeType req.path ≠ []) := by
  obtain ⟨req, hreq⟩ := Request.ofRaw_total (text "GET /a.txt HTTP/1.1\r\n\r\n")
  exact ⟨req, hreq, serveStatic_iff sampleServer sampleFiles 2 hreq _⟩

theorem sampleFiles_short {path content : Bytes} (h : sampleFiles.contents path = some content) :
    content.length ≤ 2 := by
  unfold sampleFiles at h
  simp only at h
  split at h
  · rw [← Option.some.inj h]
    decide
  · cases h

/-- A file without an extension, and no target at all, end the handler. -/
theorem serveStatic_stops :
    ¬ (∀ (s : Server Unit) (fs : FileSystem) (maxSize : Nat) (raw : Bytes) (req : Request)
      (res : Response), Request.ofRaw raw = .ok req →
        (∀ path content, fs.contents path = some content → content.length ≤ maxSize) →
          ∃ out, s.serveStatic fs maxSize req res = .ok out) ∧
    sampleAnswer (text "GET /README HTTP/1.1\r\n\r\n") = .error (.fault .badOptionalAccess) ∧
    sampleAnswer (text "GET  HTTP/1.1\r\n\r\n") = .error (.fault .undefined) := by
  have hstop : sampleAnswer (text "GET /README HTTP/1.1\r\n\r\n") =
      .error (.fault .badOptionalAccess) := by decide +kernel
  refine ⟨fun h => ?_, hstop, by decide +kernel⟩
  obtain ⟨req, hreq⟩ := Request.ofRaw_total (text "GET /README HTTP/1.1\r\n\r\n")
  obtain ⟨out, hout⟩ := h sampleServer sampleFiles 2 _ req (Response.make .plainText [] 5) hreq
    fun path content hread => sampleFiles_short hread
  unfold sampleAnswer at hstop
  rw [hreq] at hstop
  simp only [Except.mapError, bind, Except.bind, hout] at hstop
  cases hstop

/-! ### A query -/

/-- What a client sees of a response. -/
def shown (res : Response) : Status × List (Bytes × Bytes) × Bytes :=
  (res.status, res.headers, res.content)

/-- Nothing is found for a target. -/
def Missing (s : Server W) (fs : FileSystem) (target : Bytes) : Prop :=
  if isDirectory fs (s.staticDirectory ++ target) then
    target ≠ [] ∧ fs.stat (cStr (s.staticDirectory ++ indexPage target)) = none
  else fs.stat (cStr (s.staticDirectory ++ target)) = none

theorem getMimeType_query {p : Bytes} (hp : ch '?' ∉ p) (q : Bytes) :
    Request.getMimeType (p ++ ch '?' :: q) = Request.getMimeType p := by
  have hstop : ∀ c ∈ p, decide (c ≠ ch '?') = true :=
    fun c hc => decide_eq_true fun hsame => hp (hsame ▸ hc)
  have hclean : (p ++ ch '?' :: q).takeWhile (· ≠ ch '?') = p.takeWhile (· ≠ ch '?') := by
    rw [List.takeWhile_append_of_pos hstop, List.takeWhile_cons_of_neg (by simp), List.append_nil]
    exact (List.takeWhile_eq_self_iff.mpr hstop).symm
  unfold Request.getMimeType
  rw [hclean]

theorem indexPage_extends (target : Bytes) : ∃ rest, indexPage target = target ++ rest := by
  unfold indexPage
  split
  · exact ⟨_, rfl⟩
  · exact ⟨_, List.append_assoc ..⟩

theorem answerFile_congr {fs : FileSystem} {path path' : Bytes} (h : cStr path = cStr path')
    (type : Bytes) (res : Response) :
    answerFile fs path type res = answerFile fs path' type res := by
  unfold answerFile
  rw [h]

theorem answerFile_absent {fs : FileSystem} {path : Bytes} (h : fs.stat (cStr path) = none)
    (type : Bytes) (res : Response) :
    answerFile fs path type res =
      .ok (res.setContent .plainText .notFound (text "Not Found")) := by
  unfold answerFile
  rw [h]

theorem fileResponse_status (type : Bytes) (st : FileStat) (content : Bytes) (res : Response) :
    (fileResponse type st content res).status = res.status := by
  unfold fileResponse
  simp only
  split <;> split <;> rfl

/-- No other answer says that nothing is found. -/
theorem answerFile_notFound {fs : FileSystem} {path type : Bytes} {res out : Response}
    (hres : res.status ≠ .notFound) (h : answerFile fs path type res = .ok out)
    (hout : out.status = .notFound) : fs.stat (cStr path) = none := by
  unfold answerFile at h
  cases hstat : fs.stat (cStr path) with
  | none => rfl
  | some st =>
    rw [hstat] at h
    simp only at h
    split at h
    · rw [← Except.ok.inj h] at hout
      exact absurd hout hres
    · split at h
      · cases h
      · rw [← Except.ok.inj h, fileResponse_status] at hout
        exact absurd hout hres

theorem answerTarget_missing {s : Server W} {fs : FileSystem} {target : Bytes}
    (h : s.Missing fs target) (res : Response) :
    s.answerTarget fs target res =
      .ok (res.setContent .plainText .notFound (text "Not Found")) := by
  unfold Missing at h
  cases hdir : isDirectory fs (s.staticDirectory ++ target) with
  | false =>
    simp only [hdir, Bool.false_eq_true, if_false] at h
    rw [answerTarget_plain hdir, answerFile_absent h]
  | true =>
    simp only [hdir, if_true] at h
    rw [answerTarget_directory hdir h.1, answerFile_absent h.2]

theorem missing_of_notFound {s : Server W} {fs : FileSystem} {target : Bytes}
    {res out : Response} (hres : res.status ≠ .notFound)
    (h : s.answerTarget fs target res = .ok out) (hout : out.status = .notFound) :
    s.Missing fs target := by
  unfold Missing
  cases hdir : isDirectory fs (s.staticDirectory ++ target) with
  | false =>
    simp only [Bool.false_eq_true, if_false]
    rw [answerTarget_plain hdir] at h
    exact answerFile_notFound hres h hout
  | true =>
    simp only [if_true]
    by_cases hnil : target = []
    · rw [hnil] at hdir h
      rw [answerTarget_empty hdir] at h
      cases h
    · rw [answerTarget_directory hdir hnil] at h
      exact ⟨hnil, answerFile_notFound hres h hout⟩

theorem cStr_hidden {directory p : Bytes} (hnul : 0 ∈ directory ++ p) (rest : Bytes) :
    cStr (directory ++ (p ++ rest)) = cStr (directory ++ p) := by
  rw [← List.append_assoc, cStr_of_mem hnul]

theorem isDirectory_hidden {fs : FileSystem} {directory p : Bytes} (hnul : 0 ∈ directory ++ p)
    (rest : Bytes) :
    isDirectory fs (directory ++ (p ++ rest)) = isDirectory fs (directory ++ p) := by
  unfold isDirectory
  rw [cStr_hidden hnul]

/-- Behind a NUL, neither a query nor an index page is part of the path. -/
theorem answerTarget_hidden {s : Server W} {fs : FileSystem} {p : Bytes}
    (hnul : 0 ∈ s.staticDirectory ++ p) (hp : ch '?' ∉ p) (q : Bytes)
    (hsome : ¬ (p = [] ∧ isDirectory fs s.staticDirectory = true)) (res : Response) :
    s.answerTarget fs (p ++ ch '?' :: q) res = s.answerTarget fs p res := by
  have hcut := fun rest => cStr_hidden hnul rest
  have hsame := @isDirectory_hidden fs _ _ hnul (ch '?' :: q)
  cases hdir : isDirectory fs (s.staticDirectory ++ p) with
  | false =>
    rw [answerTarget_plain hdir, answerTarget_plain (hsame.trans hdir), getMimeType_query hp]
    exact answerFile_congr (hcut _) ..
  | true =>
    have hne : p ≠ [] := by
      intro hnil
      rw [hnil, List.append_nil] at hdir
      exact hsome ⟨hnil, hdir⟩
    obtain ⟨rest, hpage⟩ := indexPage_extends p
    obtain ⟨rest', hpage'⟩ := indexPage_extends (p ++ ch '?' :: q)
    rw [answerTarget_directory hdir hne, answerTarget_directory (hsame.trans hdir) (by simp)]
    apply answerFile_congr
    rw [hpage, hpage', List.append_assoc, hcut, hcut]

/-- A target that is nothing but a query has an index page, where an empty one has none. -/
theorem answerTarget_query_only {s : Server W} {fs : FileSystem} (hnul : 0 ∈ s.staticDirectory)
    (hdir : isDirectory fs s.staticDirectory = true) (q : Bytes) (res : Response) :
    (∃ out, s.answerTarget fs (ch '?' :: q) res = .ok out) ∧
      s.answerTarget fs [] res = .error .undefined := by
  have hquery : isDirectory fs (s.staticDirectory ++ ch '?' :: q) = true := by
    unfold isDirectory at hdir ⊢
    rw [cStr_of_mem hnul]
    exact hdir
  have htype : text "text/html" ≠ [] := by decide
  constructor
  · rw [answerTarget_directory hquery (List.cons_ne_nil _ _)]
    exact answerFile_returns_iff.mpr fun _ _ => htype
  · apply answerTarget_empty
    rw [List.append_nil, hdir]

/-- Where no NUL hides it, a query leads to a file that is not there. -/
theorem query_missing {s : Server W} {fs : FileSystem}
    (hfs : ∀ path, ch '?' ∈ path → fs.stat path = none) {p : Bytes}
    (hnul : 0 ∉ s.staticDirectory ++ p) (q : Bytes) : s.Missing fs (p ++ ch '?' :: q) := by
  have hnone : fs.stat (cStr (s.staticDirectory ++ (p ++ ch '?' :: q))) = none := by
    apply hfs
    have hquery : cStr (ch '?' :: q) = ch '?' :: cStr q := List.takeWhile_cons_of_pos (by decide)
    rw [← List.append_assoc, cStr_of_not_mem hnul, hquery]
    simp
  unfold Missing isDirectory
  rw [hnone]
  simp

theorem missing_ne_empty {s : Server W} {fs : FileSystem} {target : Bytes}
    (h : s.Missing fs target) : ¬ (target = [] ∧ isDirectory fs s.staticDirectory = true) := by
  intro hempty
  obtain ⟨hnil, hdir⟩ := hempty
  unfold Missing at h
  rw [hnil, List.append_nil, if_pos hdir] at h
  exact h.1 rfl

theorem shown_missing_iff {s : Server W} {fs : FileSystem} {target : Bytes} {res : Response}
    (hres : res.status ≠ .notFound) :
    Except.ok (shown (res.setContent .plainText .notFound (text "Not Found"))) =
        (s.answerTarget fs target res).map shown ↔ s.Missing fs target := by
  refine ⟨fun h => ?_, fun h => ?_⟩
  · cases hanswer : s.answerTarget fs target res with
    | error fault =>
      rw [hanswer] at h
      cases h
    | ok out =>
      rw [hanswer] at h
      have hstatus : out.status = .notFound := (Prod.mk.inj (Except.ok.inj h)).1.symm
      exact missing_of_notFound hres hanswer hstatus
  · rw [answerTarget_missing h]
    rfl

/-- Where a NUL hides the query, only an empty target of a directory tells the two apart. -/
theorem shown_hidden_iff {s : Server W} {fs : FileSystem} {p : Bytes}
    (hnul : 0 ∈ s.staticDirectory ++ p) (hp : ch '?' ∉ p) (q : Bytes) (res : Response) :
    (s.answerTarget fs (p ++ ch '?' :: q) res).map shown = (s.answerTarget fs p res).map shown ↔
      ¬ (p = [] ∧ isDirectory fs s.staticDirectory = true) := by
  refine ⟨fun h hempty => ?_, fun hsome => ?_⟩
  · obtain ⟨rfl, hdir⟩ := hempty
    rw [List.append_nil] at hnul
    obtain ⟨⟨out, hout⟩, hfails⟩ := answerTarget_query_only hnul hdir q res
    rw [List.nil_append, hout, hfails] at h
    cases h
  · rw [answerTarget_hidden hnul hp q hsome]

theorem handleStaticResource_shown {s : Server W} {fs : FileSystem} {raw : Bytes} {req : Request}
    (hreq : Request.ofRaw raw = .ok req) (res : Response) :
    ((s.handleStaticResource fs req res).map fun out => shown out.2) =
      (s.answerTarget fs req.path res).map shown := by
  rw [← handleStaticResource_target (Request.ofRaw_mimeType hreq)]
  cases s.handleStaticResource fs req res <;> rfl

/-- **A query is ignored** exactly where nothing is found without it either, or where a NUL in
front hides it, unless it is all there is of the target of a directory. -/
theorem query_ignored_iff (s : Server W) {fs : FileSystem}
    (hfs : ∀ path, ch '?' ∈ path → fs.stat path = none) {raw raw' p q : Bytes}
    {req req' : Request} (hp : ch '?' ∉ p) (hreq : Request.ofRaw raw = .ok req)
    (hpath : req.path = p ++ ch '?' :: q) (hreq' : Request.ofRaw raw' = .ok req')
    (hpath' : req'.path = p) (unset : ContentType) (sd : Int) :
    let res := (Response.make unset s.defaultHeaders sd).setStaticDirectory s.staticDirectory
    ((s.handleStaticResource fs req res).map fun out => shown out.2) =
        ((s.handleStaticResource fs req' res).map fun out => shown out.2) ↔
      s.Missing fs p ∨ 0 ∈ s.staticDirectory ++ p ∧
        ¬ (p = [] ∧ isDirectory fs s.staticDirectory = true) := by
  intro res
  have hres : res.status ≠ .notFound := by
    have hok : res.status = .ok := by
      show (Response.make unset s.defaultHeaders sd).status = .ok
      rw [Response.make_eq]
    intro hstatus
    rw [hok] at hstatus
    cases hstatus
  rw [handleStaticResource_shown hreq, handleStaticResource_shown hreq', hpath, hpath']
  by_cases hnul : 0 ∈ s.staticDirectory ++ p
  · rw [shown_hidden_iff hnul hp]
    refine ⟨fun hsome => ?_, fun h => ?_⟩
    · exact .inr ⟨hnul, hsome⟩
    · exact h.elim missing_ne_empty fun hhidden => hhidden.2
  · rw [answerTarget_missing (query_missing hfs hnul q)]
    refine (shown_missing_iff hres).trans ?_
    exact ⟨.inl, fun h => h.resolve_right fun hhidden => hnul hhidden.1⟩

theorem sampleFiles_no_query (path : Bytes) (h : ch '?' ∈ path) : sampleFiles.stat path = none := by
  have hplain : ∀ known : Bytes, (∀ c ∈ known, c ≠ ch '?') → path ≠ known := by
    intro known hknown hsame
    exact hknown _ (hsame ▸ h) rfl
  have hdirectory := hplain (text "./assets") (every_char (by decide))
  have hreadme := hplain (text "./assets/README") (every_char (by decide))
  have htext := hplain (text "./assets/a.txt") (every_char (by decide))
  unfold sampleFiles
  simp only [if_neg hdirectory, hreadme, htext, or_self, if_false]

theorem query_ignored_iff_missing : ∃ req req',
    Request.ofRaw (text "GET /b.txt?v=1 HTTP/1.1\r\n\r\n") = .ok req ∧
    Request.ofRaw (text "GET /b.txt HTTP/1.1\r\n\r\n") = .ok req' ∧
    let res := (Response.make .plainText sampleServer.defaultHeaders 5).setStaticDirectory
      sampleServer.staticDirectory
    (((sampleServer.handleStaticResource sampleFiles req res).map fun out => shown out.2) =
        ((sampleServer.handleStaticResource sampleFiles req' res).map fun out => shown out.2) ↔
      sampleServer.Missing sampleFiles (text "/b.txt") ∨
        0 ∈ sampleServer.staticDirectory ++ text "/b.txt" ∧
          ¬ (text "/b.txt" = [] ∧
            isDirectory sampleFiles sampleServer.staticDirectory = true)) := by
  obtain ⟨req, hreq, hpath⟩ := @Request.exists_ofRaw _
    (text "GET /b.txt?v=1 HTTP/1.1\r\n\r\n") Request.path (text "/b.txt" ++ ch '?' :: text "v=1")
    (by decide +kernel)
  obtain ⟨req', hreq', hpath'⟩ := @Request.exists_ofRaw _
    (text "GET /b.txt HTTP/1.1\r\n\r\n") Request.path (text "/b.txt")
    (by decide +kernel)
  refine ⟨req, req', hreq, hreq', ?_⟩
  exact query_ignored_iff sampleServer sampleFiles_no_query (by decide) hreq hpath hreq' hpath'
    .plainText 5

/-- With a query a file is not found. -/
theorem query_hides_file :
    ¬ (∀ (s : Server Unit) (fs : FileSystem) (p q raw raw' : Bytes) (req req' : Request)
      (res : Response), (∀ path, ch '?' ∈ path → fs.stat path = none) → ch '?' ∉ p →
        Request.ofRaw raw = .ok req → req.path = p ++ ch '?' :: q →
        Request.ofRaw raw' = .ok req' → req'.path = p →
          ((s.handleStaticResource fs req res).map fun out => shown out.2) =
            ((s.handleStaticResource fs req' res).map fun out => shown out.2)) ∧
    sampleAnswer (text "GET /a.txt HTTP/1.1\r\n\r\n") = .ok (.ok, text "hi") ∧
    sampleAnswer (text "GET /a.txt?v=1 HTTP/1.1\r\n\r\n") = .ok (.notFound, text "Not Found") := by
  refine ⟨fun h => ?_, by decide +kernel, by decide +kernel⟩
  obtain ⟨req, hreq, hpath⟩ := @Request.exists_ofRaw _
    (text "GET /a.txt?v=1 HTTP/1.1\r\n\r\n") Request.path (text "/a.txt" ++ ch '?' :: text "v=1")
    (by decide +kernel)
  obtain ⟨req', hreq', hpath'⟩ := @Request.exists_ofRaw _
    (text "GET /a.txt HTTP/1.1\r\n\r\n") Request.path (text "/a.txt")
    (by decide +kernel)
  have hsame := h sampleServer sampleFiles (text "/a.txt") (text "v=1") _ _ req req'
    (Response.make .plainText [] 5) sampleFiles_no_query (by decide) hreq hpath hreq' hpath'
  have hquery : (Request.ofRaw (text "GET /a.txt?v=1 HTTP/1.1\r\n\r\n")).bind (fun req =>
      ((sampleServer.handleStaticResource sampleFiles req (Response.make .plainText [] 5)).map
        fun out => shown out.2).map Prod.fst) = .ok .notFound := by decide +kernel
  have hplain : (Request.ofRaw (text "GET /a.txt HTTP/1.1\r\n\r\n")).bind (fun req =>
      ((sampleServer.handleStaticResource sampleFiles req (Response.make .plainText [] 5)).map
        fun out => shown out.2).map Prod.fst) = .ok .ok := by decide +kernel
  rw [hreq] at hquery
  rw [hreq'] at hplain
  simp only [Except.bind, hsame] at hquery hplain
  rw [hplain] at hquery
  cases hquery

end Server
end HttpServer
