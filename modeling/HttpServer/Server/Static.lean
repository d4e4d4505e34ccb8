import Mathlib.Data.List.DropRight
import HttpServer.Lib.Path
import HttpServer.Request.Total
import HttpServer.Router.Routes
import HttpServer.Server

/-! Which files a request can reach.

The server looks at the path that its directory and a request's target make, put one behind
the other as they are. Read by their components alone, the paths that are looked at lie in
the directory exactly where the target, however far it leads up, comes back down by the
names it left (`staticAccesses_below_iff`). -/
namespace HttpServer
open Lib Lib.Path Utils

/-! ### Paths by their components -/

def component (name : Bytes) : Step Bytes :=
  if name = [] ∨ name = text "." then .stay
  else if name = text ".." then .up
  else .down name

def components (path : Bytes) : List (Step Bytes) := (path.splitOn (ch '/')).map component

/-- Where a path leads from a working directory. -/
def resolve (cwd : List Bytes) (path : Bytes) : List Bytes :=
  walk (if path.head? = some (ch '/') then [] else cwd) (components path)

/-- The path leads to the directory or to something below it. -/
def Below (cwd : List Bytes) (directory path : Bytes) : Prop :=
  resolve cwd directory <+: resolve cwd path

theorem components_append (a b : Bytes) :
    components (a ++ ch '/' :: b) = components a ++ components b := by
  rw [components, List.splitOn_append_cons_self, List.map_append]
  rfl

theorem components_single {name : Bytes} (h : ch '/' ∉ name) :
    components name = [component name] := by
  rw [components, List.splitOn_eq_singleton h]
  rfl

theorem resolve_nil (cwd : List Bytes) : resolve cwd [] = cwd := rfl

theorem resolve_append (cwd : List Bytes) (a b : Bytes) :
    resolve cwd (a ++ ch '/' :: b) = walk (resolve cwd (a ++ [ch '/'])) (components b) := by
  have hhead : (a ++ ch '/' :: b).head? = (a ++ [ch '/']).head? := by
    cases a <;> rfl
  have hslash : components (a ++ [ch '/']) = components a ++ [.stay] := components_append a []
  unfold resolve
  rw [hhead, components_append, hslash, walk_append, walk_append]
  rfl

/-- A slash behind a path says nothing. -/
theorem resolve_slash (cwd : List Bytes) {a : Bytes} (h : a ≠ []) :
    resolve cwd (a ++ [ch '/']) = resolve cwd a := by
  have hhead : (a ++ [ch '/']).head? = a.head? := by
    cases a with
    | nil => exact absurd rfl h
    | cons c a => rfl
  have hslash : components (a ++ [ch '/']) = components a ++ [.stay] := components_append a []
  unfold resolve
  rw [hhead, hslash, walk_append]
  rfl

/-- What stands behind the last slash is walked from there. -/
theorem resolve_behind (cwd : List Bytes) {front : Bytes}
    (hfront : front = [] ∨ ∃ a, front = a ++ [ch '/']) {rest : Bytes}
    (hrest : front = [] → rest.head? ≠ some (ch '/')) :
    resolve cwd (front ++ rest) = walk (resolve cwd front) (components rest) := by
  rcases hfront with rfl | ⟨a, rfl⟩
  · rw [List.nil_append, resolve_nil, resolve, if_neg (hrest rfl)]
  · rw [List.append_assoc, List.singleton_append, resolve_append]

/-! ### A target behind a directory -/

/-- How a target leads away from the directory it stands behind. Without a slash between
them it goes on with the last name of the directory, and starts beside it; and without a
directory it can start at the root. -/
def departure (cwd : List Bytes) (directory target : Bytes) : Climb Bytes :=
  let last := directory.rtakeWhile (· ≠ ch '/')
  if target.head? = some (ch '/') then
    if directory = [] then ⟨cwd.length, (climb (components target)).names⟩
    else climb (components target)
  else if target = [] ∨ last = [] then climb (components target)
  else (climb (components (last ++ target))).beside (component last)

/-- A directory up to its last slash, and the name behind it. -/
theorem directory_split (directory : Bytes) :
    ∃ front, directory = front ++ directory.rtakeWhile (· ≠ ch '/') ∧
      (front = [] ∨ ∃ a, front = a ++ [ch '/']) ∧
      ch '/' ∉ directory.rtakeWhile (· ≠ ch '/') := by
  refine ⟨directory.rdropWhile (· ≠ ch '/'), ?_, ?_, ?_⟩
  · exact (List.rdropWhile_append_rtakeWhile).symm
  · by_cases hnil : directory.rdropWhile (· ≠ ch '/') = []
    · exact .inl hnil
    · right
      have hlast := List.rdropWhile_last_not _ _ hnil
      have hslash : (directory.rdropWhile (· ≠ ch '/')).getLast hnil = ch '/' := by
        simpa using hlast
      have hcut := List.dropLast_append_getLast hnil
      rw [hslash] at hcut
      exact ⟨_, hcut.symm⟩
  · intro hc
    have hmem := List.mem_rtakeWhile_imp hc
    simp at hmem

theorem below_target_iff (cwd : List Bytes) (directory target : Bytes) :
    Below cwd directory (directory ++ target) ↔
      (departure cwd directory target).Returns (resolve cwd directory) := by
  unfold departure Below
  simp only
  split
  · next hslash =>
    obtain ⟨rest, rfl⟩ : ∃ rest, target = ch '/' :: rest := by
      cases target with
      | nil => cases hslash
      | cons c rest => exact ⟨rest, by rw [Option.some.inj hslash]⟩
    split
    · next hnone =>
      rw [hnone, List.nil_append, resolve_nil, resolve, if_pos hslash, walk_eq]
      simp [Climb.target, Climb.Returns]
    · next hsome =>
      have hstart : components (ch '/' :: rest) = .stay :: components rest :=
        components_append [] rest
      rw [resolve_append, resolve_slash cwd hsome, ← prefix_walk_iff, hstart]
      rfl
  · next hnoslash =>
    obtain ⟨front, hsplit, hfront, hlast⟩ := directory_split directory
    generalize directory.rtakeWhile (· ≠ ch '/') = last at *
    have hdirectory : resolve cwd directory = walk (resolve cwd front) (components last) := by
      rw [hsplit]
      apply resolve_behind cwd hfront
      exact fun _ hhead => hlast (List.mem_of_mem_head? hhead)
    split
    · next hplain =>
      rw [← prefix_walk_iff]
      rcases hplain with rfl | rfl
      · rw [List.append_nil]
        rfl
      · rw [List.append_nil] at hsplit
        rw [hsplit, resolve_behind cwd hfront fun _ => hnoslash]
    · next hglued =>
      have hne : last ≠ [] := fun hnil => hglued (.inr hnil)
      have hpath : resolve cwd (directory ++ target) =
          walk (resolve cwd front) (components (last ++ target)) := by
        rw [hsplit, List.append_assoc]
        apply resolve_behind cwd hfront
        intro _ hhead
        rw [List.head?_append_of_ne_nil _ hne] at hhead
        exact hlast (List.mem_of_mem_head? hhead)
      rw [hdirectory, hpath, components_single hlast]
      exact enter_prefix_walk_iff (resolve cwd front) (component last) (components (last ++ target))

/-! ### What is looked at -/

/-- A path looked up, or opened for reading. -/
inductive Access where
  | stat (path : Bytes)
  | read (path : Bytes)

def Access.path : Access → Bytes
  | stat path => path
  | read path => path

/-- What two file systems say alike. -/
def Access.Same (fs fs' : FileSystem) : Access → Prop
  | stat path => fs.stat path = fs'.stat path
  | read path => fs.contents path = fs'.contents path

namespace Server
variable {W : Type}

/-- What `handleStaticResource` looks at, in this order. -/
def staticAccesses (s : Server W) (fs : FileSystem) (req : Request) : List Access :=
  .stat (cStr (s.staticDirectory ++ req.path)) ::
    match resolvePath s fs req with
    | .error _ => []
    | .ok (_, path) =>
      .stat (cStr path) :: if (fs.stat (cStr path)).isSome then [.read (cStr path)] else []

/-- It looks at nothing else. -/
theorem handleStaticResource_congr (s : Server W) {fs fs' : FileSystem} (req : Request)
    (res : Response) (h : ∀ a ∈ s.staticAccesses fs req, a.Same fs fs') :
    s.handleStaticResource fs req res = s.handleStaticResource fs' req res := by
  have hfirst : fs.stat (cStr (s.staticDirectory ++ req.path)) =
      fs'.stat (cStr (s.staticDirectory ++ req.path)) := h _ (List.mem_cons_self ..)
  have hpath : s.resolvePath fs' req = s.resolvePath fs req := by
    unfold resolvePath
    simp only [hfirst]
  unfold handleStaticResource
  rw [hpath]
  unfold staticAccesses at h
  cases hresolve : s.resolvePath fs req with
  | error fault => rfl
  | ok resolved =>
    obtain ⟨req', path⟩ := resolved
    rw [hresolve] at h
    have hstat : fs.stat (cStr path) = fs'.stat (cStr path) :=
      h (.stat (cStr path)) (List.mem_cons_of_mem _ (List.mem_cons_self ..))
    simp only [bind, Except.bind]
    rw [← hstat]
    cases hst : fs.stat (cStr path) with
    | none => rfl
    | some st =>
      have hread : fs.contents (cStr path) = fs'.contents (cStr path) := by
        apply h (.read (cStr path))
        simp [hst]
      simp only [hread]

/-! ### The index page -/

theorem cStr_of_mem {a : Bytes} (h : 0 ∈ a) (b : Bytes) : cStr (a ++ b) = cStr a := by
  induction a with
  | nil => cases h
  | cons c a ih =>
    unfold cStr at ih ⊢
    rw [List.cons_append, List.takeWhile_cons, List.takeWhile_cons]
    split
    · next hc =>
      rcases List.mem_cons.mp h with rfl | h
      · exact absurd rfl (of_decide_eq_true hc)
      · rw [ih h]
    · rfl

theorem cStr_of_not_mem {a : Bytes} (h : 0 ∉ a) (b : Bytes) : cStr (a ++ b) = a ++ cStr b := by
  apply List.takeWhile_append_of_pos
  intro c hc
  apply decide_eq_true
  exact fun hzero => h (hzero ▸ hc)

theorem cStr_self {a : Bytes} (h : 0 ∉ a) : cStr a = a := by
  have hself := cStr_of_not_mem h []
  rw [List.append_nil] at hself
  exact hself.trans (List.append_nil a)

theorem components_index : components (text "index.html") = [.down (text "index.html")] := by
  have hslash : ∀ c ∈ text "index.html", c ≠ ch '/' := every_char (by decide)
  have hdot : text "index.html" ≠ text "." := text_ne (by decide)
  have hdots : text "index.html" ≠ text ".." := text_ne (by decide)
  have hnil : text "index.html" ≠ [] := by
    rw [text_ofList]
    exact List.cons_ne_nil _ _
  rw [components_single fun hc => hslash _ hc rfl, component, if_neg (not_or.mpr ⟨hnil, hdot⟩),
    if_neg hdots]

/-- An index page lies below its directory. -/
theorem below_index (cwd : List Bytes) {path : Bytes} (h : path ≠ []) :
    Below cwd path (path ++ text "/" ++ text "index.html") ∧
      (path.getLast? = some (ch '/') → Below cwd path (path ++ text "index.html")) := by
  have hbelow : ∀ front : Bytes,
      Below cwd (front ++ [ch '/']) (front ++ ch '/' :: text "index.html") := by
    intro front
    unfold Below
    rw [resolve_append cwd front (text "index.html"), components_index]
    exact List.prefix_append ..
  constructor
  · have hpage := hbelow path
    unfold Below at hpage ⊢
    rw [resolve_slash cwd h] at hpage
    rw [List.append_assoc]
    exact hpage
  · intro hlast
    obtain ⟨front, rfl⟩ := List.getLast?_eq_some_iff.mp hlast
    have hpage := hbelow front
    rw [List.append_assoc]
    exact hpage

theorem resolvePath_path {s : Server W} {fs : FileSystem} {req req' : Request} {path : Bytes}
    (h : s.resolvePath fs req = .ok (req', path)) :
    path = s.staticDirectory ++ req.path ∨ req.path ≠ [] ∧
      (path = s.staticDirectory ++ req.path ++ text "/" ++ text "index.html" ∨
        req.path.getLast? = some (ch '/') ∧
          path = s.staticDirectory ++ req.path ++ text "index.html") := by
  unfold resolvePath at h
  simp only at h
  split at h
  · split at h
    · cases h
    · next last hlast =>
      have hne : req.path ≠ [] := by
        intro hnil
        rw [hnil] at hlast
        cases hlast
      obtain ⟨_, rfl⟩ := Prod.mk.inj (Except.ok.inj h)
      refine .inr ⟨hne, ?_⟩
      split
      · exact .inl (by simp only [List.append_assoc])
      · next hslash =>
        rw [not_not.mp hslash] at hlast
        exact .inr ⟨hlast, by simp only [List.append_assoc]⟩
  · exact .inl (Prod.mk.inj (Except.ok.inj h)).2.symm

/-- What is looked up first contains what is looked at after it. -/
theorem below_resolvePath (cwd : List Bytes) {s : Server W} {fs : FileSystem}
    {req req' : Request} {path : Bytes} (h : s.resolvePath fs req = .ok (req', path)) :
    Below cwd (cStr (s.staticDirectory ++ req.path)) (cStr path) := by
  rcases resolvePath_path h with rfl | ⟨hne, hpage⟩
  · exact List.prefix_rfl
  · by_cases hnul : 0 ∈ s.staticDirectory ++ req.path
    · have hsame : cStr path = cStr (s.staticDirectory ++ req.path) := by
        rcases hpage with rfl | ⟨_, rfl⟩
        · rw [List.append_assoc, cStr_of_mem hnul]
        · rw [cStr_of_mem hnul]
      rw [hsame]
      exact List.prefix_rfl
    · have hpath : s.staticDirectory ++ req.path ≠ [] :=
        fun hnil => hne (List.append_eq_nil_iff.mp hnil).2
      have hindex : ∀ c ∈ text "index.html", c ≠ 0 := every_char (by decide)
      have hslash : ∀ c ∈ text "/", c ≠ 0 := every_char (by decide)
      obtain ⟨hbehind, hlast⟩ := below_index cwd hpath
      rw [cStr_self hnul]
      rcases hpage with rfl | ⟨hend, rfl⟩
      · rw [List.append_assoc, cStr_of_not_mem hnul, cStr_self, ← List.append_assoc]
        · exact hbehind
        · intro hc
          rcases List.mem_append.mp hc with hc | hc
          · exact hslash 0 hc rfl
          · exact hindex 0 hc rfl
      · rw [cStr_of_not_mem hnul, cStr_self fun hc => hindex 0 hc rfl]
        apply hlast
        rw [List.getLast?_append_of_ne_nil _ hne, hend]

/-- Where the first path is below a directory, all are. -/
theorem staticAccesses_below (s : Server W) (fs : FileSystem) (cwd : List Bytes) (req : Request)
    (directory : Bytes) :
    (∀ a ∈ s.staticAccesses fs req, Below cwd directory a.path) ↔
      Below cwd directory (cStr (s.staticDirectory ++ req.path)) := by
  constructor
  · intro h
    exact h _ (List.mem_cons_self ..)
  · intro h a ha
    unfold staticAccesses at ha
    rcases List.mem_cons.mp ha with rfl | ha
    · exact h
    · split at ha
      · cases ha
      · next req' path hresolve =>
        have hpath : a.path = cStr path := by
          rcases List.mem_cons.mp ha with rfl | ha
          · rfl
          · split at ha
            · rw [List.mem_singleton.mp ha]
              rfl
            · cases ha
        rw [hpath]
        exact List.IsPrefix.trans h (below_resolvePath cwd hresolve)

/-! ### Where a target leads -/

/-- A target as the file system is given it: nothing of it, where the directory already ends
in a NUL. -/
def seenTarget (directory target : Bytes) : Bytes := if 0 ∈ directory then [] else cStr target

/-- **Static files stay in the directory** exactly where the target returns by the names it
left: whatever the tree looks like, and from wherever the server runs. -/
theorem staticAccesses_below_iff (s : Server W) (fs : FileSystem) (cwd : List Bytes)
    (req : Request) :
    (∀ a ∈ s.staticAccesses fs req, Below cwd (cStr s.staticDirectory) a.path) ↔
      (departure cwd (cStr s.staticDirectory) (seenTarget s.staticDirectory req.path)).Returns
        (resolve cwd (cStr s.staticDirectory)) := by
  rw [staticAccesses_below, ← below_target_iff]
  have hseen : cStr (s.staticDirectory ++ req.path) =
      cStr s.staticDirectory ++ seenTarget s.staticDirectory req.path := by
    unfold seenTarget
    split
    · next hmem => rw [cStr_of_mem hmem, List.append_nil]
    · next hmem => rw [cStr_of_not_mem hmem, cStr_self hmem]
  rw [hseen]

/-- A request for a file beside the directory is looked up there. -/
theorem staticAccesses_leave : ¬ ∀ (s : Server Unit) (fs : FileSystem) (cwd : List Bytes)
    (raw : Bytes) (req : Request), Request.ofRaw raw = .ok req →
      (s.router.matchRequest req).2 = none →
        (req.method = text "GET" ∨ req.method = text "HEAD") →
          ∀ a ∈ s.staticAccesses fs req, Below cwd (cStr s.staticDirectory) a.path := by
  intro h
  obtain ⟨req, hreq, hline⟩ := @Request.exists_ofRaw _ (text "GET /../x HTTP/1.1\r\n\r\n")
    (fun req => (req.method, req.path)) (text "GET", text "/../x") (by decide +kernel)
  obtain ⟨hmethod, hpath⟩ := Prod.mk.inj hline
  have hbelow := h {sockfd := 3, router := Router.empty}
    {stat := fun _ => none, contents := fun _ => none} [text "srv"] _ req hreq
    (Router.matchRequest_empty req) (.inl hmethod) _ (List.mem_cons_self ..)
  have hout : ¬ Below [text "srv"] (cStr (text "./assets"))
      (cStr (text "./assets" ++ text "/../x")) := by
    unfold Below
    decide +kernel
  rw [← hpath] at hout
  exact hout hbelow

/-! ### Targets that never go up -/

/-- A target that starts with a slash and has no `..` in it stays in the directory. -/
theorem staticAccesses_within (s : Server W) (fs : FileSystem) (cwd : List Bytes) {req : Request}
    (hslash : req.path.head? = some (ch '/')) (hup : text ".." ∉ req.path.splitOn (ch '/'))
    (hdirectory : s.staticDirectory ≠ []) (hnul : 0 ∉ s.staticDirectory ++ req.path) :
    ∀ a ∈ s.staticAccesses fs req, Below cwd s.staticDirectory a.path := by
  rw [staticAccesses_below, cStr_self hnul, below_target_iff]
  have hsteps : Step.up ∉ components req.path := by
    intro hmem
    obtain ⟨name, hname, hcomponent⟩ := List.mem_map.mp hmem
    unfold component at hcomponent
    split at hcomponent
    · cases hcomponent
    · split at hcomponent
      · next hdots => exact hup (hdots ▸ hname)
      · cases hcomponent
  unfold departure
  simp only [if_pos hslash, if_neg hdirectory]
  exact climb_returns hsteps _

end Server
end HttpServer
