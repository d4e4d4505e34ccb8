import HttpServer.Router.Routes
import HttpServer.Server

/-! What answers a request.

Before the post-routing handler is called, a route's handler, a file or nothing has answered
(`Handed`). Everything `handleRoute` does can be read off these three cases
(`handleRoute_handed`). -/
namespace HttpServer
open Lib Utils

variable {W : Type}

/-! ### Files -/

/-- No route takes the request and this file answers it; the post-routing handler is called
with `req'` and `res'`. -/
structure Served (s : Server W) (fs : FileSystem) (req : Request) (res : Response) (file : Bytes)
    (req' : Request) (res' : Response) : Prop where
  unrouted : (s.router.matchRequest req).2 = none
  method : req.method = text "GET" ∨ req.method = text "HEAD"
  found : ∃ path st mimeType,
    s.resolvePath fs (s.router.matchRequest req).1 = .ok (req', path) ∧
      fs.stat (cStr path) = some st ∧ fs.contents (cStr path) = some file ∧
      req'.mimeType? = some mimeType ∧
      res' = Server.fileResponse mimeType st file (res.setStaticDirectory s.staticDirectory)

/-- The headers are all that a file changes beside the content. -/
theorem fileResponse_fields (mimeType : Bytes) (st : FileStat) (file : Bytes) (res : Response) :
    (Server.fileResponse mimeType st file res).content = res.content ++ file ∧
      (Server.fileResponse mimeType st file res).contentType = res.contentType ∧
      (Server.fileResponse mimeType st file res).staticDirectory = res.staticDirectory := by
  unfold Server.fileResponse
  simp only
  split <;> split <;> exact ⟨rfl, rfl, rfl⟩

/-- A request is answered by one file. -/
theorem Served.unique {s : Server W} {fs : FileSystem} {req req₁ req₂ : Request}
    {res res₁ res₂ : Response} {file₁ file₂ : Bytes} (h₁ : Served s fs req res file₁ req₁ res₁)
    (h₂ : Served s fs req res file₂ req₂ res₂) : file₁ = file₂ ∧ req₁ = req₂ ∧ res₁ = res₂ := by
  obtain ⟨path₁, st₁, mimeType₁, hpath₁, hst₁, hfile₁, hmime₁, hres₁⟩ := h₁.found
  obtain ⟨path₂, st₂, mimeType₂, hpath₂, hst₂, hfile₂, hmime₂, hres₂⟩ := h₂.found
  rw [hpath₁] at hpath₂
  obtain ⟨rfl, rfl⟩ := Prod.mk.inj (Except.ok.inj hpath₂)
  rw [hst₁] at hst₂
  rw [hfile₁] at hfile₂
  rw [hmime₁] at hmime₂
  obtain rfl := Option.some.inj hst₂
  obtain rfl := Option.some.inj hfile₂
  obtain rfl := Option.some.inj hmime₂
  exact ⟨rfl, rfl, hres₁.trans hres₂.symm⟩

/-- A file that can be read is the answer, and without one no header is set. -/
theorem handleStaticResource_cases {s : Server W} {fs : FileSystem} {req req' : Request}
    {res res' : Response} (h : s.handleStaticResource fs req res = .ok (req', res')) :
    ∃ path, s.resolvePath fs req = .ok (req', path) ∧
      ((∃ st file mimeType, fs.stat (cStr path) = some st ∧ fs.contents (cStr path) = some file ∧
          req'.mimeType? = some mimeType ∧ res' = Server.fileResponse mimeType st file res) ∨
        (fs.stat (cStr path) = none ∧
          res' = res.setContent .plainText .notFound (text "Not Found")) ∨
        (fs.contents (cStr path) = none ∧ res' = res)) := by
  unfold Server.handleStaticResource at h
  obtain ⟨⟨resolved, path⟩, hpath, h⟩ := bind_eq_ok h
  simp only at h
  split at h
  · next hst =>
    obtain ⟨rfl, rfl⟩ := Prod.mk.inj (Except.ok.inj h)
    exact ⟨path, hpath, .inr (.inl ⟨hst, rfl⟩)⟩
  · next st hst =>
    split at h
    · next hfile =>
      obtain ⟨rfl, rfl⟩ := Prod.mk.inj (Except.ok.inj h)
      exact ⟨path, hpath, .inr (.inr ⟨hfile, rfl⟩)⟩
    · next file hfile =>
      split at h
      · cases h
      · next mimeType hmime =>
        obtain ⟨rfl, rfl⟩ := Prod.mk.inj (Except.ok.inj h)
        exact ⟨path, hpath, .inl ⟨st, file, mimeType, hst, hfile, hmime, rfl⟩⟩

/-! ### The three answers -/

/-- What `handleRoute` has done when it calls the post-routing handler, and what it calls it
with. Without a route or a file no header is set. -/
inductive Handed (s : Server W) (env : Env W) (req : Request) (res : Response) :
    List Action → Request → Response → Prop
  | route (handler : RequestHandler W) (hm : (s.router.matchRequest req).2 = some handler) :
    Handed s env req res
      (.handle (s.router.matchRequest req).1 ::
        (Server.callHandler (some handler) env.world (s.router.matchRequest req).1
          (res.setStaticDirectory s.staticDirectory)).2)
      (s.router.matchRequest req).1
      (handler env.world (s.router.matchRequest req).1
        (res.setStaticDirectory s.staticDirectory)).1
  | file {file : Bytes} {req' : Request} {res' : Response}
    (hserved : Served s env.files req res file req' res') : Handed s env req res [] req' res'
  | nothing {req' : Request} {res' : Response} (hm : (s.router.matchRequest req).2 = none)
    (hnone : ∀ file req' res', ¬ Served s env.files req res file req' res')
    (hres : res' = res.setStaticDirectory s.staticDirectory ∨
      res' = (res.setStaticDirectory s.staticDirectory).setContent .plainText .notFound
        (text "Not Found")) : Handed s env req res [] req' res'

/-- **What `handleRoute` does**: one of the three, the post-routing handler, and `build`. -/
theorem handleRoute_handed {s : Server W} {env : Env W} {req : Request} {res : Response}
    {actions : List Action} {body : Option Bytes}
    (h : s.handleRoute env req res = .ok (actions, body)) :
    ∃ routed req' res', Handed s env req res routed req' res' ∧
      actions = routed ++ (Server.callHandler s.postRoutingHandler env.world req' res').2 ∧
      body = ((Server.callHandler s.postRoutingHandler env.world req' res').1.build
        env.files false).2 := by
  have hframe := s.router.matchRequest_frame req
  have hmethod : (s.router.matchRequest req).1.method = req.method := by
    rw [hframe]
  unfold Server.handleRoute at h
  simp only at h
  cases hm : (s.router.matchRequest req).2 with
  | some handler =>
    rw [hm] at h
    obtain ⟨hactions, hbody⟩ := Prod.mk.inj (Except.ok.inj h)
    exact ⟨_, _, _, .route handler hm, hactions.symm, hbody.symm⟩
  | none =>
    rw [hm] at h
    simp only at h
    split at h
    · next hread =>
      rw [hmethod] at hread
      obtain ⟨⟨req₁, res₁⟩, hstatic, h⟩ := bind_eq_ok h
      obtain ⟨hactions, hbody⟩ := Prod.mk.inj (Except.ok.inj h)
      refine ⟨[], req₁, res₁, ?_, hactions.symm, hbody.symm⟩
      obtain ⟨path, hpath, hcase⟩ := handleStaticResource_cases hstatic
      -- another file would be found on the same path
      have hnone : (env.files.stat (cStr path) = none ∨ env.files.contents (cStr path) = none) →
          ∀ file req' res', ¬ Served s env.files req res file req' res' := by
        intro hnone file req' res' hserved
        obtain ⟨path', st, mimeType, hpath', hst, hfile, _, _⟩ := hserved.found
        rw [hpath] at hpath'
        obtain ⟨_, rfl⟩ := Prod.mk.inj (Except.ok.inj hpath')
        rcases hnone with hnone | hnone
        · rw [hnone] at hst
          cases hst
        · rw [hnone] at hfile
          cases hfile
      rcases hcase with hserved | ⟨hst, hres⟩ | ⟨hfile, hres⟩
      · obtain ⟨st, file, mimeType, hfound⟩ := hserved
        exact .file ⟨hm, hread, path, st, mimeType, hpath, hfound⟩
      · exact .nothing hm (hnone (.inl hst)) (.inr hres)
      · exact .nothing hm (hnone (.inr hfile)) (.inl hres)
    · next hread =>
      rw [hmethod] at hread
      obtain ⟨hactions, hbody⟩ := Prod.mk.inj (Except.ok.inj h)
      refine ⟨[], _, _, .nothing hm ?_ (.inl rfl), hactions.symm, hbody.symm⟩
      exact fun file req' res' hserved => hread hserved.method

end HttpServer
