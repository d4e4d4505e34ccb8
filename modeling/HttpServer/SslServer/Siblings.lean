import HttpServer.SslServer
import HttpServer.Server.Perform

/-! The two `performRequest`.

They differ in what the response is made for: the plain server gives it the socket and the TLS
server an `SSL`, so that its `sockfd_` stays unset. Handlers that do not look at it make both
servers do the same with the same bytes. -/
namespace HttpServer
open Lib Utils

variable {W : Type}

/-- The response made for another socket. -/
def Response.withSocket (res : Response) (fd : Int) : Response := {res with sockfd := fd}

/-- A handler that does not look at the response's socket, and leaves it as it is. -/
def RequestHandler.Blind (handler : RequestHandler W) : Prop :=
  ∀ world req res fd, handler world req (res.withSocket fd) =
    ((handler world req res).1.withSocket fd, (handler world req res).2)

/-- No handler of the server looks at it. -/
structure Server.Blind (s : Server W) : Prop where
  route : ∀ req handler, (s.router.matchRequest req).2 = some handler →
    RequestHandler.Blind handler
  pre : ∀ handler ∈ s.preRoutingHandler, RequestHandler.Blind handler
  post : ∀ handler ∈ s.postRoutingHandler, RequestHandler.Blind handler

namespace Response

theorem make_withSocket (unset : ContentType) (headers : List (Bytes × Bytes)) (fd fd' : Int) :
    make unset headers fd' = (make unset headers fd).withSocket fd' := by
  have hfold : ∀ (headers : List (Bytes × Bytes)) (res : Response),
      headers.foldl (fun res header => res.setHeader header.1 header.2) (res.withSocket fd') =
        (headers.foldl (fun res header => res.setHeader header.1 header.2) res).withSocket fd' := by
    intro headers
    induction headers with
    | nil => exact fun res => rfl
    | cons header headers ih => exact fun res => ih (res.setHeader header.1 header.2)
  have hmake := hfold headers {contentType := unset, sockfd := fd}
  exact congrArg (fun res => res.setHeader (text "Connection") (text "keep-alive")) hmake

theorem loadContent_withSocket (fs : FileSystem) (res : Response) (fd : Int) :
    (res.withSocket fd).loadContent fs = (res.loadContent fs).withSocket fd := by
  unfold loadContent withSocket
  split <;> rfl

theorem addHeaders_withSocket (chunked : Bool) (res : Response) (fd : Int) :
    (res.withSocket fd).addHeaders chunked = (res.addHeaders chunked).withSocket fd := by
  have htype : ∀ {c : Prop} [Decidable c] (r r' : Response),
      (if c then r.withSocket fd else r'.withSocket fd) = (if c then r else r').withSocket fd :=
    fun r r' => (apply_ite (fun res => withSocket res fd) _ r r').symm
  have hset : ∀ (r : Response) (k v : Bytes),
      (r.withSocket fd).setHeader k v = (r.setHeader k v).withSocket fd := fun r k v => rfl
  have hheaders : ∀ r : Response, (r.withSocket fd).headers = r.headers := fun r => rfl
  have hsse : ∀ r : Response, (r.withSocket fd).contentType = r.contentType := fun r => rfl
  have hcontent : ∀ r : Response, (r.withSocket fd).content = r.content := fun r => rfl
  simp only [addHeaders, hset, hheaders, hsse, hcontent, htype]

/-- The message says nothing of the socket. -/
theorem build_withSocket (fs : FileSystem) (chunked : Bool) (res : Response) (fd : Int) :
    ((res.withSocket fd).build fs chunked).2 = (res.build fs chunked).2 := by
  unfold build
  by_cases hempty : res.content = []
  · rw [if_pos hempty, if_pos (show (res.withSocket fd).content = [] from hempty)]
  · rw [if_neg hempty, if_neg (show ¬ (res.withSocket fd).content = [] from hempty)]
    simp only [loadContent_withSocket, addHeaders_withSocket]
    rfl

end Response

namespace Server

theorem callHandler_withSocket {handler : Option (RequestHandler W)}
    (hblind : ∀ h ∈ handler, RequestHandler.Blind h) (world : W) (req : Request) (res : Response)
    (fd : Int) :
    callHandler handler world req (res.withSocket fd) =
      ((callHandler handler world req res).1.withSocket fd,
        (callHandler handler world req res).2) := by
  cases handler with
  | none => rfl
  | some handler =>
    simp only [callHandler, hblind handler rfl world req res fd]

theorem fileResponse_withSocket (mimeType : Bytes) (st : FileStat) (content : Bytes)
    (res : Response) (fd : Int) :
    fileResponse mimeType st content (res.withSocket fd) =
      (fileResponse mimeType st content res).withSocket fd := by
  unfold fileResponse Response.withSocket
  simp only [Response.setHeader, Response.append]
  split <;> split <;> rfl

theorem handleStaticResource_withSocket (s : Server W) (fs : FileSystem) (req : Request)
    (res : Response) (fd : Int) :
    s.handleStaticResource fs req (res.withSocket fd) =
      (s.handleStaticResource fs req res).map fun r => (r.1, r.2.withSocket fd) := by
  unfold handleStaticResource
  cases s.resolvePath fs req with
  | error fault => rfl
  | ok found =>
    simp only [bind, Except.bind]
    cases fs.stat (cStr found.2) with
    | none => rfl
    | some st =>
      cases fs.contents (cStr found.2) with
      | none => rfl
      | some content =>
        cases found.1.mimeType? with
        | none => rfl
        | some mimeType =>
          simp only [fileResponse_withSocket, Except.map]

theorem handleRoute_withSocket {s : Server W} (hblind : s.Blind) (env : Env W) (req : Request)
    (res : Response) (fd : Int) :
    s.handleRoute env req (res.withSocket fd) = s.handleRoute env req res := by
  have hroute := hblind.route req
  unfold handleRoute
  have hdir : (res.withSocket fd).setStaticDirectory s.staticDirectory =
      (res.setStaticDirectory s.staticDirectory).withSocket fd := rfl
  rw [hdir]
  generalize res.setStaticDirectory s.staticDirectory = res
  cases hmatch : s.router.matchRequest req with
  | mk req' handler =>
    rw [hmatch] at hroute
    cases handler with
    | some handler =>
      have hcall := @callHandler_withSocket W (some handler)
        (fun h hh => by cases hh; exact hroute handler rfl) env.world req' res fd
      simp only [bind, Except.bind, hcall, callHandler_withSocket hblind.post,
        Response.build_withSocket]
    | none =>
      simp only [bind, Except.bind]
      split
      · rw [handleStaticResource_withSocket]
        cases s.handleStaticResource env.files req' res with
        | error fault => rfl
        | ok found =>
          simp only [Except.map, callHandler_withSocket hblind.post, Response.build_withSocket]
      · simp only [callHandler_withSocket hblind.post, Response.build_withSocket]

theorem respond_withSocket {s : Server W} (hblind : s.Blind) (env : Env W) (req : Request)
    (res : Response) (fd : Int) :
    s.respond env req (res.withSocket fd) = s.respond env req res := by
  rw [respond, respond, handleRoute_withSocket hblind]

end Server

namespace SSLServer

/-- **The TLS server does with a request what the plain one does**, whatever the unset socket
happens to be, if no handler looks at it. -/
theorem performRequest_agrees {s : Server W} (hblind : s.Blind) (env : Env W) (unsetFd : Int)
    (wsRoutes : List (WsRoute W)) (sd : Int) (buffer : Bytes) :
    performRequest s env unsetFd wsRoutes sd buffer = s.performRequest env wsRoutes sd buffer := by
  unfold performRequest
  rw [Response.make_withSocket env.unset s.defaultHeaders sd unsetFd]
  simp only [Server.callHandler_withSocket hblind.pre, Server.respond_withSocket hblind]
  rfl

theorem bareServer_blind : bareServer.Blind where
  route req handler hhandler := by
    rw [show (bareServer.router.matchRequest req).2 = none from Router.matchRequest_empty req]
      at hhandler
    cases hhandler
  pre handler hhandler := by cases hhandler
  post handler hhandler := by cases hhandler

theorem performRequest_agrees_bare :
    performRequest bareServer Env.plain (-7) [] 5 (text "GET / HTTP/1.1\r\n\r\n") =
      bareServer.performRequest Env.plain [] 5 (text "GET / HTTP/1.1\r\n\r\n") :=
  performRequest_agrees bareServer_blind Env.plain (-7) [] 5 _

end SSLServer
end HttpServer
