import HttpServer.Client.Recv
import HttpServer.Client.RoundTrip
import HttpServer.Client.Status
import HttpServer.Server.Loop
import HttpServer.Server.Route

/-! A client's request on its way through the server and back.

The request is taken by one `recv` of the server, routed and answered; the answer is built, cut into
pieces by the network, read and parsed. The server leaves the connection open behind it. What comes
back is what the handlers left, if the pieces tell the client where the answer ends and it finds the
status where it is (`exchange_comes_back_iff`). -/
namespace HttpServer
open Lib Lib.Search Utils Client

variable {W : Type}

/-! ### What the handlers leave -/

/-- A handler that uses the functions of the response and no others: it closes nothing. -/
structure RequestHandler.Proper (handler : RequestHandler W) : Prop where
  made : ∀ world req res, Response.Made res → Response.Made (handler world req res).1
  closes : ∀ world req res, (handler world req res).2 = []

/-- Every handler that a request meets is one. -/
structure Server.Proper (s : Server W) (req : Request) : Prop where
  route : ∀ handler ∈ (s.router.matchRequest req).2, RequestHandler.Proper handler
  pre : ∀ handler ∈ s.preRoutingHandler, RequestHandler.Proper handler
  post : ∀ handler ∈ s.postRoutingHandler, RequestHandler.Proper handler

namespace Server

/-- The response that the answer to a request is built from. -/
def answered (s : Server W) (env : Env W) (sd : Int) (req : Request) : Except Fault Response := do
  let res := Response.make env.unset s.defaultHeaders sd
  let res := (callHandler s.preRoutingHandler env.world req res).1
  let res := res.setStaticDirectory s.staticDirectory
  let (req, handler) := s.router.matchRequest req
  let (req, res) ←
    match handler with
    | some handler => .ok (req, (callHandler (some handler) env.world req res).1)
    | none =>
      if req.method = text "GET" ∨ req.method = text "HEAD" then
        handleStaticResource s env.files req res
      else .ok (req, res)
  .ok (callHandler s.postRoutingHandler env.world req res).1

theorem callHandler_made {handler : Option (RequestHandler W)}
    (h : ∀ h ∈ handler, RequestHandler.Proper h) (world : W) (req : Request) {res : Response}
    (hmade : Response.Made res) : Response.Made (callHandler handler world req res).1 := by
  cases handler with
  | none => exact hmade
  | some handler => exact (h handler rfl).made world req res hmade

theorem fileResponse_made (mimeType : Bytes) (st : FileStat) (content : Bytes) {res : Response}
    (hmade : Response.Made res) : Response.Made (fileResponse mimeType st content res) := by
  have hset : ∀ {p : Prop} [Decidable p] {res : Response} (key val : Bytes), Response.Made res →
      Response.Made (if p then res.setHeader key val else res) := by
    intro p _ res key val h
    split
    · exact .setHeader key val h
    · exact h
  exact .append _ (hset _ _ (hset _ _ (.setHeader _ _ (.setHeader _ _ (.setHeader _ _ hmade)))))

theorem handleStaticResource_made {s : Server W} {fs : FileSystem} {req req' : Request}
    {res res' : Response} (hmade : Response.Made res)
    (h : s.handleStaticResource fs req res = .ok (req', res')) : Response.Made res' := by
  obtain ⟨_, _, hcase⟩ := handleStaticResource_cases h
  rcases hcase with ⟨st, file, mimeType, _, _, _, rfl⟩ | ⟨_, rfl⟩ | ⟨_, rfl⟩
  · exact fileResponse_made mimeType st file hmade
  · exact .setContent _ _ _ hmade
  · exact hmade

theorem answered_made {s : Server W} {req : Request} (hproper : s.Proper req) {env : Env W}
    {sd : Int} {res : Response} (h : s.answered env sd req = .ok res) : Response.Made res := by
  have hstart := callHandler_made hproper.pre env.world req
    (.make env.unset s.defaultHeaders sd)
  have hroute := hproper.route
  unfold answered at h
  simp only at h
  generalize (callHandler s.preRoutingHandler env.world req
    (Response.make env.unset s.defaultHeaders sd)).1 = received at hstart h
  have hstart : Response.Made (received.setStaticDirectory s.staticDirectory) :=
    .setStaticDirectory _ hstart
  split at h
  · next handler hhandler =>
    rw [← Except.ok.inj h]
    exact callHandler_made hproper.post _ _ ((hroute handler hhandler).made _ _ _ hstart)
  · split at h
    · obtain ⟨⟨req', res'⟩, hstatic, h⟩ := bind_eq_ok h
      rw [← Except.ok.inj h]
      exact callHandler_made hproper.post _ _ (handleStaticResource_made hstart hstatic)
    · rw [← Except.ok.inj h]
      exact callHandler_made hproper.post _ _ hstart

end Server

/-! ### What the server sends -/

/-- What has gone out on a connection, and whether it is open. -/
structure Outgoing where
  bytes : Bytes := []
  isOpen : Bool := true

/-- What an action does to the connection `sd`. One that is closed takes nothing. -/
def Outgoing.act (sd : Int) (out : Outgoing) : Action → Outgoing
  | .send message true => if out.isOpen then {out with bytes := out.bytes ++ message} else out
  | .close fd => if fd = sd then {out with isOpen := false} else out
  | .handlerClose fd => if fd = sd then {out with isOpen := false} else out
  | _ => out

def Outgoing.after (sd : Int) (out : Outgoing) (actions : List Action) : Outgoing :=
  actions.foldl (act sd) out

theorem Outgoing.after_append (sd : Int) (out : Outgoing) (actions actions' : List Action) :
    out.after sd (actions ++ actions') = (out.after sd actions).after sd actions' :=
  List.foldl_append

/-- The server on what its `recv` takes from one client, call by call. -/
def Server.performAll (s : Server W) (env : Env W) (sd : Int) :
    List (WsRoute W) → Outgoing → List HttpServer.Chunk → Outgoing
  | _, out, [] => out
  | wsRoutes, out, bytes :: rest =>
    if out.isOpen ∧ 0 < bytes.val.length then
      match s.performRequest env wsRoutes sd bytes.val with
      -- the process ends, and its connections with it
      | .error _ => {out with isOpen := false}
      | .ok (wsRoutes, actions) => s.performAll env sd wsRoutes (out.after sd actions) rest
    else {out with isOpen := false}

theorem callHandler_closes {handler : Option (RequestHandler W)}
    (h : ∀ h ∈ handler, RequestHandler.Proper h) (world : W) (req : Request) (res : Response) :
    (Server.callHandler handler world req res).2 = [] := by
  cases handler with
  | none => rfl
  | some handler =>
    show (handler world req res).2.map Action.handlerClose = []
    rw [(h handler rfl).closes, List.map_nil]

theorem handleRoute_answered {s : Server W} {req : Request} (hproper : s.Proper req) {env : Env W}
    {sd : Int} {res : Response} (h : s.answered env sd req = .ok res) :
    ∃ routed, (∀ out : Outgoing, out.after sd routed = out) ∧
      s.handleRoute env req (Server.callHandler s.preRoutingHandler env.world req
        (Response.make env.unset s.defaultHeaders sd)).1 =
        .ok (routed, (res.build env.files false).2) := by
  have hroute := hproper.route
  unfold Server.answered at h
  unfold Server.handleRoute
  simp only at h ⊢
  generalize (Server.callHandler s.preRoutingHandler env.world req
    (Response.make env.unset s.defaultHeaders sd)).1.setStaticDirectory s.staticDirectory =
      received at h ⊢
  cases hmatch : s.router.matchRequest req with
  | mk req' handler =>
    rw [hmatch] at h hroute
    cases handler with
    | some handler =>
      rw [← Except.ok.inj h]
      refine ⟨_, fun out => ?_, rfl⟩
      have hhandler : (Server.callHandler (some handler) env.world req' received).2 = [] :=
        callHandler_closes hroute env.world req' received
      rw [callHandler_closes hproper.post, hhandler]
      rfl
    | none =>
      simp only at h ⊢
      split at h
      · next hread =>
        obtain ⟨⟨req₁, res₁⟩, hstatic, h⟩ := bind_eq_ok h
        rw [if_pos hread, ← Except.ok.inj h, hstatic]
        refine ⟨_, fun out => ?_, rfl⟩
        rw [callHandler_closes hproper.post]
        rfl
      · next hread =>
        rw [if_neg hread, ← Except.ok.inj h]
        refine ⟨_, fun out => ?_, rfl⟩
        rw [callHandler_closes hproper.post]
        rfl

/-- A request that is neither a frame nor a handshake: what goes out is the message that the
response makes, if it makes one, and the connection is left open. -/
theorem performRequest_answered {s : Server W} {req : Request} (hproper : s.Proper req)
    {env : Env W} (wsRoutes : List (WsRoute W)) {sd : Int} {buffer : Bytes} {res : Response}
    (hreq : Request.ofRaw buffer = .ok req) (hframe : getWebSocketFrame buffer = none)
    (hhandshake : processWebsocketHandshake req = .ok none)
    (hres : s.answered env sd req = .ok res) (hsent : ∀ message, env.sent message = true) :
    ∃ actions, s.performRequest env wsRoutes sd buffer = .ok (wsRoutes, actions) ∧
      Outgoing.after sd {} actions = {bytes := (res.build env.files false).2.getD []} := by
  obtain ⟨routed, hrouted, hroute⟩ := handleRoute_answered hproper hres
  have hpre := callHandler_closes hproper.pre env.world req
    (Response.make env.unset s.defaultHeaders sd)
  obtain ⟨answered, hrespond, hbytes⟩ : ∃ answered,
      s.respond env req (Server.callHandler s.preRoutingHandler env.world req
        (Response.make env.unset s.defaultHeaders sd)).1 = .ok answered ∧
      Outgoing.after sd {} answered = {bytes := (res.build env.files false).2.getD []} := by
    rw [Server.respond, hroute]
    cases (res.build env.files false).2 with
    | none => exact ⟨routed, rfl, hrouted {}⟩
    | some message =>
      refine ⟨_, rfl, ?_⟩
      rw [Outgoing.after_append, hrouted, hsent message]
      rfl
  refine ⟨answered, ?_, hbytes⟩
  unfold Server.performRequest
  simp only [hreq, bind, Except.bind, hframe, hhandshake, hpre, hrespond]
  split <;> rfl

/-! ### What the client sends and reads -/

/-- The four calls of the client. -/
inductive Verb where
  | get | post | put | del
  deriving DecidableEq, Repr

def Verb.name : Verb → Bytes
  | get => text "GET"
  | post => text "POST"
  | put => text "PUT"
  | del => text "DELETE"

theorem Verb.name_word (verb : Verb) :
    ∀ c ∈ verb.name, c ≠ ch ' ' ∧ c ≠ ch '\r' ∧ c ≠ ch '\n' := by
  cases verb <;> exact every_char (by decide)

def Verb.token (verb : Verb) : Token := ⟨verb.name, verb.name_word⟩

/-- A request starts with two letters that make no frame. -/
theorem getWebSocketFrame_sent (host : Bytes) (keepAlive : Bool) (verb : Verb) (path : Bytes) :
    getWebSocketFrame (sendRequestText host keepAlive verb.token.val path) = none := by
  have hstart : ∃ c d rest, verb.token.val = c :: d :: rest ∧
      ∀ rest, getWebSocketFrame (c :: d :: rest) = none := by
    cases verb with
    | get => exact ⟨ch 'G', ch 'E', [ch 'T'], text_ofList _, fun _ => rfl⟩
    | post => exact ⟨ch 'P', ch 'O', [ch 'S', ch 'T'], text_ofList _, fun _ => rfl⟩
    | put => exact ⟨ch 'P', ch 'U', [ch 'T'], text_ofList _, fun _ => rfl⟩
    | del =>
      exact ⟨ch 'D', ch 'E', [ch 'L', ch 'E', ch 'T', ch 'E'], text_ofList _, fun _ => rfl⟩
  obtain ⟨c, d, rest, hbytes, hnone⟩ := hstart
  unfold sendRequestText
  rw [hbytes]
  exact hnone _

/-- A request of the client asks for no upgrade. -/
theorem processWebsocketHandshake_sent {host : FieldValue} {keepAlive : Bool} {verb : Verb}
    {path : Token} {req : Request}
    (hreq : Request.ofRaw (sendRequestText host.val keepAlive verb.token.val path.val) = .ok req) :
    processWebsocketHandshake req = .ok none := by
  obtain ⟨r, hr, _, _, _, _, hheaders, _⟩ :=
    Request.ofRaw_wire (Request.sentRequest host keepAlive verb.token path)
  rw [Request.sentRequest_bytes, hreq] at hr
  have hnone : req.headers.lookup (text "Upgrade") = none := by
    rw [Except.ok.inj hr, hheaders, Map.lookup_ofList]
    cases keepAlive <;> rfl
  unfold processWebsocketHandshake
  rw [hnone]

/-- A response that a message carries whole. -/
structure Response.Carried (res : Response) : Prop where
  made : Made res
  content : res.content ≠ []
  /-- The content is no name of a page. -/
  page : ¬ (res.contentType = .html ∧ text ".html" <:+ res.content)
  portable : ∀ e ∈ res.headers, Portable e
  plain : res.headers.lookup (text "Transfer-Encoding") = none
  listed : res.status.Listed

namespace Client

/-- A carried response is parsed to what it was, but for the status, which is looked for. -/
theorem parseResponse_carried (fs : FileSystem) (unset : ContentType) (unsetFd : Int)
    {res : Response} (h : res.Carried) :
    ∃ (raw : Bytes) (parsed : Response), (res.build fs false).2 = some raw ∧
      parsed.headers = (res.build fs false).1.headers ∧ parsed.content = res.content ∧
      parseResponse unset unsetFd raw =
        (parseStatus raw).map fun status => {parsed with status := status} := by
  have hload : res.loadContent fs = res := if_neg h.page
  have hbuild := Response.build_eq h.content fs false
  obtain ⟨first, lines, hline, hlines, hmessage⟩ :=
    Response.build_message fs h.content fun e he => (h.portable e he).toTidy
  rw [hload] at hbuild hlines hmessage
  have hbuilt : (res.build fs false).1 = res.addHeaders false := congrArg Prod.fst hbuild
  have hheaded : Response.Headed (res.addHeaders false).headers :=
    hbuilt ▸ h.made.headed.build fs false
  -- the client starts with a `Connection` header, which is among those of the message
  have hcopy : ((Response.make unset [] unsetFd).setHeaders (LaxRequest.entries lines)).headers =
      (res.addHeaders false).headers := by
    rw [Response.setHeaders_eq, hlines]
    refine SortedMap.setAll_eq Response.before_strict (List.pairwise_singleton ..) hheaded.sorted
      fun k hk => ?_
    show List.lookup k [(text "Connection", text "keep-alive")] = none
    have hother : ¬ k = text "Connection" := fun heq => hheaded.connection (heq ▸ hk)
    simp [List.lookup_cons, beq_false_of_ne hother]
  have hportable : ∀ e ∈ (res.addHeaders false).headers, Response.Portable e :=
    fun e he => (Response.portable_addHeaders he).elim (h.portable e) id
  have hparse := parseResponse_message unset unsetFd hline res.content (hlines ▸ hportable)
    (hcopy ▸ addHeaders_plain h.plain) rfl
  refine ⟨_, ((Response.make unset [] unsetFd).setHeaders (LaxRequest.entries lines)).append
    res.content, hmessage, hbuilt ▸ hcopy, ?_, ?_⟩
  · rw [Response.setHeaders_eq]
    rfl
  · rw [hparse]
    cases parseStatus _ <;> rfl

/-- The status of a message of the server is found, exactly where nothing that looks like a newer
status line says otherwise. -/
theorem parseStatus_message {fs : FileSystem} {res : Response} {message : Bytes}
    (h : res.status.Listed) (hbuild : (res.build fs false).2 = some message) :
    parseStatus message = .ok res.status ↔
      ∀ i, findFrom (text "HTTP/1.1 ") message 0 = some i →
        Says (message.drop (i + 9)) res.status := by
  obtain ⟨rest, hrest⟩ := build_statusText h hbuild
  rw [hrest, parseStatus_line h rest]
  simp only [Bool.false_eq_true, false_or]

/-! ### A part of a message -/

theorem addHeaderLine_content {res res' : Response} {line : Bytes}
    (h : addHeaderLine res line = .ok res') : res'.content = res.content := by
  unfold addHeaderLine at h
  split at h
  · rw [← Except.ok.inj h]
  · obtain ⟨key, _, h⟩ := bind_eq_ok h
    obtain ⟨value, _, h⟩ := bind_eq_ok h
    rw [← Except.ok.inj h]
    rfl

theorem foldlM_content {lines : List Bytes} {res res' : Response}
    (h : lines.foldlM addHeaderLine res = .ok res') : res'.content = res.content := by
  induction lines generalizing res with
  | nil => rw [← Except.ok.inj h]
  | cons line lines ih =>
    rw [List.foldlM_cons] at h
    obtain ⟨next, hline, h⟩ := bind_eq_ok h
    rw [ih h, addHeaderLine_content hline]

/-- The content is what stands behind the first empty line, if the headers do not say that it is
coded. -/
theorem parseResponse_content {unset : ContentType} {unsetFd : Int} {raw : Bytes}
    {parsed : Response} (h : parseResponse unset unsetFd raw = .ok parsed)
    (hplain : parsed.headers.lookup (text "Transfer-Encoding") = none) :
    ∃ k, findFrom (crlf ++ crlf) raw 0 = some k ∧ parsed.content = raw.drop (k + 4) := by
  unfold parseResponse at h
  split at h
  · cases h
  · next k hfind =>
    obtain ⟨status, _, h⟩ := bind_eq_ok h
    obtain ⟨section', _, h⟩ := bind_eq_ok h
    obtain ⟨response, hlines, h⟩ := bind_eq_ok h
    obtain ⟨body, hbody, h⟩ := bind_eq_ok h
    have hroom : k + 4 ≤ raw.length := findFrom_fits hfind
    have hbody : body = raw.drop (k + 4) := by
      rw [substrFrom_of_le hroom] at hbody
      exact (Except.ok.inj hbody).symm
    refine ⟨k, hfind, ?_⟩
    by_cases hcoded : response.headers.lookup (text "Transfer-Encoding") = some (text "chunked")
    · rw [if_pos hcoded] at h
      obtain ⟨content, _, h⟩ := bind_eq_ok h
      rw [← Except.ok.inj h] at hplain
      have hcoded : none = some (text "chunked") := hplain.symm.trans hcoded
      cases hcoded
    · rw [if_neg hcoded] at h
      obtain ⟨content, hcontent, h⟩ := bind_eq_ok h
      rw [← Except.ok.inj h, ← hbody, Except.ok.inj hcontent]
      show response.content ++ content = content
      rw [foldlM_content hlines]
      rfl

/-- A message of the server is not mistaken for a shorter one: what is read of it has its content
only if it is all of it. -/
theorem parseResponse_part {fs : FileSystem} {unset : ContentType} {unsetFd : Int} {res : Response}
    (h : res.Carried) {message read : Bytes} (hbuild : (res.build fs false).2 = some message)
    (hread : read <+: message) {parsed : Response}
    (hparsed : parseResponse unset unsetFd read = .ok parsed)
    (hheaders : parsed.headers = (res.build fs false).1.headers)
    (hcontent : parsed.content = res.content) : read = message := by
  have hload : res.loadContent fs = res := if_neg h.page
  obtain ⟨first, lines, hline, _, hmessage⟩ :=
    Response.build_message fs h.content fun e he => (h.portable e he).toTidy
  have hplain : parsed.headers.lookup (text "Transfer-Encoding") = none := by
    rw [hheaders, congrArg Prod.fst (Response.build_eq h.content fs false), hload]
    exact addHeaders_plain h.plain
  obtain ⟨k, hfind, hbehind⟩ := parseResponse_content hparsed hplain
  obtain ⟨k', hk', hlen⟩ := Request.headerEnd_wire first
    (fun hc => (hline.bytes _ hc).2.1 rfl) lines (res.loadContent fs).content
  have hwhole := Option.some.inj (hbuild.symm.trans hmessage)
  have hroom : k + 4 ≤ read.length := findFrom_fits hfind
  -- the empty line is where it is in the whole message
  have hsame : k = k' := by
    obtain ⟨more, hmore⟩ := hread
    have hfound : findFrom (crlf ++ crlf) message 0 = some k := findFrom_congr hfind (Nat.le_refl _)
      (by rw [← hmore]; exact (List.take_append_of_le_length hroom).symm)
      (by rw [← hmore, List.length_append]; omega)
    rw [findFrom_zero, hwhole, hk'] at hfound
    exact (Option.some.inj hfound).symm
  have hsize := congrArg List.length (hbehind.symm.trans hcontent)
  have htotal := congrArg List.length hwhole
  have htwo : crlf.length = 2 := rfl
  rw [hload] at htotal
  simp only [List.length_append, List.length_drop] at htotal hlen hsize
  exact hread.eq_of_length_le (by omega)

/-! ### What the network does -/

/-- `cut` is a way in which `recv` hands over what is sent, in these pieces. -/
def HandsOver (cut : Bytes → List RecvResult) (pieces : Bytes → List Piece) : Prop :=
  ∀ message, Delivers (cut message) (pieces message) ∧ whole (pieces message) = message

/-- A stream that is there before it is read, a buffer of some size at a time. -/
def buffers (size : Nat) (hsize : 0 < size) (message : Bytes) :
    List {b : Bytes // b ≠ [] ∧ b.length ≤ size} :=
  if h : message = [] then []
  else
    ⟨message.take size, by simp [h, Nat.ne_of_gt hsize], List.length_take_le ..⟩ ::
      buffers size hsize (message.drop size)
termination_by message.length
decreasing_by
  have hpos := List.length_pos_of_ne_nil h
  rw [List.length_drop]
  omega

theorem handsOver_buffers :
    HandsOver (fun message => (buffers READ_BUFFER_SIZE (by decide) message).map .bytes)
      (buffers READ_BUFFER_SIZE (by decide)) := by
  have hdelivers : ∀ pieces : List Piece, Delivers (pieces.map .bytes) pieces := by
    intro pieces
    induction pieces with
    | nil => exact .closed
    | cons p pieces ih => exact .piece p ih
  refine fun message => ⟨hdelivers _, ?_⟩
  induction message using buffers.induct READ_BUFFER_SIZE (by decide) with
  | case1 =>
    rw [buffers, dif_pos rfl]
    rfl
  | case2 message hne ih =>
    rw [buffers, dif_neg hne, whole, List.flatMap_cons, ← whole, ih, List.take_append_drop]

end Client

/-- The network that leads to a server. `taken` is how the server's `recv` takes what the client
sends, and `cut` how the client's takes what the server sends. -/
def serverNetwork (s : Server W) (env : Env W) (wsRoutes : List (WsRoute W)) (sd : Int)
    (taken : Bytes → List HttpServer.Chunk) (cut : Bytes → List RecvResult) : Network where
  refused := none
  answer := fun written =>
    let out := s.performAll env sd wsRoutes {} (taken written)
    readResponse (if out.isOpen then leftOpen (cut out.bytes) else cut out.bytes)

/-- One `recv` of the server takes what the client sends. -/
def TakenWhole (taken : Bytes → List HttpServer.Chunk) (written : Bytes) : Prop :=
  (taken written).map Subtype.val = [written]

theorem performAll_whole {s : Server W} (env : Env W) (wsRoutes : List (WsRoute W)) (sd : Int)
    {taken : Bytes → List HttpServer.Chunk} {written : Bytes} (htaken : TakenWhole taken written)
    (hne : written ≠ []) {wsRoutes' : List (WsRoute W)} {actions : List Action}
    (hperform : s.performRequest env wsRoutes sd written = .ok (wsRoutes', actions)) :
    s.performAll env sd wsRoutes {} (taken written) = Outgoing.after sd {} actions := by
  obtain ⟨bytes, hlist, hbytes⟩ := List.map_eq_singleton_iff.mp htaken
  rw [hlist, Server.performAll, hbytes, if_pos ⟨rfl, List.length_pos_of_ne_nil hne⟩]
  simp only [hperform]
  rfl

/-- What the client has of the answer to a request that the server takes whole. -/
theorem serverNetwork_answer {s : Server W} {req : Request} (hproper : s.Proper req) {env : Env W}
    (wsRoutes : List (WsRoute W)) {sd : Int} {host : FieldValue} {keepAlive : Bool} (verb : Verb)
    {path : Token}
    (hreq : Request.ofRaw (sendRequestText host.val keepAlive verb.token.val path.val) = .ok req)
    {res : Response} (hres : s.answered env sd req = .ok res)
    (hsent : ∀ message, env.sent message = true) {taken : Bytes → List HttpServer.Chunk}
    (htaken : TakenWhole taken (sendRequestText host.val keepAlive verb.token.val path.val))
    (cut : Bytes → List RecvResult) :
    (serverNetwork s env wsRoutes sd taken cut).answer
      (sendRequestText host.val keepAlive verb.token.val path.val) =
        readResponse (leftOpen (cut ((res.build env.files false).2.getD []))) := by
  obtain ⟨actions, hperform, hout⟩ := performRequest_answered hproper wsRoutes hreq
    (getWebSocketFrame_sent ..) (processWebsocketHandshake_sent hreq) hres hsent
  have hne : sendRequestText host.val keepAlive verb.token.val path.val ≠ [] := by
    intro hnil
    have hlen := congrArg List.length hnil
    simp [sendRequestText, text] at hlen
  simp only [serverNetwork, performAll_whole env wsRoutes sd htaken hne hperform, hout, if_true]

/-- A call that is answered with a carried response reads it as it was, if the pieces say where it
ends and it finds the status. -/
theorem exchange_carried_iff {s : Server W} {req : Request} (hproper : s.Proper req)
    (env : Env W) (wsRoutes : List (WsRoute W)) (sd : Int) (host : FieldValue) (port : Int)
    (keepAlive : Bool) (verb : Verb) (path : Token) (unset : ContentType) (unsetFd : Int)
    (hreq : Request.ofRaw (sendRequestText host.val keepAlive verb.token.val path.val) = .ok req)
    {res : Response} (hres : s.answered env sd req = .ok res) (hcarried : res.Carried)
    (hsent : ∀ message, env.sent message = true) {taken : Bytes → List HttpServer.Chunk}
    (htaken : TakenWhole taken (sendRequestText host.val keepAlive verb.token.val path.val))
    {cut : Bytes → List RecvResult} {pieces : Bytes → List Piece} (hcut : HandsOver cut pieces) :
    (∃ parsed, (BaseClient.exchange {host := host.val, port := port, keepAlive := keepAlive}
        (serverNetwork s env wsRoutes sd taken cut) unset unsetFd verb.token.val path.val).result =
          .ok parsed ∧
        parsed.status = res.status ∧ parsed.headers = (res.build env.files false).1.headers ∧
        parsed.content = res.content) ↔
      ∀ message, (res.build env.files false).2 = some message → EndsShort (pieces message) ∧
        ∀ i, findFrom (text "HTTP/1.1 ") message 0 = some i →
          Says (message.drop (i + 9)) res.status := by
  obtain ⟨message, parsed, hbuild, hheaders, hcontents, hparse⟩ :=
    parseResponse_carried env.files unset unsetFd hcarried
  obtain ⟨hdelivers, hwhole⟩ := hcut message
  obtain ⟨hends, hpart⟩ := readResponse_leftOpen_iff hdelivers
  rw [hwhole] at hends hpart
  have hanswer := serverNetwork_answer hproper wsRoutes verb hreq hres hsent htaken cut
  rw [hbuild, Option.getD_some] at hanswer
  have hresult : (BaseClient.exchange {host := host.val, port := port, keepAlive := keepAlive}
      (serverNetwork s env wsRoutes sd taken cut) unset unsetFd verb.token.val path.val).result =
      ((readResponse (leftOpen (cut message))).mapError ClientError.unexpected).bind
        (parseResponse unset unsetFd) := by
    rw [← hanswer]
    rfl
  have hright : (∀ message, (res.build env.files false).2 = some message →
      EndsShort (pieces message) ∧ ∀ i, findFrom (text "HTTP/1.1 ") message 0 = some i →
        Says (message.drop (i + 9)) res.status) ↔
      readResponse (leftOpen (cut message)) = .ok message ∧
        parseStatus message = .ok res.status := by
    rw [hends, parseStatus_message hcarried.listed hbuild, hbuild]
    exact ⟨fun h => h message rfl, fun h _ heq => Option.some.inj heq ▸ h⟩
  rw [hright, hresult]
  constructor
  · rintro ⟨back, hback, hstatus, hbackHeaders, hbackContent⟩
    have hread : readResponse (leftOpen (cut message)) = .ok message := by
      rcases hpart with herror | ⟨read, hread, hprefix⟩
      · rw [herror] at hback
        cases hback
      · rw [hread] at hback
        rw [hread, parseResponse_part hcarried hbuild hprefix hback hbackHeaders hbackContent]
    refine ⟨hread, ?_⟩
    rw [hread] at hback
    have hback : (parseStatus message).map (fun status => {parsed with status := status}) =
        .ok back := hparse.symm.trans hback
    cases hstated : parseStatus message with
    | error e =>
      rw [hstated] at hback
      cases hback
    | ok status =>
      rw [hstated] at hback
      rw [← hstatus, ← Except.ok.inj hback]
  · rintro ⟨hread, hstated⟩
    rw [hread]
    refine ⟨{parsed with status := res.status}, ?_, rfl, hheaders, hcontents⟩
    show parseResponse unset unsetFd message = _
    rw [hparse, hstated]
    rfl

theorem bareServer_proper (req : Request) : bareServer.Proper req where
  route handler hhandler := by
    rw [show (bareServer.router.matchRequest req).2 = none from Router.matchRequest_empty req]
      at hhandler
    cases hhandler
  pre handler hhandler := by cases hhandler
  post handler hhandler := by cases hhandler

theorem eq_ok_of_toOption {α ε : Type} {r : Except ε α} {a : α} (h : r.toOption = some a) :
    r = .ok a := by
  cases r with
  | error e => cases h
  | ok b => rw [Option.some.inj h]

/-- What a page that is missing is answered with. -/
theorem answered_missing :
    ((Request.ofRaw (sendRequestText (text "localhost") true (text "GET")
      (text "/x"))).toOption.bind fun req =>
        (bareServer.answered Env.plain 5 req).toOption.map fun res =>
          decide (res.content = text "Not Found" ∧ res.contentType = .plainText ∧
            res.status = .notFound ∧ res.headers = [(text "Connection", text "keep-alive")])) =
      some true := by
  decide +kernel

/-- A network on which all is there before it is read. -/
def promptNetwork (s : Server W) (env : Env W) (wsRoutes : List (WsRoute W)) (sd : Int) : Network :=
  serverNetwork s env wsRoutes sd
    (fun written => (buffers bufferSize (by decide) written).map fun p =>
      ⟨p.val, p.property.2⟩)
    fun message => (buffers READ_BUFFER_SIZE (by decide) message).map .bytes

theorem taken_buffers {written : Bytes} (hne : written ≠ []) (hfits : written.length ≤ bufferSize) :
    TakenWhole (fun written => (buffers bufferSize (by decide) written).map fun p =>
      ⟨p.val, p.property.2⟩) written := by
  have hrest : written.drop bufferSize = [] := List.drop_eq_nil_of_le hfits
  simp only [TakenWhole, List.map_map]
  rw [buffers, dif_neg hne, hrest, buffers, dif_pos rfl, List.map_singleton]
  exact congrArg (fun b => [b]) (List.take_of_length_le hfits)

end HttpServer
