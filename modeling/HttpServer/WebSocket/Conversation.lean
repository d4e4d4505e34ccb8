import HttpServer.Server.Authentic
import HttpServer.WebSocket.Handshake
import HttpServer.WebSocket.Messages

/-! A conversation over a WebSocket.

A client shakes hands and sends messages. Others do what they like in between, but for a handshake
on the same path, which would take the route; what they send can also end the server. The route's
handler reads what the client said until then, in order and with the query of its handshake, and
nothing else comes from the client's connection (`conversation_heard`). -/
namespace HttpServer
open Lib Utils Server

variable {W : Type}

/-! ### Turns -/

structure Incoming (W : Type) where
  sd : Int
  buffer : Bytes
  env : Env W

/-- What is left of the routes, what was done, and how many calls came to an end. -/
structure Serving (W : Type) where
  wsRoutes : List (WsRoute W)
  actions : List Action
  handled : Nat

/-- `performRequest` called on one buffer after the other, until one call ends the server. -/
def Server.serve (s : Server W) (wsRoutes : List (WsRoute W)) : List (Incoming W) → Serving W
  | [] => {wsRoutes := wsRoutes, actions := [], handled := 0}
  | i :: rest =>
    match s.performRequest i.env wsRoutes i.sd i.buffer with
    | .error _ => {wsRoutes := wsRoutes, actions := [], handled := 0}
    | .ok (wsRoutes, actions) =>
      let later := s.serve wsRoutes rest
      {later with actions := actions ++ later.actions, handled := later.handled + 1}

/-- What comes in while a client talks on its connection. -/
inductive Turn (W : Type) where
  | message (kind : Sending) (payload : Buffer) (env : Env W)
  | other (incoming : Incoming W)

namespace Turn

def incoming (sd : Int) : Turn W → Incoming W
  | message kind payload env => {sd := sd, buffer := kind.bytes payload.val, env := env}
  | other incoming => incoming

/-- What `read` is to make of it. -/
def said : Turn W → Option (Result × Bytes)
  | message kind payload _ => some (kind.result, if kind = .text then payload.val else [])
  | other _ => none

/-- Others have connections of their own and do not shake hands on the path. -/
def Apart (sd : Int) (path : Bytes) : Turn W → Prop
  | message _ _ _ => True
  | other i => i.sd ≠ sd ∧
    ∀ req, acceptedHandshake i.env i.buffer = some req → req.normalizePath ≠ path

end Turn

/-- What a handler has read. -/
structure Hearing where
  path : Bytes
  query : Map Bytes Bytes
  result : Result
  msg : Bytes

/-- What a handler reads, called for the connection. -/
def hear (sd : Int) (d : Bytes × WebSocket) : Option Hearing :=
  if d.2.frame.sockfd = sd then
    match d.2.read [] with
    | .ok r =>
      if r.result = .fail then none
      else some {path := d.1, query := d.2.query, result := r.result, msg := r.msg}
    | .error _ => none
  else none

def heard (sd : Int) (actions : List Action) : List Hearing :=
  (dispatches actions).filterMap (hear sd)

theorem heard_append (sd : Int) (actions later : List Action) :
    heard sd (actions ++ later) = heard sd actions ++ heard sd later := by
  rw [heard, dispatches_append, List.filterMap_append]
  rfl

/-! ### What a frame and a handshake are read as -/

theorem hear_sent (kind : Sending) (message : Buffer) (sd : Int) (path : Bytes)
    (query : Map Bytes Bytes) :
    hear sd (path, WebSocket.make sd (kind.bytes message.val) query) =
      some {path := path, query := query, result := kind.result
            msg := if kind = .text then message.val else []} := by
  obtain ⟨r, hread, hresult, hmsg⟩ := WebSocket.read_sent kind message sd query []
  have hkind : kind.result ≠ .fail := by cases kind <;> decide
  unfold hear
  rw [if_pos (show (WebSocket.make sd (kind.bytes message.val) query).frame.sockfd = sd from rfl)]
  simp only [hread, hresult, hmsg]
  rw [if_neg hkind]
  rfl

/-- The first letters of a handshake make no message. -/
theorem hear_get (rest : Bytes) (sd : Int) (path : Bytes) (query : Map Bytes Bytes) :
    hear sd (path, WebSocket.make sd (ch 'G' :: ch 'E' :: rest) query) = none := by
  have hfail : ∀ r, (WebSocket.make sd (ch 'G' :: ch 'E' :: rest) query).read [] = .ok r →
      r.result = .fail := by
    intro r hread
    unfold WebSocket.read at hread
    obtain ⟨⟨f, complete⟩, hframe, hread⟩ := bind_eq_ok hread
    cases complete with
    | false => rw [← Except.ok.inj hread]
    | true =>
      have hopcode : f.opcode = ⟨7⟩ := by
        rw [WebSocket.readFrame_opcode hframe]
        exact show (⟨ch 'G' &&& 0x0F⟩ : WsOpcode) = ⟨7⟩ by decide
      simp only [hopcode] at hread
      rw [← Except.ok.inj hread]
      rfl
  unfold hear
  rw [if_pos (show (WebSocket.make sd (ch 'G' :: ch 'E' :: rest) query).frame.sockfd = sd from rfl)]
  simp only
  split
  · next r hread => rw [if_pos (hfail r hread)]
  · rfl

theorem getWebSocketFrame_message (kind : Sending) (message : Buffer) :
    ∃ opcode, getWebSocketFrame (kind.bytes message.val) = some opcode ∧
      opcode ≠ WsOpcode.close := by
  have hlength : ∃ b rest, WebSocketClient.lengthField message.val.length = b :: rest := by
    unfold WebSocketClient.lengthField
    split
    · exact ⟨_, _, rfl⟩
    · split <;> exact ⟨_, _, rfl⟩
  obtain ⟨b, rest, hlength⟩ := hlength
  have hbytes := kind.bytes_eq message
  rw [plainFrame_bytes, hlength] at hbytes
  rw [hbytes]
  cases kind with
  | text => exact ⟨⟨0x1⟩, rfl, by decide⟩
  | binary => exact ⟨⟨0x2⟩, rfl, by decide⟩
  | ping => exact ⟨⟨0x9⟩, rfl, by decide⟩

/-- The server takes the client's handshake for one. -/
theorem acceptedHandshake_client {env : Env W} (hsent : ∀ message, env.sent message = true)
    (random : {r : Bytes // r.length = 16}) (host : Line) (port : Int) (path : Token) :
    ∃ req, Request.ofRaw (handshakeText host.val port path.val random.val) = .ok req ∧
      req.normalizePath = path.val.takeWhile (· ≠ ch '?') ∧
      acceptedHandshake env (handshakeText host.val port path.val random.val) = some req := by
  obtain ⟨req, hreq, _, _, _, _, hheaders, hpath, _⟩ :=
    Request.ofRaw_lax (upgradeRequest host port path random.val)
  rw [upgradeRequest_bytes] at hreq
  have hlookup : ∀ name, req.headers.lookup name = Map.lastValue
      (LaxRequest.entries (upgradeRequest host port path random.val).headers) name := by
    intro name
    rw [hheaders, Map.lookup_ofList]
  have hanswer := handshake_answered (hlookup (text "Upgrade")) (hlookup (text "Connection"))
    (hlookup (text "Sec-WebSocket-Key")) (key_padded random.property)
  obtain ⟨rest, hget⟩ := handshakeText_get host port path random.val
  refine ⟨req, hreq, hpath, ?_⟩
  unfold acceptedHandshake
  rw [hreq, hget, getWebSocketFrame_get]
  simp only [hanswer, hsent, if_true]

/-- Where the server has routes it answers the handshake. -/
theorem performRequest_accepted (s : Server W) {env : Env W} (sd : Int) {buffer : Bytes}
    {wsRoutes : List (WsRoute W)} {req : Request} (hws : wsRoutes ≠ [])
    (haccepted : acceptedHandshake env buffer = some req) :
    ∃ actions, s.performRequest env wsRoutes sd buffer =
        .ok ((updateWsRoute req.normalizePath req.query sd wsRoutes).1, actions) ∧
      dispatches actions =
        dispatched (updateWsRoute req.normalizePath req.query sd wsRoutes).1 sd buffer := by
  obtain ⟨hframe, hreq, message, hanswer, hsent⟩ := acceptedHandshake_eq_some haccepted
  obtain ⟨closed, hpre, _⟩ := callHandler_actions s.preRoutingHandler env.world req
    (Response.make env.unset s.defaultHeaders sd)
  unfold performRequest
  simp only [hreq, bind, Except.bind, hws, ne_eq, not_false_eq_true, if_true, hframe, hanswer,
    hsent, hpre]
  refine ⟨_, rfl, ?_⟩
  rw [dispatches_append, (plain_websocket (plain_closes closed)).2, List.nil_append]
  exact (dispatchWebSocket_websocket ..).2

/-! ### The conversation -/

/-- The connection's route is that of the path, with the query of the handshake. -/
structure Tied (sd : Int) (path : Bytes) (query : Map Bytes Bytes) (wsRoutes : List (WsRoute W)) :
    Prop where
  paths : (wsRoutes.map WsRoute.path).Nodup
  route : ∃ r, getWsRouteBySocketId sd wsRoutes = some r ∧ r.path = path ∧ r.query = query

theorem Tied.ne_nil {sd : Int} {path : Bytes} {query : Map Bytes Bytes}
    {wsRoutes : List (WsRoute W)} (h : Tied sd path query wsRoutes) : wsRoutes ≠ [] := by
  obtain ⟨r, hr, _⟩ := h.route
  exact List.ne_nil_of_mem (getWsRoute_spec hr).1

/-- The handshake ties the connection to the path's route. -/
theorem tied_handshake {wsRoutes : List (WsRoute W)} {sd : Int} {path : Bytes}
    (hpaths : (wsRoutes.map WsRoute.path).Nodup) (hfree : ∀ r ∈ wsRoutes, r.sockfd ≠ sd)
    (hmem : path ∈ wsRoutes.map WsRoute.path) (query : Map Bytes Bytes) :
    Tied sd path query (updateWsRoute path query sd wsRoutes).1 := by
  rcases route_split path wsRoutes with h | ⟨before, r, after, rfl, hb, hr⟩
  · obtain ⟨r, hr, hpath⟩ := List.mem_map.mp hmem
    exact absurd hpath (h r hr)
  · have hpaths' := paths_of_fixed (updateWsRoute_fixed path query sd (before ++ r :: after))
    refine ⟨hpaths' ▸ hpaths, ?_⟩
    rw [updateWsRoute_present hb hr]
    exact ⟨_, getWsRoute_bound (fun r' hr' => hfree r' (List.mem_append_left _ hr')) query, hr, rfl⟩

/-- A message is heard, once. -/
theorem Tied.message {s : Server W} {env : Env W} {sd : Int} {path : Bytes}
    {query : Map Bytes Bytes} {wsRoutes wsRoutes' : List (WsRoute W)} {actions : List Action}
    (h : Tied sd path query wsRoutes) (kind : Sending) (payload : Buffer)
    (hstep : s.performRequest env wsRoutes sd (kind.bytes payload.val) = .ok (wsRoutes', actions)) :
    wsRoutes' = wsRoutes ∧
      heard sd actions = [{path := path, query := query, result := kind.result
                           msg := if kind = .text then payload.val else []}] := by
  obtain ⟨opcode, hframe, hclose⟩ := getWebSocketFrame_message kind payload
  rcases Server.performRequest_websocket hstep with ⟨_, _, hnone, _⟩ | ⟨hsame, _, hcalls⟩
  · rw [hframe] at hnone
    cases hnone
  · refine ⟨hsame, ?_⟩
    rcases hcalls with ⟨_, _, _, _, hdispatch⟩ | ⟨hno, _⟩
    · obtain ⟨r, hr, hpath, hquery⟩ := h.route
      rw [heard, hdispatch, Server.dispatched, hr]
      simp only [Option.map_some, Option.toList_some, List.filterMap_cons, List.filterMap_nil,
        hear_sent, hpath, hquery]
    · rcases hno with hempty | hnone | hclosed
      · exact absurd hempty h.ne_nil
      · rw [hframe] at hnone
        cases hnone
      · rw [hframe] at hclosed
        exact absurd (Option.some.inj hclosed) hclose

theorem heard_dispatched {wsRoutes : List (WsRoute W)} {sd sd' : Int} {buffer : Bytes}
    {actions : List Action} (hne : sd' ≠ sd)
    (h : dispatches actions = Server.dispatched wsRoutes sd' buffer) : heard sd actions = [] := by
  rw [heard, h]
  refine List.filterMap_eq_nil_iff.mpr fun d hd => ?_
  obtain ⟨r, _, _, rfl⟩ := mem_dispatched hd
  exact if_neg hne

/-- What others do is not heard as the client's, and leaves it its route. -/
theorem Tied.other {s : Server W} {i : Incoming W} {sd : Int} {path : Bytes}
    {query : Map Bytes Bytes} {wsRoutes wsRoutes' : List (WsRoute W)} {actions : List Action}
    (h : Tied sd path query wsRoutes) (hapart : (Turn.other i).Apart sd path)
    (hstep : s.performRequest i.env wsRoutes i.sd i.buffer = .ok (wsRoutes', actions)) :
    Tied sd path query wsRoutes' ∧ heard sd actions = [] := by
  obtain ⟨hne, hpath⟩ := hapart
  rcases Server.performRequest_websocket hstep with
    ⟨req, hreq, _, rfl, _, hdispatch⟩ | ⟨rfl, _, hcalls⟩
  · refine ⟨?_, heard_dispatched hne hdispatch⟩
    obtain ⟨r₀, hr₀, hpath₀, hquery₀⟩ := h.route
    rcases route_split req.normalizePath wsRoutes with habsent | ⟨before, r, after, rfl, hb, hr⟩
    · rw [updateWsRoute_absent habsent]
      exact h
    · have hpaths :=
        paths_of_fixed (updateWsRoute_fixed req.normalizePath req.query i.sd (before ++ r :: after))
      refine ⟨hpaths ▸ h.paths, r₀, ?_, hpath₀, hquery₀⟩
      rw [updateWsRoute_present hb hr]
      refine getWsRoute_other hne.symm (fun heq => hpath req hreq ?_) req.query hr₀
      rw [← hr, ← heq, hpath₀]
  · refine ⟨h, ?_⟩
    rcases hcalls with ⟨_, _, _, _, hdispatch⟩ | ⟨_, hdispatch⟩
    · exact heard_dispatched hne hdispatch
    · rw [heard, hdispatch]
      rfl

theorem serve_error {s : Server W} {wsRoutes : List (WsRoute W)} {i : Incoming W} {fault : Fault}
    (h : s.performRequest i.env wsRoutes i.sd i.buffer = .error fault) (rest : List (Incoming W)) :
    s.serve wsRoutes (i :: rest) = {wsRoutes := wsRoutes, actions := [], handled := 0} := by
  rw [Server.serve, h]

theorem serve_ok {s : Server W} {wsRoutes wsRoutes' : List (WsRoute W)} {i : Incoming W}
    {actions : List Action}
    (h : s.performRequest i.env wsRoutes i.sd i.buffer = .ok (wsRoutes', actions))
    (rest : List (Incoming W)) :
    (s.serve wsRoutes (i :: rest)).actions = actions ++ (s.serve wsRoutes' rest).actions ∧
      (s.serve wsRoutes (i :: rest)).handled = (s.serve wsRoutes' rest).handled + 1 := by
  rw [Server.serve, h]
  exact ⟨rfl, rfl⟩

/-- From the handshake on, whatever comes in between. -/
theorem Tied.turns {s : Server W} {sd : Int} {path : Bytes} {query : Map Bytes Bytes}
    {turns : List (Turn W)} {wsRoutes : List (WsRoute W)} (h : Tied sd path query wsRoutes)
    (hapart : ∀ t ∈ turns, t.Apart sd path) :
    heard sd (s.serve wsRoutes (turns.map (Turn.incoming sd))).actions =
      ((turns.take (s.serve wsRoutes (turns.map (Turn.incoming sd))).handled).filterMap
        Turn.said).map fun said =>
          {path := path, query := query, result := said.1, msg := said.2} := by
  induction turns generalizing wsRoutes with
  | nil => rfl
  | cons t turns ih =>
    have hrest : ∀ t ∈ turns, t.Apart sd path := fun t ht => hapart t (List.mem_cons_of_mem _ ht)
    rw [List.map_cons]
    cases hfirst : s.performRequest (t.incoming sd).env wsRoutes (t.incoming sd).sd
        (t.incoming sd).buffer with
    | error fault =>
      rw [serve_error hfirst]
      rfl
    | ok result =>
      obtain ⟨wsRoutes₁, first⟩ := result
      obtain ⟨hactions, hhandled⟩ := serve_ok hfirst (turns.map (Turn.incoming sd))
      rw [hactions, hhandled, heard_append, List.take_succ_cons]
      cases t with
      | message kind payload env =>
        obtain ⟨rfl, hheard⟩ := h.message kind payload hfirst
        rw [hheard, ih h hrest]
        rfl
      | other i =>
        obtain ⟨htied, hheard⟩ := h.other (hapart _ (List.mem_cons_self ..)) hfirst
        rw [hheard, ih htied hrest]
        rfl

/-- **What a client says is heard, in order and once**, by the handler of the path it has shaken
hands on, whatever others do in between, until a call ends the server. The first call is that of
the handshake. -/
theorem conversation_heard (s : Server W) (sd : Int) (random : {r : Bytes // r.length = 16})
    (host : Line) (port : Int) (path : Token) (env : Env W) (turns : List (Turn W))
    {wsRoutes : List (WsRoute W)} (hsent : ∀ message, env.sent message = true)
    (hpaths : (wsRoutes.map WsRoute.path).Nodup) (hfree : ∀ r ∈ wsRoutes, r.sockfd ≠ sd)
    (hmem : path.val.takeWhile (· ≠ ch '?') ∈ wsRoutes.map WsRoute.path)
    (hapart : ∀ t ∈ turns, t.Apart sd (path.val.takeWhile (· ≠ ch '?'))) :
    let serving := s.serve wsRoutes
      ({sd := sd, buffer := handshakeText host.val port path.val random.val, env := env} ::
        turns.map (Turn.incoming sd))
    ∃ req n, Request.ofRaw (handshakeText host.val port path.val random.val) = .ok req ∧
      serving.handled = n + 1 ∧
      heard sd serving.actions = ((turns.take n).filterMap Turn.said).map fun said =>
        {path := path.val.takeWhile (· ≠ ch '?'), query := req.query, result := said.1
         msg := said.2} := by
  obtain ⟨req, hreq, hpath, haccepted⟩ := acceptedHandshake_client hsent random host port path
  obtain ⟨rest, hget⟩ := handshakeText_get host port path random.val
  have hws : wsRoutes ≠ [] := by
    rintro rfl
    exact absurd hmem List.not_mem_nil
  obtain ⟨first, hfirst, hdispatch⟩ := performRequest_accepted s sd hws haccepted
  obtain ⟨hactions, hhandled⟩ := @serve_ok W s wsRoutes _
    {sd := sd, buffer := handshakeText host.val port path.val random.val, env := env} first hfirst
    (turns.map (Turn.incoming sd))
  have hnothing : heard sd first = [] := by
    rw [heard, hdispatch, hget]
    refine List.filterMap_eq_nil_iff.mpr fun d hd => ?_
    obtain ⟨r, _, _, rfl⟩ := mem_dispatched hd
    exact hear_get _ sd r.path r.query
  refine ⟨req, _, hreq, hhandled, ?_⟩
  rw [hactions, heard_append, hnothing, List.nil_append, hpath]
  exact (tied_handshake hpaths hfree hmem req.query).turns hapart

def hi : Buffer := ⟨text "hi", by decide⟩

/-- A message, a request of somebody else's, and a ping. -/
def twoSaid : List (Turn Unit) :=
  [.message .text hi Env.plain,
    .other {sd := 6, buffer := text "GET / HTTP/1.1\r\n\r\n", env := Env.plain},
    .message .ping hi Env.plain]

def twoHeard : List (Incoming Unit) :=
  {sd := 5, buffer := handshakeText (text "localhost") 8080 (text "/ws") (List.replicate 16 0)
   env := Env.plain} :: twoSaid.map (Turn.incoming 5)

theorem conversation_heard_twice : ∃ (req : Request),
    (bareServer.serve (wsRoutesOf wsRegistration) twoHeard).handled = 4 ∧
    heard 5 (bareServer.serve (wsRoutesOf wsRegistration) twoHeard).actions =
      [{path := text "/ws", query := req.query, result := .text, msg := text "hi"},
        {path := text "/ws", query := req.query, result := .ping, msg := []}] := by
  have hall : (bareServer.serve (wsRoutesOf wsRegistration) twoHeard).handled = 4 := by
    decide +kernel
  have hquiet : (acceptedHandshake Env.plain (text "GET / HTTP/1.1\r\n\r\n")).isNone = true := by
    decide +kernel
  have hapart : ∀ t ∈ twoSaid, t.Apart 5 ((text "/ws").takeWhile (· ≠ ch '?')) := by
    intro t ht
    rcases List.mem_cons.mp ht with rfl | ht
    · trivial
    · rcases List.mem_cons.mp ht with rfl | ht
      · refine ⟨by decide, fun req hreq => ?_⟩
        rw [hreq] at hquiet
        cases hquiet
      · rw [List.mem_singleton.mp ht]
        trivial
  obtain ⟨req, n, _, hhandled, hheard⟩ := conversation_heard bareServer 5 ⟨List.replicate 16 0, rfl⟩
    ⟨text "localhost", every_char (by decide)⟩ 8080 ⟨text "/ws", every_char (by decide)⟩
    Env.plain twoSaid (fun _ => rfl) (wsRoutesOf_paths wsRegistration) (by decide) (by decide)
    hapart
  obtain rfl : n = 3 := Nat.succ.inj (hhandled.symm.trans hall)
  exact ⟨req, hall, hheard⟩

end HttpServer
