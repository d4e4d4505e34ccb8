import HttpServer.Server.Authentic
import HttpServer.WebSocket.Bounds

/-! Which messages a handler reads.

`readFrame` looks at nothing but the bytes it is given. What a handler reads out of them
is the peer's next frame as long as they start where a frame of the connection does. The
bytes of a handshake do not, and neither does what is left of a frame that a `recv` has
cut: there the handler reads nothing only if the bytes happen not to look like a frame
(`ReadsMessage`). -/
namespace HttpServer
open Lib Lib.Tenure Lib.Runs WebSocket

variable {W : Type}

/-! ### The property -/

/-- What the connection has sent behind its latest handshake; nothing where it has made
none. -/
def sentSince (conn : Nat) (log : List Event) : Option Sent :=
  sentBehind (fun actions => decide (upgrades actions ≠ [])) conn log

/-- The connection has made its handshake, and these bytes start with the frame behind
those it has sent since. -/
def StartsNextFrame (older : List Event) (conn : Nat) (bytes : Bytes) : Prop :=
  ∃ sent n, sentSince conn older = some sent ∧ sent.pending = 0 ∧ frameSize bytes = some n ∧
    n ≤ bytes.length ∧ frames sent.stream ++ [bytes.take n] <+: frames (sent.stream ++ bytes)

/-- A handler that is called because of a handshake can read no message, and one that is
called otherwise only the peer's next frame. -/
def Genuine (older : List Event) : Event → Prop
  | .received _ conn bytes actions =>
    ∀ d ∈ dispatches actions, ∀ ws : WebSocket, ws.byteData = d.2.byteData → ∀ msg,
      if upgrades actions = [] then
        ∀ reading, ws.read msg = .ok reading → reading.result ≠ .fail →
          d.2.byteData = bytes ∧ StartsNextFrame older conn bytes
      else ∃ reading, ws.read msg = .ok reading ∧ reading.result = .fail
  | _ => True

/-- Bytes that look like a message, on a descriptor that leads to a handler. -/
def ReachesHandler (s : State W) (fd : Int) (bytes : Bytes) : Prop :=
  (∃ r ∈ s.wsRoutes, r.sockfd = fd) ∧ getWebSocketFrame bytes ≠ none ∧ ReadsMessage bytes

/-- What a good run must not do when it handles these bytes of a connection. -/
structure Recognisable (s : State W) (env : Env W) (fd : Int) (conn : Nat) (bytes : Bytes) :
    Prop where
  /-- An accepted handshake for which a handler is called does not look like a frame. -/
  handshake : ∀ req, Server.acceptedHandshake env bytes = some req →
    (∃ r ∈ s.wsRoutes, r.path = req.normalizePath ∨ r.sockfd = fd) →
    ¬ ReadsMessage bytes ∧ ¬ Wraps bytes
  /-- What looks like a frame and reaches a handler comes behind whole frames. -/
  boundary : ReachesHandler s fd bytes → ∀ sent, sentSince conn s.log = some sent →
    sent.pending = 0 ∧ (frames sent.stream).flatten = sent.stream

/-- The rule of the good runs: also, the route that what looks like a frame reaches was not
left bound by an earlier connection. -/
def NoLookalike (srv : Server W) (s : State W) (a : Answer W) : Prop :=
  ∀ fd conn bytes, receiving srv s a = some (fd, conn, bytes) →
    Recognisable s a.env fd conn bytes ∧ (ReachesHandler s fd bytes → sentSince conn s.log ≠ none)

/-! ### Steps -/

/-- A frame behind whole frames is the next one. -/
theorem startsNextFrame_of_whole {older : List Event} {conn : Nat} {bytes : Bytes} {sent : Sent}
    (hsent : sentSince conn older = some sent) (hpending : sent.pending = 0)
    (hwhole : (frames sent.stream).flatten = sent.stream) (hmessage : ReadsMessage bytes) :
    StartsNextFrame older conn bytes := by
  obtain ⟨_, n, hsize, hle⟩ := hmessage
  refine ⟨sent, n, hsent, hpending, hsize, hle, ?_⟩
  rw [frames_append_whole hwhole, frames_cons hsize hle]
  exact ⟨frames (bytes.drop n), by rw [List.append_assoc, List.singleton_append]⟩

/-- The handlers that are called with a buffer. -/
theorem genuine_performed {srv : Server W} {s : State W} {env : Env W}
    (hpaths : (s.wsRoutes.map WsRoute.path).Nodup) {fd : Int} {conn : Nat} {bytes : Bytes}
    (hshort : bytes.length < 9223372036854775808) (hr : Recognisable s env fd conn bytes)
    (hown : ReachesHandler s fd bytes → sentSince conn s.log ≠ none)
    {wsRoutes : List (WsRoute W)} {actions : List Action}
    (hperf : srv.performRequest env s.wsRoutes fd bytes = .ok (wsRoutes, actions)) :
    Genuine s.log (.received fd conn bytes actions) := by
  intro d hd ws hdata msg
  rcases Server.performRequest_websocket hperf with
    ⟨req, hreq, _, rfl, hup, hdisp⟩ | ⟨rfl, hup, ⟨opcode, hframe, _, _, hdisp⟩ | ⟨_, hdisp⟩⟩
  · have hsome : upgrades actions ≠ [] := by
      rw [hup]
      exact List.cons_ne_nil _ _
    rw [if_neg hsome]
    rw [hdisp] at hd
    obtain ⟨r, hmem, hsock, rfl⟩ := mem_dispatched hd
    have hconcerned : ∃ r ∈ s.wsRoutes, r.path = req.normalizePath ∨ r.sockfd = fd := by
      rcases mem_updateWsRoute hpaths hmem with ⟨hpath, _⟩ | ⟨_, hold⟩
      · have hsame := paths_of_fixed (updateWsRoute_fixed req.normalizePath req.query fd s.wsRoutes)
        have hin : r.path ∈ s.wsRoutes.map WsRoute.path := hsame ▸ List.mem_map_of_mem hmem
        obtain ⟨r₀, hr₀, heq⟩ := List.mem_map.mp hin
        exact ⟨r₀, hr₀, .inl (heq.trans hpath)⟩
      · exact ⟨r, hold, .inr hsock⟩
    obtain ⟨hmessage, hwraps⟩ := hr.handshake req hreq hconcerned
    have hbytes : ws.byteData = bytes := hdata
    rw [← hbytes] at hmessage hwraps hshort
    exact read_fails ws msg hshort hwraps hmessage
  · rw [if_pos hup]
    intro reading hread hresult
    rw [hdisp] at hd
    obtain ⟨r, hmem, hsock, rfl⟩ := mem_dispatched hd
    have hbytes : ws.byteData = bytes := hdata
    have hmessage : ReadsMessage bytes := hbytes ▸ readsMessage_of_read hread hresult
    have hreaches : ReachesHandler s fd bytes :=
      ⟨⟨r, hmem, hsock⟩, by rw [hframe]; exact Option.some_ne_none opcode, hmessage⟩
    obtain ⟨sent, hsent⟩ := Option.ne_none_iff_exists'.mp (hown hreaches)
    obtain ⟨hpending, hwhole⟩ := hr.boundary hreaches sent hsent
    exact ⟨rfl, startsNextFrame_of_whole hsent hpending hwhole hmessage⟩
  · rw [hdisp] at hd
    cases hd

/-- Each path once, and nothing but frames read so far. -/
structure Sincere (s : State W) : Prop where
  paths : (s.wsRoutes.map WsRoute.path).Nodup
  genuine : Throughout Genuine s.log

theorem sincere_step {srv : Server W} (s : State W) (a : Answer W) (h : Sincere s)
    (hn : NoLookalike srv s a) : Sincere (step srv s a) := by
  constructor
  · rw [paths_of_fixed (step_fixed srv s a)]
    exact h.paths
  · refine throughout_step s a (fun older e he => ?_) (fun fd conn bytes fault _ _ d hd => ?_)
      (fun fd conn bytes wsRoutes actions hr hperf => ?_) h.genuine
    · cases e with
      | received => exact absurd trivial he
      | _ => trivial
    · exact absurd hd List.not_mem_nil
    · have hshort : bytes.length < 9223372036854775808 :=
        Nat.lt_of_le_of_lt (of_receiving hr).2 (by decide)
      obtain ⟨hrecognisable, hown⟩ := hn _ _ _ hr
      exact genuine_performed h.paths hshort hrecognisable hown hperf

/-! ### Runs -/

theorem Sincere.initial (registrations : List (Bytes × WsHandler W)) :
    Sincere (State.initial (wsRoutesOf registrations)) :=
  ⟨wsRoutesOf_paths registrations, .nil⟩

/-- The handshake announces 69 bytes by its second letter, and by its first is no frame. -/
theorem handshakeWs_plain : ¬ ReadsMessage handshakeWs.val ∧ ¬ Wraps handshakeWs.val := by
  refine ⟨fun h => absurd h.1 (by decide +kernel), fun ⟨_, _, n, hsize, hlong⟩ => ?_⟩
  have hn : frameSize handshakeWs.val = some 71 := by decide +kernel
  cases hn.symm.trans hsize
  omega

/-- What `Genuine` says of a handler that is called because of a handshake. -/
def Refused : Event → Prop
  | .received _ _ _ actions => upgrades actions ≠ [] →
    ∀ d ∈ dispatches actions, (d.2.read []).toOption.map Reading.result = some .fail
  | _ => True

instance : (e : Event) → Decidable (Refused e)
  | .received _ _ _ actions =>
    inferInstanceAs (Decidable (upgrades actions ≠ [] → ∀ d ∈ dispatches actions,
      (d.2.read []).toOption.map Reading.result = some .fail))
  | .accept _ | .shutdown _ _ | .close _ _ | .handlerClose _ => isTrue trivial

theorem refused_of_genuine (older : List Event) (e : Event) (h : Genuine older e) :
    Refused e := by
  cases e with
  | received fd conn bytes actions =>
    intro hup d hd
    have hall := h d hd d.2 rfl []
    rw [if_neg hup] at hall
    obtain ⟨reading, hread, hresult⟩ := hall
    rw [hread, ← hresult]
    rfl
  | _ => trivial

/-- A handshake by another method, whose first two letters are a text frame's header. -/
def handshakeQuery : Chunk :=
  ⟨text "QUERY /ws HTTP/1.1\r\nUpgrade: websocket\r\nConnection: Upgrade\r\n" ++
    text "Sec-WebSocket-Key: AAAAAAAAAAAAAAAAAAAAAA==\r\n\r\n", by decide +kernel⟩

/-- Whoever made a handshake on some path has a stream. -/
theorem sentSince_of_lastHandshake {log : List Event} {conn : Nat} {path : Bytes}
    {query : Map Bytes Bytes} (h : lastHandshake log conn path = some query) :
    ∃ sent, sentSince conn log = some sent := by
  induction log with
  | nil => cases h
  | cons e older ih =>
    cases e with
    | received fd c bytes actions =>
      rw [lastHandshake, latest_received] at h
      unfold sentSince sentBehind
      by_cases hc : c = conn
      · rw [if_pos hc] at h ⊢
        by_cases hu : upgrades actions = []
        · have hnone : handshakeOn path actions = none := by
            rw [handshakeOn, hu]
            rfl
          rw [hnone, Option.none_or] at h
          obtain ⟨sent, hsent⟩ := ih h
          rw [if_neg (by simp [hu])]
          exact ⟨sent.more bytes, congrArg (Option.map (Sent.more · bytes)) hsent⟩
        · rw [if_pos (by simp [hu])]
          exact ⟨.behind bytes, rfl⟩
      · rw [if_neg hc] at h ⊢
        exact ih h
    | accept | shutdown | close | handlerClose => exact ih h

/-- As long as no bound number is handed out, no route is left bound by an earlier
connection. -/
theorem Bound.own {s : State W} (h : Bound s) {fd : Int} {conn : Nat} {bytes : Bytes}
    (hconn : connection s.log fd = some conn) (hreaches : ReachesHandler s fd bytes) :
    sentSince conn s.log ≠ none := by
  obtain ⟨⟨r, hr, hsock⟩, _⟩ := hreaches
  obtain ⟨sent, hsent⟩ := sentSince_of_lastHandshake (h.made r hr conn (hsock ▸ hconn))
  rw [hsent]
  exact Option.some_ne_none sent

/-- The same for runs that hand out no bound number: nothing is asked about who has made a
handshake. -/
theorem no_phantom_messages_unbound (srv : Server W)
    (registrations : List (Bytes × WsHandler W)) (answers : List (Answer W))
    (hn : Along (step srv) (fun s a => UnboundAccept srv s a ∧
      ∀ fd conn bytes, receiving srv s a = some (fd, conn, bytes) →
        Recognisable s a.env fd conn bytes)
      (State.initial (wsRoutesOf registrations)) answers) :
    Throughout Genuine
      (runLoop srv (State.initial (wsRoutesOf registrations)) answers).log := by
  have hstep : ∀ (s : State W) (a : Answer W), Bound s ∧ Sincere s →
      (UnboundAccept srv s a ∧ ∀ fd conn bytes, receiving srv s a = some (fd, conn, bytes) →
        Recognisable s a.env fd conn bytes) →
      Bound (step srv s a) ∧ Sincere (step srv s a) := by
    intro s a ⟨hbound, hsincere⟩ ⟨haccept, hrecognisable⟩
    refine ⟨bound_step s a hbound haccept, sincere_step s a hsincere fun fd conn bytes hr => ?_⟩
    exact ⟨hrecognisable fd conn bytes hr, hbound.own (of_receiving hr).1⟩
  exact (invariant_run hstep ⟨.initial registrations, .initial registrations⟩ hn).2.genuine

end HttpServer
