import HttpServer.Lib.Runs
import HttpServer.Lib.Tenure
import HttpServer.Request.Wire
import HttpServer.WebSocketClient

/-! A `WebSocketClient` from its constructor to its destructor.

The socket is made by the constructor and closed by a `disconnect` that finds it connected. What
the calls come to can be told from their order alone (`Phase`): a client that is not opened asks
for nothing but the connection, and one that is closed has no socket left to ask it for
(`socket_life_iff`). -/
namespace HttpServer
open Lib.Tenure Lib.Runs

inductive WebSocketClient.Event where
  | socket (fd : Int)
  | connect (fd : Int)
  | close (fd : Int)
  | send (fd : Int) (bytes : Bytes)
  | recv (fd : Int)

structure WebSocketClient where
  socketFd : Int
  host : Bytes
  port : Int
  connected : Bool := false
  /-- What was asked of the kernel, newest first. -/
  log : List WebSocketClient.Event := []

namespace WebSocketClient

/-! ### The calls -/

def note (s : WebSocketClient) (e : Event) : WebSocketClient := {s with log := e :: s.log}

/-- The constructor, given a socket. -/
def construct (host : Bytes) (port fd : Int) : WebSocketClient :=
  {socketFd := fd, host := host, port := port, log := [.socket fd]}

/-- `connect()`, where `inet_pton` takes the host for an address and `::connect` succeeds. -/
def connect (s : WebSocketClient) (address success : Bool) : WebSocketClient × Bool :=
  if !address then (s, false)
  else
    let s := s.note (.connect s.socketFd)
    if !success then (s, false) else ({s with connected := true}, true)

def disconnect (s : WebSocketClient) : WebSocketClient :=
  if s.connected then {s.note (.close s.socketFd) with connected := false} else s

/-- The end of `sendMessage` and `sendPing`. As many bytes go out as `send` says, none on an
error. -/
def sendFrame (s : WebSocketClient) (frame : Bytes) (sent : Option Nat) : WebSocketClient × Bool :=
  if !s.connected then (s, false)
  else (s.note (.send s.socketFd (frame.take (sent.getD 0))), sent.isSome)

/-- `handshake(path)`, with what one `recv` gets; an error gets nothing. -/
def handshake (s : WebSocketClient) (path random : Bytes) (sent : Option Nat) (received : Bytes) :
    WebSocketClient × Bool :=
  if !s.connected then (s, false)
  else
    let reqStr := handshakeText s.host s.port path random
    let s := s.note (.send s.socketFd (reqStr.take (sent.getD 0)))
    if sent.isNone then (s, false) else (s.note (.recv s.socketFd), upgraded received)

/-- `receiveMessage()`, with what one `recv` gets; an error gets nothing. -/
def receiveMessage (s : WebSocketClient) (received : Bytes) : WebSocketClient × Bytes :=
  if !s.connected then (s, []) else (s.note (.recv s.socketFd), received)

/-- A call, and what the kernel answers to what it asks. -/
inductive Call where
  | connect (address success : Bool)
  | disconnect
  | handshake (path random : Bytes) (sent : Option Nat) (received : Bytes)
  | sendMessage (message : Bytes) (isBinary : Bool) (sent : Option Nat)
  | sendPing (payload : Bytes) (sent : Option Nat)
  | receiveMessage (received : Bytes)
  deriving DecidableEq

def step (s : WebSocketClient) : Call → WebSocketClient
  | .connect address success => (s.connect address success).1
  | .disconnect => s.disconnect
  | .handshake path random sent received => (s.handshake path random sent received).1
  | .sendMessage message isBinary sent => (s.sendFrame (sendMessage message isBinary) sent).1
  | .sendPing payload sent => (s.sendFrame (sendPing payload) sent).1
  | .receiveMessage received => (s.receiveMessage received).1

/-- A client after these calls. -/
def life (host : Bytes) (port fd : Int) (calls : List Call) : WebSocketClient :=
  run step (construct host port fd) calls

/-- The destructor. -/
def destruct (s : WebSocketClient) : WebSocketClient := s.disconnect

/-! ### Descriptors -/

def Event.fdEffect : Event → Effect Int
  | socket fd => .opens fd
  | close fd => .closes fd
  | _ => .nothing

abbrev descriptors (log : List Event) : Set Int := inUse Event.fdEffect log

/-- The descriptor that something is asked for. -/
def Event.fd : Event → Option Int
  | socket _ => none
  | connect fd => some fd
  | close fd => some fd
  | send fd _ => some fd
  | recv fd => some fd

/-- It is one that the client has open. -/
def Entitled (older : List Event) (e : Event) : Prop :=
  ∀ fd, e.fd = some fd → fd ∈ descriptors older

/-- What went out, in order. -/
def wire : List Event → Bytes
  | [] => []
  | .send _ bytes :: older => wire older ++ bytes
  | _ :: older => wire older

/-! ### What the order of the calls says -/

inductive Phase where
  | unopened | opened | closed
  deriving DecidableEq

namespace Phase

def next : Phase → Call → Phase
  | _, .connect true true => opened
  | opened, .disconnect => closed
  | p, _ => p

/-- Nobody connects what was closed. -/
def Careful : Phase → Call → Prop
  | closed, .connect true _ => False
  | _, _ => True

instance : (p : Phase) → (c : Call) → Decidable (p.Careful c)
  | unopened, _ => isTrue trivial
  | opened, _ => isTrue trivial
  | closed, .connect true _ => isFalse id
  | closed, .connect false _ => isTrue trivial
  | closed, .disconnect => isTrue trivial
  | closed, .handshake .. => isTrue trivial
  | closed, .sendMessage .. => isTrue trivial
  | closed, .sendPing .. => isTrue trivial
  | closed, .receiveMessage _ => isTrue trivial

/-- What a call has to say to the server, if there is one. -/
def words (host : Bytes) (port : Int) : Phase → Call → Bytes
  | opened, .handshake path random sent _ =>
    (handshakeText host port path random).take (sent.getD 0)
  | opened, .sendMessage message isBinary sent =>
    (WebSocketClient.sendMessage message isBinary).take (sent.getD 0)
  | opened, .sendPing payload sent => (WebSocketClient.sendPing payload).take (sent.getD 0)
  | _, _ => []

def speech (host : Bytes) (port : Int) (p : Phase) : List Call → Bytes
  | [] => []
  | c :: rest => p.words host port c ++ (p.next c).speech host port rest

/-- What it asks of the kernel, newest first. -/
def asks (s : WebSocketClient) (p : Phase) (c : Call) : List Event :=
  match p, c with
  | _, .connect true _ => [.connect s.socketFd]
  | opened, .disconnect => [.close s.socketFd]
  | opened, .handshake _ _ sent _ =>
    (if sent.isNone then [] else [.recv s.socketFd]) ++
      [.send s.socketFd (p.words s.host s.port c)]
  | opened, .sendMessage _ _ _ => [.send s.socketFd (p.words s.host s.port c)]
  | opened, .sendPing _ _ => [.send s.socketFd (p.words s.host s.port c)]
  | opened, .receiveMessage _ => [.recv s.socketFd]
  | _, _ => []

end Phase

/-- **A client does what its phase says.** -/
theorem step_eq {s : WebSocketClient} {p : Phase} (h : s.connected = decide (p = .opened))
    (c : Call) : s.step c =
      {s with connected := decide (p.next c = .opened), log := p.asks s c ++ s.log} := by
  cases s with
  | mk fd host port connected log =>
    have hconnected : connected = decide (p = .opened) := h
    subst hconnected
    cases c with
    | connect address success =>
      cases p <;> cases address <;> cases success <;> rfl
    | disconnect => cases p <;> rfl
    | handshake path random sent received => cases p <;> cases sent <;> rfl
    | sendMessage message isBinary sent => cases p <;> rfl
    | sendPing payload sent => cases p <;> rfl
    | receiveMessage received => cases p <;> rfl

/-- What is asked in a phase, with what it means for the next: a close, or something else of the
client's descriptor, or nothing. -/
inductive Asked (s : WebSocketClient) (p : Phase) (c : Call) : Prop
  | close (hopen : p = .opened) (hasks : p.asks s c = [.close s.socketFd])
    (hnext : p.next c = .closed) (hcareful : p.Careful c) (hwords : p.words s.host s.port c = [])
  | other (hasks : ∀ e ∈ p.asks s c, e.fdEffect = .nothing ∧ e.fd = some s.socketFd)
    (hnext : p.next c = p ∨ p.next c = .opened ∧ p.asks s c ≠ [])
    (hcareful : p.Careful c ↔ (p.asks s c ≠ [] → p ≠ .closed))
    (hwords : ∀ log, wire (p.asks s c ++ log) = wire log ++ p.words s.host s.port c)

theorem Asked.nothing {s : WebSocketClient} {p : Phase} {c : Call} (hasks : p.asks s c = [])
    (hnext : p.next c = p) (hcareful : p.Careful c) (hwords : p.words s.host s.port c = []) :
    Asked s p c := by
  refine .other (fun e he => ?_) (.inl hnext) (iff_of_true hcareful fun h => absurd hasks h)
    fun log => ?_
  · rw [hasks] at he
    cases he
  · rw [hasks, hwords, List.append_nil, List.nil_append]

/-- To a server that is there. -/
theorem Asked.talk {s : WebSocketClient} {c : Call} {bytes : Bytes}
    (hasks : Phase.opened.asks s c = [.send s.socketFd bytes] ∨
      Phase.opened.asks s c = [.recv s.socketFd, .send s.socketFd bytes])
    (hnext : Phase.opened.next c = .opened) (hwords : Phase.opened.words s.host s.port c = bytes) :
    Asked s .opened c := by
  refine .other ?_ (.inl hnext) (iff_of_true trivial fun _ => Phase.noConfusion) fun log => ?_
  · rcases hasks with hasks | hasks <;> rw [hasks] <;> simp [Event.fdEffect, Event.fd]
  · rw [hwords]
    rcases hasks with hasks | hasks <;> rw [hasks] <;> rfl

theorem asked (s : WebSocketClient) (p : Phase) (c : Call) : Asked s p c := by
  cases c with
  | connect address success =>
    cases address with
    | false => cases p <;> exact .nothing rfl rfl trivial rfl
    | true =>
      have hasks : p.asks s (.connect true success) = [.connect s.socketFd] := by cases p <;> rfl
      refine .other (fun e he => ?_) ?_ ?_ fun log => ?_
      · rw [hasks] at he
        rw [List.mem_singleton.mp he]
        exact ⟨rfl, rfl⟩
      · rw [hasks]
        cases success with
        | true => exact .inr ⟨by cases p <;> rfl, List.cons_ne_nil _ _⟩
        | false => exact .inl (by cases p <;> rfl)
      · rw [hasks]
        cases p <;> simp [Phase.Careful]
      · rw [hasks, show p.words s.host s.port (.connect true success) = [] by cases p <;> rfl,
          List.append_nil]
        rfl
  | disconnect =>
    cases p with
    | opened => exact .close rfl rfl rfl trivial rfl
    | unopened => exact .nothing rfl rfl trivial rfl
    | closed => exact .nothing rfl rfl trivial rfl
  | handshake path random sent received =>
    cases p with
    | opened =>
      cases sent with
      | none => exact .talk (.inl rfl) rfl rfl
      | some n => exact .talk (.inr rfl) rfl rfl
    | unopened => exact .nothing rfl rfl trivial rfl
    | closed => exact .nothing rfl rfl trivial rfl
  | sendMessage message isBinary sent =>
    cases p with
    | opened => exact .talk (.inl rfl) rfl rfl
    | unopened => exact .nothing rfl rfl trivial rfl
    | closed => exact .nothing rfl rfl trivial rfl
  | sendPing payload sent =>
    cases p with
    | opened => exact .talk (.inl rfl) rfl rfl
    | unopened => exact .nothing rfl rfl trivial rfl
    | closed => exact .nothing rfl rfl trivial rfl
  | receiveMessage received =>
    cases p with
    | opened =>
      refine .other (fun e he => ?_) (.inl rfl) (iff_of_true trivial fun _ => Phase.noConfusion)
        fun log => (List.append_nil _).symm
      rw [List.mem_singleton.mp he]
      exact ⟨rfl, rfl⟩
    | unopened => exact .nothing rfl rfl trivial rfl
    | closed => exact .nothing rfl rfl trivial rfl

/-! ### The books -/

/-- The descriptors, told by the phase. -/
def Kept (fd : Int) : Phase → Set Int → Prop
  | .unopened, fds => fds = {fd}
  | .opened, fds => fds ⊆ {fd}
  | .closed, fds => fds = ∅

/-- What the calls so far have come to. -/
structure Books (host : Bytes) (port fd : Int) (past : List Call) (s : WebSocketClient) :
    Prop where
  fields : s.socketFd = fd ∧ s.host = host ∧ s.port = port
  connected : s.connected = decide (run Phase.next .unopened past = .opened)
  kept : Kept fd (run Phase.next .unopened past) (descriptors s.log)
  safe : Throughout Entitled s.log ↔ Along Phase.next Phase.Careful .unopened past
  held : Along Phase.next Phase.Careful .unopened past →
    run Phase.next .unopened past ≠ .closed → fd ∈ descriptors s.log
  wire : wire s.log = Phase.speech host port .unopened past

theorem books_start (host : Bytes) (port fd : Int) :
    Books host port fd [] (construct host port fd) := by
  have hone : descriptors (construct host port fd).log = {fd} := by
    have hopens := inUse_opens (show Event.fdEffect (.socket fd) = .opens fd from rfl) []
    rw [inUse_nil] at hopens
    exact hopens.trans (insert_empty_eq fd)
  refine ⟨⟨rfl, rfl, rfl⟩, rfl, hone, iff_of_true (.cons ?_ .nil) trivial, fun _ _ => ?_, rfl⟩
  · intro fd' hfd
    cases hfd
  · rw [hone]
    exact Set.mem_singleton fd

theorem Kept.subset {fd : Int} {p : Phase} {fds : Set Int} (h : Kept fd p fds) : fds ⊆ {fd} := by
  cases p with
  | unopened => exact (show fds = {fd} from h).subset
  | opened => exact h
  | closed =>
    rw [show fds = ∅ from h]
    exact Set.empty_subset _

theorem speech_concat (host : Bytes) (port : Int) (p : Phase) (past : List Call) (c : Call) :
    p.speech host port (past ++ [c]) =
      p.speech host port past ++ (run Phase.next p past).words host port c := by
  induction past generalizing p with
  | nil => exact List.append_nil _
  | cons c' past ih =>
    show _ ++ (p.next c').speech host port (past ++ [c]) = _
    rw [ih, ← List.append_assoc]
    rfl

/-- Where something is asked, the descriptor has to be there. -/
theorem throughout_asks {asks log : List Event} {fd : Int}
    (h : ∀ e ∈ asks, e.fdEffect = .nothing ∧ e.fd = some fd) :
    Throughout Entitled (asks ++ log) ↔
      Throughout Entitled log ∧ (asks ≠ [] → fd ∈ descriptors log) := by
  induction asks with
  | nil => exact (and_iff_left fun hne => absurd rfl hne).symm
  | cons e asks ih =>
    have hrest : ∀ e ∈ asks, e.fdEffect = .nothing ∧ e.fd = some fd :=
      fun e he => h e (List.mem_cons_of_mem _ he)
    have hsame : descriptors (asks ++ log) = descriptors log :=
      inUse_append (fun e he => (hrest e he).1) log
    have hfirst : Entitled (asks ++ log) e ↔ fd ∈ descriptors log := by
      rw [Entitled, (h e (List.mem_cons_self ..)).2, hsame]
      exact ⟨fun h => h fd rfl, fun h fd' hfd => Option.some.inj hfd ▸ h⟩
    rw [List.cons_append, throughout_cons, ih hrest, hfirst]
    exact ⟨fun h => ⟨h.2.1, fun _ => h.1⟩,
      fun h => ⟨h.2 (List.cons_ne_nil _ _), h.1, fun _ => h.2 (List.cons_ne_nil _ _)⟩⟩

namespace Asked
variable {s : WebSocketClient} {p : Phase} {c : Call} {log : List Event}

theorem wire_eq (h : Asked s p c) :
    wire (p.asks s c ++ log) = wire log ++ p.words s.host s.port c := by
  cases h with
  | close _ hasks _ _ hwords =>
    rw [hasks, hwords, List.append_nil]
    rfl
  | other _ _ _ hwords => exact hwords log

theorem kept (h : Asked s p c) (hkept : Kept s.socketFd p (descriptors log)) :
    Kept s.socketFd (p.next c) (descriptors (p.asks s c ++ log)) := by
  cases h with
  | close hopen hasks hnext =>
    rw [hasks, hnext]
    refine (inUse_closes (show Event.fdEffect (.close s.socketFd) = _ from rfl) log).trans ?_
    exact Set.sdiff_eq_empty.mpr hkept.subset
  | other hasks hnext =>
    rw [show descriptors (p.asks s c ++ log) = descriptors log from
      inUse_append (fun e he => (hasks e he).1) log]
    rcases hnext with hnext | ⟨hnext, _⟩
    · rwa [hnext]
    · rw [hnext]
      exact hkept.subset

theorem held (h : Asked s p c) (hheld : p ≠ .closed → s.socketFd ∈ descriptors log)
    (hcareful : p.Careful c) (hclosed : p.next c ≠ .closed) :
    s.socketFd ∈ descriptors (p.asks s c ++ log) := by
  cases h with
  | close _ _ hnext => exact absurd hnext hclosed
  | other hasks hnext hcare =>
    rw [show descriptors (p.asks s c ++ log) = descriptors log from
      inUse_append (fun e he => (hasks e he).1) log]
    rcases hnext with hnext | ⟨_, hsome⟩
    · exact hheld (hnext ▸ hclosed)
    · exact hheld (hcare.mp hcareful hsome)

theorem safe (h : Asked s p c) (hkept : Kept s.socketFd p (descriptors log))
    (hheld : p ≠ .closed → s.socketFd ∈ descriptors log) :
    Throughout Entitled (p.asks s c ++ log) ↔ Throughout Entitled log ∧ p.Careful c := by
  cases h with
  | close hopen hasks _ hcareful =>
    rw [hasks]
    refine throughout_cons.trans (and_comm.trans (and_congr_right fun _ => ?_))
    refine iff_of_true (fun fd hfd => ?_) hcareful
    rw [← Option.some.inj hfd]
    exact hheld (by rw [hopen]; exact Phase.noConfusion)
  | other hasks _ hcareful =>
    rw [throughout_asks hasks, hcareful]
    refine and_congr_right fun _ => forall_congr' fun _ => ⟨fun hmem hclosed => ?_, hheld⟩
    rw [hclosed] at hkept
    rw [show descriptors log = ∅ from hkept] at hmem
    exact hmem

end Asked

theorem books_step {host : Bytes} {port fd : Int} {past : List Call} {s : WebSocketClient}
    (c : Call) (h : Books host port fd past s) :
    Books host port fd (past ++ [c]) (s.step c) := by
  obtain ⟨⟨rfl, rfl, rfl⟩, hconnected, hkept, hsafe, hheld, hwire⟩ := h
  have hrun : run Phase.next .unopened (past ++ [c]) = (run Phase.next .unopened past).next c :=
    run_append ..
  have halong : Along Phase.next Phase.Careful .unopened (past ++ [c]) ↔
      Along Phase.next Phase.Careful .unopened past ∧
        (run Phase.next .unopened past).Careful c :=
    along_append.trans (and_congr_right fun _ => and_iff_left trivial)
  have hasked := asked s (run Phase.next .unopened past) c
  rw [step_eq hconnected c]
  refine ⟨⟨rfl, rfl, rfl⟩, by rw [hrun], ?_, ?_, fun hcareful hclosed => ?_, ?_⟩
  · rw [hrun]
    exact hasked.kept hkept
  · rw [halong]
    by_cases hpast : Along Phase.next Phase.Careful .unopened past
    · rw [hasked.safe hkept (hheld hpast), hsafe]
    · exact iff_of_false (fun h => hpast (hsafe.mp h.of_append)) fun h => hpast h.1
  · obtain ⟨hpast, hc⟩ := halong.mp hcareful
    exact hasked.held (hheld hpast) hc (hrun ▸ hclosed)
  · rw [hasked.wire_eq, hwire, speech_concat]

theorem books_life (host : Bytes) (port fd : Int) (calls : List Call) :
    Books host port fd calls (life host port fd calls) := by
  have hstep : ∀ past s c, Books host port fd past s → True →
      Books host port fd (past ++ [c]) (step s c) := fun past s c h _ => books_step c h
  exact history_run (P := fun _ _ => True) hstep (books_start host port fd)
    (Along.of_forall fun _ _ => trivial)

/-- A client is opened by the first connection that comes about. -/
theorem run_unopened_iff (p : Phase) (calls : List Call) :
    run Phase.next p calls = .unopened ↔ p = .unopened ∧ .connect true true ∉ calls := by
  induction calls generalizing p with
  | nil => exact (and_iff_left List.not_mem_nil).symm
  | cons c calls ih =>
    have hnext : p.next c = .unopened ↔ p = .unopened ∧ .connect true true ≠ c := by
      cases c with
      | connect address success =>
        cases address <;> cases success <;> cases p <;> simp [Phase.next]
      | disconnect => cases p <;> simp [Phase.next]
      | handshake => cases p <;> simp [Phase.next]
      | sendMessage => cases p <;> simp [Phase.next]
      | sendPing => cases p <;> simp [Phase.next]
      | receiveMessage => cases p <;> simp [Phase.next]
    show run Phase.next (p.next c) calls = .unopened ↔ _
    rw [ih, hnext, List.mem_cons, not_or, and_assoc]

/-- **What a client comes to**, from its constructor to its destructor. Everything it asks for is
asked of its own socket, exactly if no address is connected to behind a close; the socket is
closed in the end exactly if it was connected once; and what goes out is what is said between a
connection and the next close. -/
theorem socket_life_iff (host : Bytes) (port fd : Int) (calls : List Call) :
    (Throughout Entitled (life host port fd calls).destruct.log ↔
      Along Phase.next Phase.Careful .unopened calls) ∧
    (descriptors (life host port fd calls).destruct.log = ∅ ↔ .connect true true ∈ calls) ∧
    wire (life host port fd calls).destruct.log = Phase.speech host port .unopened calls := by
  have hend : (life host port fd calls).destruct = life host port fd (calls ++ [.disconnect]) :=
    (run_append step (construct host port fd) calls [.disconnect]).symm
  have hbooks := books_life host port fd (calls ++ [.disconnect])
  have hkept := hbooks.kept
  rw [hend]
  refine ⟨?_, ?_, ?_⟩
  · rw [hbooks.safe, along_append]
    refine and_iff_left ⟨?_, trivial⟩
    cases run Phase.next .unopened calls <;> trivial
  · rw [show run Phase.next .unopened (calls ++ [.disconnect]) =
      (run Phase.next .unopened calls).next .disconnect from run_append ..] at hkept
    have hunopened := run_unopened_iff .unopened calls
    rw [and_iff_right rfl] at hunopened
    rw [← not_iff_not, ← hunopened]
    cases hphase : run Phase.next .unopened calls with
    | unopened =>
      rw [hphase] at hkept
      have hone : descriptors (life host port fd (calls ++ [.disconnect])).log = {fd} := hkept
      refine iff_of_true (fun hempty => ?_) rfl
      exact Set.singleton_ne_empty fd (hone.symm.trans hempty)
    | opened =>
      rw [hphase] at hkept
      exact iff_of_false (fun h => h hkept) Phase.noConfusion
    | closed =>
      rw [hphase] at hkept
      exact iff_of_false (fun h => h hkept) Phase.noConfusion
  · rw [hbooks.wire, speech_concat]
    cases run Phase.next .unopened calls <;> exact List.append_nil _

end WebSocketClient
end HttpServer
