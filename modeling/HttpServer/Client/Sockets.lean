import HttpServer.Client.Calls
import HttpServer.Lib.Runs

/-! What the clients have in use, and that the plain one gives everything back.

A call is entitled when the descriptor or the session it is made on is there. -/
namespace HttpServer
open Lib Lib.Tenure Lib.Runs

namespace Client

abbrev descriptors (log : List Event) : Set Int := inUse Event.fdEffect log
abbrev sessions (log : List Event) : Set Nat := inUse Event.sslEffect log

theorem descriptors_socket (log : List Event) (fd : Int) :
    descriptors (.socket fd :: log) = insert fd (descriptors log) :=
  inUse_opens (show Event.fdEffect (.socket fd) = .opens fd from rfl) log

theorem descriptors_close (log : List Event) (fd : Int) :
    descriptors (.close fd :: log) = descriptors log \ {fd} :=
  inUse_closes (show Event.fdEffect (.close fd) = .closes fd from rfl) log

theorem descriptors_other {e : Event} (he : e.fdEffect = .nothing) (log : List Event) :
    descriptors (e :: log) = descriptors log := inUse_nothing he log

theorem sessions_sslNew (log : List Event) (ssl : Nat) :
    sessions (.sslNew ssl :: log) = insert ssl (sessions log) :=
  inUse_opens (show Event.sslEffect (.sslNew ssl) = .opens ssl from rfl) log

theorem sessions_sslFree (log : List Event) (ssl : Nat) :
    sessions (.sslFree ssl :: log) = sessions log \ {ssl} :=
  inUse_closes (show Event.sslEffect (.sslFree ssl) = .closes ssl from rfl) log

theorem sessions_other {e : Event} (he : e.sslEffect = .nothing) (log : List Event) :
    sessions (e :: log) = sessions log := inUse_nothing he log

/-- The descriptor that a call is made on. -/
def Event.fd : Event → Option Int
  | close fd => some fd
  | send fd _ => some fd
  | recv fd => some fd
  | _ => none

/-- The session that a call is made on. -/
def Event.session : Event → Option Nat
  | sslConnect ssl => some ssl
  | sslWrite ssl _ => some ssl
  | sslRead ssl => some ssl
  | sslShutdown ssl => some ssl
  | sslFree ssl => some ssl
  | _ => none

/-- A call is made on a descriptor that is open and a session that is there. -/
def Entitled (older : List Event) (e : Event) : Prop :=
  (∀ fd, e.fd = some fd → fd ∈ descriptors older) ∧ ∀ p, e.session = some p → p ∈ sessions older

theorem createSocket_some {log : List Event} {a : Connecting} {sock : Int}
    (h : createSocket log a = some sock) : 0 ≤ sock ∧ sock ∉ descriptors log := by
  have hfit := (Option.filter_eq_some_iff.mp h).2
  rw [decide_eq_true_iff] at hfit
  exact ⟨hfit.1, notMem_inUse.mpr hfit.2⟩

/-- The three ways to begin: without a socket, with one that is closed again, connected. -/
theorem connectTo_cases {σ : Type} (base : BaseClient) (log : σ → List Event)
    (note : σ → Event → σ) (closeSocket : σ → Int → σ) (s : σ) (a : Connecting) :
    (createSocket (log s) a = none ∧
      ∃ message, connectTo base log note closeSocket s a = (s, .error message)) ∨
    ∃ sock, createSocket (log s) a = some sock ∧
      (((a.resolved && a.timeouts && a.connected) = false ∧ ∃ message,
        connectTo base log note closeSocket s a =
          (closeSocket (note s (.socket sock)) sock, .error message)) ∨
      ((a.resolved && a.timeouts && a.connected) = true ∧
        connectTo base log note closeSocket s a = (note s (.socket sock), .ok sock))) := by
  unfold connectTo
  cases createSocket (log s) a with
  | none => exact .inl ⟨rfl, _, rfl⟩
  | some sock =>
    refine .inr ⟨sock, rfl, ?_⟩
    cases a.resolved <;> cases a.timeouts <;> cases a.connected <;>
      first | exact .inr ⟨rfl, rfl⟩ | exact .inl ⟨rfl, _, rfl⟩

end Client

/-! ### The plain client -/

namespace HttpClient
open Client

/-- From one log to the other every socket is closed, and no call strays. -/
structure Settled (log log' : List Event) : Prop where
  fds : descriptors log' = descriptors log
  safe : Throughout Entitled log → Throughout Entitled log'

theorem entitled_fd {log : List Event} {e : Event} {sock : Int} (hsock : sock ∈ descriptors log)
    (hfd : e.fd = some sock) (hsession : e.session = none) : Entitled log e := by
  refine ⟨fun fd hf => ?_, fun p hp => ?_⟩
  · rw [hfd] at hf
    rwa [← Option.some.inj hf]
  · rw [hsession] at hp
    cases hp

theorem closeSocket_spec {log : List Event} {sock : Int} (hnonneg : 0 ≤ sock)
    (hsock : sock ∈ descriptors log) :
    descriptors (closeSocket log sock) = descriptors log \ {sock} ∧
      (Throughout Entitled log → Throughout Entitled (closeSocket log sock)) := by
  rw [closeSocket, if_pos hnonneg]
  exact ⟨descriptors_close log sock, fun h => .cons (entitled_fd hsock rfl rfl) h⟩

/-- The socket closed after one more call on it. -/
theorem closeSocket_note_spec {log : List Event} {e : Event} {sock : Int} (hnonneg : 0 ≤ sock)
    (hsock : sock ∈ descriptors log) (heffect : e.fdEffect = .nothing) (hfd : e.fd = some sock)
    (hsession : e.session = none) :
    descriptors (closeSocket (note log e) sock) = descriptors log \ {sock} ∧
      (Throughout Entitled log → Throughout Entitled (closeSocket (note log e) sock)) := by
  have hsame : descriptors (note log e) = descriptors log := descriptors_other heffect log
  have hclose := closeSocket_spec hnonneg (hsame.symm ▸ hsock)
  rw [hsame] at hclose
  exact ⟨hclose.1, fun h => hclose.2 (.cons (entitled_fd hsock hfd hsession) h)⟩

theorem readLoop_spec {log : List Event} {sock : Int} (hnonneg : 0 ≤ sock)
    (hsock : sock ∈ descriptors log) (response : Bytes) (results : List RecvResult) :
    descriptors (readLoop log sock response results).1 = descriptors log \ {sock} ∧
      (Throughout Entitled log →
        Throughout Entitled (readLoop log sock response results).1) := by
  induction results generalizing log response with
  | nil => exact closeSocket_note_spec hnonneg hsock rfl rfl rfl
  | cons result rest ih =>
    have hclosed := closeSocket_note_spec (e := .recv sock) hnonneg hsock rfl rfl rfl
    have hread : descriptors (note log (.recv sock)) = descriptors log :=
      descriptors_other rfl log
    have hagain : ∀ response,
        descriptors (readLoop (note log (.recv sock)) sock response rest).1 =
          descriptors log \ {sock} ∧
        (Throughout Entitled log →
          Throughout Entitled (readLoop (note log (.recv sock)) sock response rest).1) := by
      intro response
      have hrest := ih (hread.symm ▸ hsock) response
      exact ⟨hrest.1.trans (congrArg (· \ {sock}) hread),
        fun h => hrest.2 (.cons (entitled_fd hsock rfl rfl) h)⟩
    cases result with
    | failed errno =>
      rw [readLoop]
      split
      · exact hagain response
      · exact hclosed
    | bytes piece =>
      rw [readLoop]
      split
      · exact hclosed
      · exact hagain _

theorem settled_step (base : BaseClient) (log : List Event) (call : Call) :
    Settled log (step base log call) := by
  unfold step sendRequest
  have hcases := connectTo_cases base id note closeSocket log call.answer.connecting
  rcases hcases with ⟨_, message, heq⟩ | ⟨sock, hcreated, hbegun⟩
  · rw [heq]
    exact ⟨rfl, id⟩
  obtain ⟨hnonneg, hfresh⟩ := createSocket_some hcreated
  have hfresh : sock ∉ descriptors log := hfresh
  have hopened : descriptors (note log (.socket sock)) = insert sock (descriptors log) :=
    descriptors_socket log sock
  have hsock : sock ∈ descriptors (note log (.socket sock)) := hopened ▸ Set.mem_insert ..
  have hnoted : Throughout Entitled log → Throughout Entitled (note log (.socket sock)) := by
    intro h
    refine .cons ⟨fun fd hf => ?_, fun p hp => ?_⟩ h
    · cases hf
    · cases hp
  have hback : descriptors (note log (.socket sock)) \ {sock} = descriptors log := by
    rw [hopened, Set.insert_sdiff_self_of_notMem hfresh]
  rcases hbegun with ⟨_, message, heq⟩ | ⟨_, heq⟩
  · have hclose := closeSocket_spec hnonneg hsock
    rw [heq]
    exact ⟨hclose.1.trans hback, fun h => hclose.2 (hnoted h)⟩
  · rw [heq]
    simp only
    generalize sendRequestText base.host base.keepAlive call.method call.path = requestStr
    split
    · have hclose := closeSocket_note_spec (e := .send sock requestStr) hnonneg hsock rfl rfl rfl
      exact ⟨hclose.1.trans hback, fun h => hclose.2 (hnoted h)⟩
    · have hsent : descriptors (note (note log (.socket sock)) (.send sock requestStr)) =
          descriptors (note log (.socket sock)) := descriptors_other rfl _
      have hread := readLoop_spec hnonneg (hsent.symm ▸ hsock) [] call.answer.results
      rw [hsent] at hread
      exact ⟨hread.1.trans hback,
        fun h => hread.2 (.cons (entitled_fd hsock rfl rfl) (hnoted h))⟩

/-- **The plain client closes what it opens**: after every call no socket is left, whatever the
kernel answered, and each call was made on a socket that was open, so that none is closed
twice. -/
theorem sockets_closed (base : BaseClient) (calls : List Call) :
    descriptors (run (step base) [] calls) = ∅ ∧
      Throughout Entitled (run (step base) [] calls) := by
  have hstep : ∀ log call, descriptors log = ∅ ∧ Throughout Entitled log →
      descriptors (step base log call) = ∅ ∧ Throughout Entitled (step base log call) := by
    intro log call h
    have hsettled := settled_step base log call
    exact ⟨hsettled.fds.trans h.1, hsettled.safe h.2⟩
  exact @invariant_always _ _ (step base)
    (fun log => descriptors log = ∅ ∧ Throughout Entitled log) hstep [] ⟨inUse_nil, .nil⟩ calls

/-! ### What a call returns -/

/-- The network that a call finds. -/
def network (base : BaseClient) (log : List Event) (a : Answer) : Network where
  refused :=
    match (connectTo base id note closeSocket log a.connecting).2 with
    | .error message => some message
    | .ok _ => none
  answer := fun _ =>
    if a.sent then readResponse a.results else .error (text "Failed to send request")

theorem readLoop_result (log : List Event) (sock : Int) (response : Bytes)
    (results : List RecvResult) :
    (readLoop log sock response results).2 = Client.readLoop response results := by
  induction results generalizing log response with
  | nil => rfl
  | cons result rest ih =>
    cases result with
    | failed errno =>
      rw [readLoop, Client.readLoop]
      split
      · exact ih _ response
      · rfl
    | bytes piece =>
      rw [readLoop, Client.readLoop]
      split
      · rfl
      · exact ih _ _

/-- The call returns what it does over the network that it finds. -/
theorem sendRequest_result (base : BaseClient) (log : List Event) (a : Answer)
    (method path : Bytes) :
    (base.sendRequest (network base log a) method path).result =
      (sendRequest base log a method path).2.mapError .unexpected := by
  unfold BaseClient.sendRequest sendRequest network
  rcases hbegun : connectTo base id note closeSocket log a.connecting with ⟨log', begun⟩
  cases begun with
  | error message => rfl
  | ok sock =>
    cases hsent : a.sent with
    | false => rfl
    | true =>
      simp only [if_true, Bool.not_true, Bool.false_eq_true, if_false, readLoop_result]
      rfl

end HttpClient
end HttpServer
