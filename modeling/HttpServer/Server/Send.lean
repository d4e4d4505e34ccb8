import HttpServer.Bytes
import HttpServer.Lib.Runs

/-! `Server::sendResponse`, call of `send` by call.

The kernel answers each call with a count or an errno. `Tracks` says what the calls so far
have come to: the bytes accepted, followed by the view that the next call offers, are the
body. -/
namespace HttpServer
open Lib.Runs

def EAGAIN : Int := 11
def EWOULDBLOCK : Int := 11

/-- What one call of `send` returns. -/
inductive SendResult where
  | count (written : Nat)
  | failed (errno : Int)
  deriving DecidableEq

/-- The view that is left of the body, what the kernel has accepted, and what `sendAll`
has returned. -/
structure SendAll where
  data : Bytes
  accepted : Bytes := []
  returned : Option Bool := none

namespace SendAll

/-- One round of `sendAll`. -/
def round (s : SendAll) : SendResult → SendAll
  | .failed errno =>
    if errno = EAGAIN ∨ errno = EWOULDBLOCK then s else {s with returned := some false}
  | .count written =>
    let s := {s with accepted := s.accepted ++ s.data.take written}
    if written < s.data.length then {s with data := s.data.drop written}
    else {s with returned := some true}

/-- `send` is called until `sendAll` returns, and accepts no more than it was offered. -/
def Answers (s : SendAll) : SendResult → Prop
  | .count written => s.returned = none ∧ written ≤ s.data.length
  | .failed _ => s.returned = none

instance (s : SendAll) : (r : SendResult) → Decidable (s.Answers r)
  | .count written => inferInstanceAs (Decidable (s.returned = none ∧ written ≤ s.data.length))
  | .failed _ => inferInstanceAs (Decidable (s.returned = none))

theorem Answers.running {s : SendAll} {r : SendResult} (h : s.Answers r) : s.returned = none := by
  cases r with
  | count written => exact h.1
  | failed errno => exact h

end SendAll

/-- `sendResponse(sd, body)` after these calls of `send`. -/
def sendResponse (body : Bytes) (results : List SendResult) : SendAll :=
  run SendAll.round {data := body} results

namespace SendAll

/-- An error that `sendAll` does not try again after. -/
def Fatal (errno : Int) : Prop := errno ≠ EAGAIN ∧ errno ≠ EWOULDBLOCK

/-! ### One call -/

theorem round_again (s : SendAll) {errno : Int} (h : ¬ Fatal errno) :
    s.round (.failed errno) = s := by
  have hagain : errno = EAGAIN ∨ errno = EWOULDBLOCK := by
    by_contra hnot
    exact h (not_or.mp hnot)
  rw [round, if_pos hagain]

theorem round_fatal (s : SendAll) {errno : Int} (h : Fatal errno) :
    s.round (.failed errno) = {s with returned := some false} := by
  rw [round, if_neg (not_or.mpr h)]

theorem round_part (s : SendAll) {written : Nat} (h : written < s.data.length) :
    s.round (.count written) =
      {s with accepted := s.accepted ++ s.data.take written, data := s.data.drop written} := by
  rw [round]
  simp only [if_pos h]

theorem round_rest (s : SendAll) {written : Nat} (h : written = s.data.length) :
    s.round (.count written) =
      {s with accepted := s.accepted ++ s.data, returned := some true} := by
  have hall : ¬ written < s.data.length := by omega
  rw [round]
  simp only [if_neg hall]
  rw [h, List.take_length]

/-! ### All of them -/

/-- What the calls so far have come to. -/
structure Tracks (body : Bytes) (past : List SendResult) (s : SendAll) : Prop where
  /-- Nothing is lost, repeated or out of order. -/
  offered : s.returned ≠ some true → s.accepted ++ s.data = body
  /-- Something is left to offer, unless there never was anything. -/
  left : s.returned ≠ some true → s.data ≠ [] ∨ body = [] ∧ ∀ written, .count written ∉ past
  whole : s.returned = some true → s.accepted = body ∧ ∃ written, .count written ∈ past
  failure : s.returned = some false ↔ ∃ errno, Fatal errno ∧ .failed errno ∈ past

theorem tracks_start (body : Bytes) : Tracks body [] {data := body} where
  offered _ := rfl
  left _ := by
    by_cases hbody : body = []
    · exact .inr ⟨hbody, fun written => List.not_mem_nil⟩
    · exact .inl hbody
  whole h := by cases h
  failure := by
    refine ⟨fun h => ?_, fun h => ?_⟩
    · cases h
    · obtain ⟨_, _, hmem⟩ := h
      cases hmem

theorem tracks_round (body : Bytes) (past : List SendResult) (s : SendAll) (r : SendResult)
    (h : Tracks body past s) (hr : s.Answers r) : Tracks body (past ++ [r]) (s.round r) := by
  have hrunning := hr.running
  have hgoing : s.returned ≠ some true := by simp [hrunning]
  have hoffered := h.offered hgoing
  have hleft := h.left hgoing
  have hnone : ¬ ∃ errno, Fatal errno ∧ .failed errno ∈ past := by
    rw [← h.failure, hrunning]
    simp
  cases r with
  | failed errno =>
    by_cases hfatal : Fatal errno
    · rw [round_fatal s hfatal]
      refine ⟨fun _ => hoffered, fun _ => ?_, fun hw => absurd hw (by simp), ?_⟩
      · simpa using hleft
      · simp only [List.mem_append, List.mem_singleton, true_iff]
        exact ⟨errno, hfatal, .inr rfl⟩
    · rw [round_again s hfatal]
      refine ⟨fun _ => hoffered, fun _ => ?_, fun hw => absurd hw hgoing, ?_⟩
      · simpa using hleft
      · rw [h.failure]
        refine ⟨fun hf => absurd hf hnone, fun hf => ?_⟩
        obtain ⟨errno', hfatal', hmem⟩ := hf
        rcases List.mem_append.mp hmem with hmem | hmem
        · exact ⟨errno', hfatal', hmem⟩
        · rw [SendResult.failed.inj (List.mem_singleton.mp hmem)] at hfatal'
          exact absurd hfatal' hfatal
  | count written =>
    have hle := hr.2
    have hfailure : ∀ returned : Option Bool, returned ≠ some false →
        (returned = some false ↔
          ∃ errno, Fatal errno ∧ .failed errno ∈ past ++ [.count written]) := by
      intro returned hreturned
      refine ⟨fun hf => absurd hf hreturned, fun hf => ?_⟩
      obtain ⟨errno, hfatal, hmem⟩ := hf
      rcases List.mem_append.mp hmem with hmem | hmem
      · exact absurd ⟨errno, hfatal, hmem⟩ hnone
      · cases List.mem_singleton.mp hmem
    by_cases hpart : written < s.data.length
    · rw [round_part s hpart]
      refine ⟨fun _ => ?_, fun _ => .inl ?_, fun hw => absurd hw hgoing, ?_⟩
      · rw [List.append_assoc, List.take_append_drop, hoffered]
      · exact List.ne_nil_of_length_pos (by rw [List.length_drop]; omega)
      · exact hfailure _ (by simp [hrunning])
    · rw [round_rest s (show written = s.data.length by omega)]
      refine ⟨fun hw => absurd rfl hw, fun hw => absurd rfl hw,
        fun _ => ⟨hoffered, written, ?_⟩, ?_⟩
      · simp
      · exact hfailure _ (by simp)

/-- **What is sent is the body**: however the kernel takes it, the bytes accepted up to any
call are a prefix of it, and the next call offers exactly the rest. `true` is returned where
all of it is accepted (of nothing, where a call has said so), `false` where one has failed
for good. -/
theorem sendResponse_delivers {body : Bytes} {results : List SendResult}
    (h : Along round Answers {data := body} results) :
    (∀ past, past <+: results → (sendResponse body past).accepted <+: body) ∧
    ((sendResponse body results).returned = none →
      (sendResponse body results).accepted ++ (sendResponse body results).data = body) ∧
    ((sendResponse body results).returned = some true ↔
      (sendResponse body results).accepted = body ∧ ∃ written, .count written ∈ results) ∧
    (body ≠ [] → ((sendResponse body results).returned = some true ↔
      (sendResponse body results).accepted = body)) ∧
    ((sendResponse body results).returned = some false ↔
      ∃ errno, (errno ≠ EAGAIN ∧ errno ≠ EWOULDBLOCK) ∧ .failed errno ∈ results) := by
  have htracks : ∀ past, past <+: results → Tracks body past (sendResponse body past) := by
    intro past hpast
    obtain ⟨rest, hrest⟩ := hpast
    rw [← hrest] at h
    exact history_run (tracks_round body) (tracks_start body) h.of_append
  have ht := htracks results List.prefix_rfl
  have hopen : (sendResponse body results).returned ≠ some true →
      (sendResponse body results).accepted = body →
      body = [] ∧ ∀ written, .count written ∉ results := by
    intro hgoing hall
    have hoffered := ht.offered hgoing
    rw [hall, List.append_right_eq_self] at hoffered
    exact (ht.left hgoing).resolve_left (not_not_intro hoffered)
  refine ⟨?_, ?_, ?_, ?_, ht.failure⟩
  · intro past hpast
    have ht := htracks past hpast
    by_cases hdone : (sendResponse body past).returned = some true
    · rw [(ht.whole hdone).1]
    · exact ⟨_, ht.offered hdone⟩
  · intro hrunning
    exact ht.offered (by simp [hrunning])
  · refine ⟨ht.whole, fun hw => ?_⟩
    obtain ⟨hall, written, hmem⟩ := hw
    by_contra hgoing
    exact (hopen hgoing hall).2 written hmem
  · intro hbody
    refine ⟨fun hw => (ht.whole hw).1, fun hall => ?_⟩
    by_contra hgoing
    exact hbody (hopen hgoing hall).1

/-- Five bytes taken in two parts, each at the second try. -/
def retried : List SendResult := [.failed EAGAIN, .count 2, .failed EWOULDBLOCK, .count 3]

theorem sendResponse_delivers_retried :
    (∀ past, past <+: retried → (sendResponse (text "hello") past).accepted <+: text "hello") ∧
    ((sendResponse (text "hello") retried).returned = none →
      (sendResponse (text "hello") retried).accepted ++
        (sendResponse (text "hello") retried).data = text "hello") ∧
    ((sendResponse (text "hello") retried).returned = some true ↔
      (sendResponse (text "hello") retried).accepted = text "hello" ∧
        ∃ written, .count written ∈ retried) ∧
    (text "hello" ≠ [] → ((sendResponse (text "hello") retried).returned = some true ↔
      (sendResponse (text "hello") retried).accepted = text "hello")) ∧
    ((sendResponse (text "hello") retried).returned = some false ↔
      ∃ errno, (errno ≠ EAGAIN ∧ errno ≠ EWOULDBLOCK) ∧ .failed errno ∈ retried) :=
  sendResponse_delivers (by decide)

end SendAll
end HttpServer
