import HttpServer.Server.Send
import Mathlib.Data.Int.Order.Basic

/-! `SSLServer::sendResponse`, call of `SSL_write` by call.

It keeps its view of the body another way than the plain server, and takes `errno` for the
reason of what `SSL_write` does not write. Call by call it does what the plain server does on what
`SSLWrite` makes of the answers (`round_follows`). -/
namespace HttpServer.SSLServer
open Lib.Runs

/-- What one call of `SSL_write` returns, and what `errno` is then. -/
structure Written where
  ret : Int
  errno : Int
  deriving DecidableEq

def sslWrite (w : Written) : Int := if w.ret > 0 then w.ret else -1

/-- One round of `sendAll`. -/
def round (s : SendAll) (w : Written) : SendAll :=
  let written := sslWrite w
  if written = -1 then
    if w.errno = EAGAIN ∨ w.errno = EWOULDBLOCK then s else {s with returned := some false}
  else
    let s := {s with
      accepted := s.accepted ++ s.data.take written.toNat, data := s.data.drop written.toNat}
    if s.data = [] then {s with returned := some true} else s

/-- `SSL_write` is called until `sendAll` returns, and writes no more than it is given. -/
def Answers (s : SendAll) (w : Written) : Prop :=
  s.returned = none ∧ w.ret ≤ s.data.length

instance (s : SendAll) (w : Written) : Decidable (Answers s w) :=
  inferInstanceAs (Decidable (s.returned = none ∧ w.ret ≤ s.data.length))

/-- `sendResponse(sd, body)` after these calls of `SSL_write`. -/
def sendResponse (body : Bytes) (results : List Written) : SendAll :=
  run round {data := body} results

/-- The answer of `send` that comes to the same. -/
def Written.plain (w : Written) : SendResult :=
  if w.ret > 0 then .count w.ret.toNat else .failed w.errno

/-! ### One call -/

theorem plain_nothing {w : Written} (h : w.ret ≤ 0) : w.plain = .failed w.errno :=
  if_neg (not_lt.mpr h)

theorem round_nothing (s : SendAll) {w : Written} (h : w.ret ≤ 0) :
    round s w = s.round (.failed w.errno) := by
  have hnone : sslWrite w = -1 := if_neg (not_lt.mpr h)
  rw [round, SendAll.round]
  simp only [hnone, if_true]

theorem plain_some {w : Written} (h : 0 < w.ret) : w.plain = .count w.ret.toNat := if_pos h

theorem round_some (s : SendAll) {w : Written} (h : 0 < w.ret) : round s w =
    {accepted := s.accepted ++ s.data.take w.ret.toNat, data := s.data.drop w.ret.toNat
     returned := if s.data.drop w.ret.toNat = [] then some true else s.returned} := by
  have hwritten : sslWrite w = w.ret := if_pos h
  have hsome : ¬ w.ret = -1 := by omega
  rw [round]
  simp only [hwritten, if_neg hsome]
  split <;> rfl

/-! ### The plain server's loop -/

/-- The same bytes accepted and the same returned. The plain server keeps its view when it is
done. -/
structure Follows (s t : SendAll) : Prop where
  accepted : s.accepted = t.accepted
  returned : s.returned = t.returned
  data : s.returned ≠ some true → s.data = t.data

theorem Follows.answers {s t : SendAll} (h : Follows s t) {w : Written} (hw : Answers s w) :
    t.Answers w.plain := by
  obtain ⟨hrunning, hle⟩ := hw
  have hdata := h.data (by simp [hrunning])
  have hplain : t.returned = none := h.returned ▸ hrunning
  rcases le_or_gt w.ret 0 with hret | hret
  · rw [plain_nothing hret]
    exact hplain
  · rw [plain_some hret]
    refine ⟨hplain, ?_⟩
    rw [← hdata]
    omega

theorem round_follows {s t : SendAll} (h : Follows s t) {w : Written} (hw : Answers s w) :
    Follows (round s w) (t.round w.plain) := by
  obtain ⟨hrunning, hle⟩ := hw
  have hdata := h.data (by simp [hrunning])
  rcases le_or_gt w.ret 0 with hret | hret
  · rw [round_nothing s hret, plain_nothing hret, SendAll.round, SendAll.round]
    split
    · exact h
    · exact ⟨h.accepted, rfl, fun _ => hdata⟩
  · rw [round_some s hret, plain_some hret, hdata, h.accepted]
    by_cases hpart : w.ret.toNat < t.data.length
    · have hleft : t.data.drop w.ret.toNat ≠ [] :=
        List.ne_nil_of_length_pos (by rw [List.length_drop]; omega)
      rw [if_neg hleft, t.round_part hpart]
      exact ⟨rfl, h.returned, fun _ => rfl⟩
    · have hall : w.ret.toNat = t.data.length := by
        rw [← hdata] at hpart ⊢
        omega
      rw [t.round_rest hall, hall, List.drop_length, List.take_length, if_pos rfl]
      exact ⟨rfl, rfl, fun hgoing => absurd rfl hgoing⟩

/-- What the calls so far have come to, told by the plain server's. -/
theorem sendResponse_follows {body : Bytes} {results : List Written}
    (h : Along round Answers {data := body} results) :
    Along SendAll.round SendAll.Answers {data := body} (results.map Written.plain) ∧
      Follows (sendResponse body results)
        (HttpServer.sendResponse body (results.map Written.plain)) := by
  have hstep : ∀ s t w, Follows s t → Answers s w →
      t.Answers w.plain ∧ Follows (round s w) (t.round w.plain) :=
    fun s t w hst hw => ⟨hst.answers hw, round_follows hst hw⟩
  exact simulation_run hstep ⟨rfl, rfl, fun _ => rfl⟩ h

/-- What the calls so far have come to. -/
theorem sendResponse_tracks {body : Bytes} {results : List Written}
    (h : Along round Answers {data := body} results) :
    ∃ t, Follows (sendResponse body results) t ∧
      SendAll.Tracks body (results.map Written.plain) t := by
  obtain ⟨halong, hfollows⟩ := sendResponse_follows h
  exact ⟨_, hfollows, history_run (SendAll.tracks_round body) (SendAll.tracks_start body) halong⟩

/-- With nothing to write `SSL_write` writes nothing. -/
theorem answers_of_nil {s : SendAll} {results : List Written} (hdata : s.data = [])
    (h : Along round Answers s results) : ∀ w ∈ results, w.ret ≤ 0 := by
  induction results generalizing s with
  | nil => exact fun w hw => absurd hw List.not_mem_nil
  | cons w rest ih =>
    have hret : w.ret ≤ 0 := by
      have hle := h.1.2
      rwa [hdata, List.length_nil, Int.ofNat_zero] at hle
    have hnext : (round s w).data = [] := by
      rw [round_nothing s hret, SendAll.round]
      split <;> exact hdata
    exact List.forall_mem_cons.mpr ⟨hret, ih hnext h.2⟩

/-- **The TLS server sends the body too**: the bytes accepted up to any call are a prefix of it, and
the next call is given exactly the rest. `true` is returned where all of a body is accepted, and
of an empty one never; `false` where a call that wrote nothing left another `errno` than those of
a full socket. -/
theorem sendResponse_whole {body : Bytes} {results : List Written}
    (h : Along round Answers {data := body} results) :
    (∀ past, past <+: results → (sendResponse body past).accepted <+: body) ∧
    ((sendResponse body results).returned = none →
      (sendResponse body results).accepted ++ (sendResponse body results).data = body) ∧
    ((sendResponse body results).returned = some true ↔
      body ≠ [] ∧ (sendResponse body results).accepted = body) ∧
    ((sendResponse body results).returned = some false ↔
      ∃ w ∈ results, w.ret ≤ 0 ∧ w.errno ≠ EAGAIN ∧ w.errno ≠ EWOULDBLOCK) := by
  obtain ⟨t, ht, htracks⟩ := sendResponse_tracks h
  refine ⟨fun past hpast => ?_, fun hrunning => ?_, ⟨fun hdone => ⟨?_, ?_⟩, fun hw => ?_⟩, ?_⟩
  · obtain ⟨rest, hrest⟩ := hpast
    rw [← hrest] at h
    obtain ⟨t, ht, htracks⟩ := sendResponse_tracks h.of_append
    rw [ht.accepted]
    by_cases hdone : t.returned = some true
    · rw [(htracks.whole hdone).1]
    · exact ⟨_, htracks.offered hdone⟩
  · rw [ht.accepted, ht.data (by simp [hrunning])]
    exact htracks.offered (by simp [← ht.returned, hrunning])
  · rintro rfl
    obtain ⟨_, written, hmem⟩ := htracks.whole (ht.returned ▸ hdone)
    obtain ⟨w, hw, hplain⟩ := List.mem_map.mp hmem
    rw [plain_nothing (answers_of_nil rfl h w hw)] at hplain
    cases hplain
  · rw [ht.accepted]
    exact (htracks.whole (ht.returned ▸ hdone)).1
  · obtain ⟨hbody, hall⟩ := hw
    by_contra hgoing
    rw [ht.returned] at hgoing
    have hoffered := htracks.offered hgoing
    rw [← ht.accepted, hall, List.append_right_eq_self] at hoffered
    exact hbody ((htracks.left hgoing).resolve_left (not_not_intro hoffered)).1
  · rw [ht.returned, htracks.failure]
    constructor
    · rintro ⟨errno, hfatal, hmem⟩
      obtain ⟨w, hw, hplain⟩ := List.mem_map.mp hmem
      rcases le_or_gt w.ret 0 with hret | hret
      · rw [plain_nothing hret] at hplain
        obtain rfl := SendResult.failed.inj hplain
        exact ⟨w, hw, hret, hfatal⟩
      · rw [plain_some hret] at hplain
        cases hplain
    · rintro ⟨w, hw, hret, hfatal⟩
      exact ⟨w.errno, hfatal, List.mem_map.mpr ⟨w, hw, plain_nothing hret⟩⟩

/-- Five bytes written in two parts, the second at the second try. -/
def rewritten : List Written := [⟨2, 0⟩, ⟨-1, EAGAIN⟩, ⟨3, EAGAIN⟩]

theorem sendResponse_whole_rewritten :
    (∀ past, past <+: rewritten → (sendResponse (text "hello") past).accepted <+: text "hello") ∧
    ((sendResponse (text "hello") rewritten).returned = none →
      (sendResponse (text "hello") rewritten).accepted ++
        (sendResponse (text "hello") rewritten).data = text "hello") ∧
    ((sendResponse (text "hello") rewritten).returned = some true ↔
      text "hello" ≠ [] ∧ (sendResponse (text "hello") rewritten).accepted = text "hello") ∧
    ((sendResponse (text "hello") rewritten).returned = some false ↔
      ∃ w ∈ rewritten, w.ret ≤ 0 ∧ w.errno ≠ EAGAIN ∧ w.errno ≠ EWOULDBLOCK) :=
  sendResponse_whole (by decide)

end HttpServer.SSLServer
