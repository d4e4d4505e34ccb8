import HttpServer.Client.Sockets

/-! What a request of the TLS client leaves behind.

Of its seven ways to end (`Outcome`) three leave something: a failed `SSL_connect` frees its session
twice, a failed `SSL_write` keeps the address of a session that is freed, a failed `SSL_read` keeps
the session and the socket. -/
namespace HttpServer.HttpsClient
open Lib Lib.Tenure Lib.Runs Client

/-- How a request ends. -/
inductive Outcome where
  | noSocket
  /-- Before there is a session: closed again by `closeSocket`. -/
  | refused
  /-- `SSL_new` fails. -/
  | noSession
  | handshakeFailed
  | writeFailed
  | readFailed
  | done
  deriving DecidableEq, Repr

/-- A piece that leaves room in the buffer comes before any error. -/
def readsWhole : List SslResult → Bool
  | [] => false
  | .failed err :: rest =>
    if err = SSL_ERROR_WANT_READ ∨ err = SSL_ERROR_WANT_WRITE then readsWhole rest else false
  | .bytes piece :: rest =>
    if piece.val.length < READ_BUFFER_SIZE then true else readsWhole rest

def outcome (s : HttpsClient) (a : Answer) : Outcome :=
  match createSocket s.log a.connecting with
  | none => .noSocket
  | some _ =>
    if (a.connecting.resolved && a.connecting.timeouts && a.connecting.connected) = false then
      .refused
    else if (s.context a).2 = false then .refused
    else if s.created a = none then .noSession
    else if a.sslConnect ≠ none then .handshakeFailed
    else if a.written = false then .writeFailed
    else if readsWhole a.results = true then .done
    else .readFailed

/-- What becomes of the descriptors, the sessions and `ssl_`, and what else it takes for the log
to stay one of entitled calls. -/
structure Changes (s s' : HttpsClient) (fds : Set Int) (live : Set Nat) (ssl : Option Nat)
    (safe : Prop) : Prop where
  fds : descriptors s'.log = fds
  live : sessions s'.log = live
  ssl : s'.ssl = ssl
  safe : Throughout Entitled s'.log ↔ safe ∧ Throughout Entitled s.log

/-- A call that changes nothing. -/
theorem Changes.call {s : HttpsClient} {e : Event} (hfd : e.fdEffect = .nothing)
    (hssl : e.sslEffect = .nothing) (he : Entitled s.log e) :
    Changes s (s.note e) (descriptors s.log) (sessions s.log) s.ssl True where
  fds := descriptors_other hfd s.log
  live := sessions_other hssl s.log
  ssl := rfl
  safe := throughout_cons.trans (and_congr_left' (iff_true_intro he))

theorem Changes.trans {s t u : HttpsClient} {F F' : Set Int} {L L' : Set Nat}
    {x x' : Option Nat} {P Q : Prop} (h : Changes s t F L x P) (h' : Changes t u F' L' x' Q) :
    Changes s u F' L' x' (Q ∧ P) where
  fds := h'.fds
  live := h'.live
  ssl := h'.ssl
  safe := by rw [h'.safe, h.safe, and_assoc]

theorem entitled_ssl {log : List Event} {e : Event} {ssl : Nat} (hssl : ssl ∈ sessions log)
    (hfd : e.fd = none) (hsession : e.session = some ssl) : Entitled log e := by
  refine ⟨fun fd hf => ?_, fun p hp => ?_⟩
  · rw [hfd] at hf
    cases hf
  · rw [hsession] at hp
    rwa [← Option.some.inj hp]

theorem entitled_free {log : List Event} {e : Event} (hfd : e.fd = none)
    (hsession : e.session = none) : Entitled log e := by
  refine ⟨fun fd hf => ?_, fun p hp => ?_⟩
  · rw [hfd] at hf
    cases hf
  · rw [hsession] at hp
    cases hp

theorem entitled_sslFree {log : List Event} {ssl : Nat} :
    Entitled log (.sslFree ssl) ↔ ssl ∈ sessions log :=
  ⟨fun h => h.2 ssl rfl, fun h => entitled_ssl h rfl rfl⟩

theorem closeSocket_changes {s : HttpsClient} {sock : Int} (hnonneg : 0 ≤ sock)
    (hsock : sock ∈ descriptors s.log) :
    Changes s (s.closeSocket sock) (descriptors s.log \ {sock})
      (sessions s.log \ {p | s.ssl = some p}) none (∀ p, s.ssl = some p → p ∈ sessions s.log) := by
  have hclosing : ∀ log, descriptors log = descriptors s.log →
      Entitled log (.close sock) := fun log h => HttpClient.entitled_fd (h ▸ hsock) rfl rfl
  unfold closeSocket
  rw [if_pos hnonneg]
  cases hssl : s.ssl with
  | none =>
    refine ⟨descriptors_close s.log sock, ?_, hssl, ?_⟩
    · rw [show sessions (s.note (.close sock)).log = sessions s.log from sessions_other rfl _]
      simp
    · refine throughout_cons.trans (and_congr_left' (iff_of_true (hclosing _ rfl) ?_))
      rintro p ⟨⟩
  | some ssl =>
    have hfreed : descriptors (.sslFree ssl :: s.log) = descriptors s.log :=
      descriptors_other rfl _
    refine ⟨?_, ?_, rfl, ?_⟩
    · exact (descriptors_close _ sock).trans (congrArg (· \ {sock}) hfreed)
    · refine (sessions_other rfl _).trans ((sessions_sslFree s.log ssl).trans ?_)
      congr 1
      ext p
      rw [Set.mem_singleton_iff, Set.mem_ofPred_eq, Option.some_inj, eq_comm]
    · refine throughout_cons.trans ((and_iff_right (hclosing _ hfreed)).trans ?_)
      refine throughout_cons.trans (and_congr_left' (entitled_sslFree.trans ?_))
      refine ⟨fun h p hp => ?_, fun h => h ssl rfl⟩
      rwa [← Option.some.inj hp]

/-- Getting a context changes neither descriptors nor sessions. -/
theorem context_changes (s : HttpsClient) (a : Answer) :
    Changes s (s.context a).1 (descriptors s.log) (sessions s.log) s.ssl True := by
  have hsame : Changes s s (descriptors s.log) (sessions s.log) s.ssl True :=
    ⟨rfl, rfl, rfl, (and_iff_right trivial).symm⟩
  have hnew : Changes s (s.note .ctxNew) (descriptors s.log) (sessions s.log) s.ssl True :=
    .call rfl rfl (entitled_free rfl rfl)
  unfold context initializeSSL
  split
  · exact hsame
  split
  · exact hsame
  simp only
  split
  · have hfree : Changes (s.note .ctxNew) ((s.note .ctxNew).note .ctxFree)
        (descriptors (s.note .ctxNew).log) (sessions (s.note .ctxNew).log) s.ssl True :=
      .call rfl rfl (entitled_free rfl rfl)
    exact ⟨hfree.fds.trans hnew.fds, hfree.live.trans hnew.live, rfl,
      hfree.safe.trans (and_congr_right' (hnew.safe.trans (and_iff_right trivial)))⟩
  · exact ⟨hnew.fds, hnew.live, rfl, hnew.safe⟩

/-- The loop gives everything back, or nothing. -/
theorem readLoop_changes {s : HttpsClient} {ssl : Nat} {sock : Int} (hnonneg : 0 ≤ sock)
    (hsock : sock ∈ descriptors s.log) (hssl : s.ssl = some ssl) (hlive : ssl ∈ sessions s.log)
    (response : Bytes) (results : List SslResult) :
    if readsWhole results then
      Changes s (s.readLoop ssl sock response results).1 (descriptors s.log \ {sock})
        (sessions s.log \ {ssl}) none True
    else
      Changes s (s.readLoop ssl sock response results).1 (descriptors s.log) (sessions s.log)
        (some ssl) True := by
  induction results generalizing s response with
  | nil => exact hssl ▸ .call rfl rfl (entitled_ssl hlive rfl rfl)
  | cons result rest ih =>
    have hread : Changes s (s.note (.sslRead ssl)) (descriptors s.log) (sessions s.log) (some ssl)
        True := hssl ▸ .call rfl rfl (entitled_ssl hlive rfl rfl)
    have hagain := fun response => ih (hread.fds.symm ▸ hsock) hread.ssl (hread.live.symm ▸ hlive)
      response
    simp only [hread.fds, hread.live] at hagain
    have hnext : ∀ {s' F L x}, Changes (s.note (.sslRead ssl)) s' F L x True →
        Changes s s' F L x True := by
      intro s' F L x h
      have htrans := hread.trans h
      rwa [and_self_iff] at htrans
    cases result with
    | failed err =>
      rw [readsWhole, readLoop]
      split
      · have hrest := hagain response
        split
        · next hwhole => exact hnext (by rwa [if_pos hwhole] at hrest)
        · next hcut => exact hnext (by rwa [if_neg hcut] at hrest)
      · exact hread
    | bytes piece =>
      rw [readsWhole, readLoop]
      by_cases hshort : piece.val.length < READ_BUFFER_SIZE
      · rw [if_pos hshort, if_pos hshort, if_pos rfl]
        have hclose := closeSocket_changes hnonneg (hread.fds.symm ▸ hsock)
        rw [hread.fds, hread.live, hread.ssl] at hclose
        have hsafe : ∀ p, some ssl = some p → p ∈ sessions s.log :=
          fun p hp => Option.some.inj hp ▸ hlive
        have hfreed : {p | some ssl = some p} = ({ssl} : Set Nat) := by
          ext p
          rw [Set.mem_ofPred_eq, Option.some_inj, Set.mem_singleton_iff, eq_comm]
        rw [hfreed] at hclose
        exact hnext ⟨hclose.fds, hclose.live, hclose.ssl,
          hclose.safe.trans (and_congr_left' (iff_true_intro hsafe))⟩
      · rw [if_neg hshort, if_neg hshort]
        have hrest := hagain (response ++ piece.val)
        split
        · next hwhole => exact hnext (by rwa [if_pos hwhole] at hrest)
        · next hcut => exact hnext (by rwa [if_neg hcut] at hrest)

/-- A session freed by name. -/
theorem sslFree_changes {s : HttpsClient} {ssl : Nat} (hlive : ssl ∈ sessions s.log) :
    Changes s (s.note (.sslFree ssl)) (descriptors s.log) (sessions s.log \ {ssl}) s.ssl True where
  fds := descriptors_other rfl s.log
  live := sessions_sslFree s.log ssl
  ssl := rfl
  safe := throughout_cons.trans (and_congr_left' (iff_of_true (entitled_sslFree.mpr hlive) trivial))

/-- Every entry of a history that ends well was entitled. -/
theorem Changes.unsafe_of {s s' : HttpsClient} {F : Set Int} {L : Set Nat} {x : Option Nat}
    {P : Prop} (h : Changes s s' F L x P) (hP : ¬ P) : ¬ Throughout Entitled s'.log :=
  fun hsafe => hP (h.safe.mp hsafe).1

/-- What a request with a session comes to. -/
theorem converse_changes {s : HttpsClient} {a : Answer} {ssl : Nat} {sock : Int}
    (hnonneg : 0 ≤ sock) (hsock : sock ∈ descriptors s.log) (hssl : s.ssl = some ssl)
    (hlive : ssl ∈ sessions s.log) (method path : Bytes) :
    if a.sslConnect ≠ none then
      ¬ Throughout Entitled (s.converse a sock ssl method path).1.log
    else if a.written = false then
      Changes s (s.converse a sock ssl method path).1 (descriptors s.log \ {sock})
        (sessions s.log \ {ssl}) (some ssl) True
    else if readsWhole a.results = true then
      Changes s (s.converse a sock ssl method path).1 (descriptors s.log \ {sock})
        (sessions s.log \ {ssl}) none True
    else
      Changes s (s.converse a sock ssl method path).1 (descriptors s.log) (sessions s.log)
        (some ssl) True := by
  have hconnect : Changes s (s.note (.sslConnect ssl)) (descriptors s.log) (sessions s.log)
      (some ssl) True := hssl ▸ .call rfl rfl (entitled_ssl hlive rfl rfl)
  unfold converse
  cases a.sslConnect with
  | some err =>
    have hfree := sslFree_changes (hconnect.live.symm ▸ hlive)
    have hclose := closeSocket_changes hnonneg
      (hfree.fds.symm ▸ hconnect.fds.symm ▸ hsock)
    refine hclose.unsafe_of fun hagain => ?_
    have hgone := hagain ssl hconnect.ssl
    rw [hfree.live] at hgone
    exact hgone.2 rfl
  | none =>
    simp only [ne_eq, not_true_eq_false, if_false]
    generalize sendRequestText _ _ method path = requestStr
    have hcall : Changes (s.note (.sslConnect ssl))
        ((s.note (.sslConnect ssl)).note (.sslWrite ssl requestStr))
        (descriptors (s.note (.sslConnect ssl)).log) (sessions (s.note (.sslConnect ssl)).log)
        (s.note (.sslConnect ssl)).ssl True :=
      .call rfl rfl (entitled_ssl (hconnect.live.symm ▸ hlive) rfl rfl)
    rw [hconnect.fds, hconnect.live, hconnect.ssl] at hcall
    have hwrite := hconnect.trans hcall
    rw [and_self_iff] at hwrite
    cases a.written with
    | false =>
      have hfree := sslFree_changes (hwrite.live.symm ▸ hlive)
      rw [hwrite.fds, hwrite.live, hwrite.ssl] at hfree
      have hfreed := hwrite.trans hfree
      rw [and_self_iff] at hfreed
      have hclosing : Entitled _ (.close sock) :=
        HttpClient.entitled_fd (hfreed.fds.symm ▸ hsock) rfl rfl
      exact ⟨(descriptors_close _ sock).trans (congrArg (· \ {sock}) hfreed.fds),
        (sessions_other rfl _).trans hfreed.live, hfreed.ssl,
        throughout_cons.trans ((and_iff_right hclosing).trans hfreed.safe)⟩
    | true =>
      have hread := readLoop_changes hnonneg (hwrite.fds.symm ▸ hsock) hwrite.ssl
        (hwrite.live.symm ▸ hlive) [] a.results
      rw [hwrite.fds, hwrite.live] at hread
      have hnext : ∀ {s' F L x}, Changes
          ((s.note (.sslConnect ssl)).note (.sslWrite ssl requestStr)) s' F L x True →
          Changes s s' F L x True := by
        intro s' F L x h
        have htrans := hwrite.trans h
        rwa [and_self_iff] at htrans
      simp only [Bool.true_eq_false, if_false, Bool.not_true, Bool.false_eq_true]
      split
      · next hwhole => exact hnext (by rwa [if_pos hwhole] at hread)
      · next hcut => exact hnext (by rwa [if_neg hcut] at hread)

/-- What a request leaves behind, by the way it ends. -/
inductive Ends (s s' : HttpsClient) : Outcome → Prop
  | noSocket (hsame : s' = s) : Ends s s' .noSocket
  | refused (h : Changes s s' (descriptors s.log) (sessions s.log \ {p | s.ssl = some p}) none
      (∀ p, s.ssl = some p → p ∈ sessions s.log)) : Ends s s' .refused
  | noSession (h : Changes s s' (descriptors s.log) (sessions s.log) none True) :
    Ends s s' .noSession
  | handshakeFailed (h : ¬ Throughout Entitled s'.log) : Ends s s' .handshakeFailed
  | writeFailed {ssl : Nat} (hfresh : ssl ∉ sessions s.log)
    (h : Changes s s' (descriptors s.log) (sessions s.log) (some ssl) True) :
    Ends s s' .writeFailed
  | readFailed {ssl : Nat} {sock : Int} (hfresh : ssl ∉ sessions s.log)
    (h : Changes s s' (insert sock (descriptors s.log)) (insert ssl (sessions s.log)) (some ssl)
      True) : Ends s s' .readFailed
  | done (h : Changes s s' (descriptors s.log) (sessions s.log) none True) : Ends s s' .done

theorem created_fresh {s : HttpsClient} {a : Answer} {ssl : Nat} (h : s.created a = some ssl) :
    ssl ∉ sessions s.log := by
  have hfit := (Option.filter_eq_some_iff.mp h).2
  rw [decide_eq_true_iff] at hfit
  exact notMem_inUse.mpr hfit

/-- `SSL_new` looks at nothing but the sessions there are. -/
theorem created_congr {s t : HttpsClient} (h : sessions t.log = sessions s.log) (a : Answer) :
    t.created a = s.created a := by
  refine congrArg (Option.filter · a.sslNew) (funext fun ssl => decide_eq_decide.mpr ?_)
  rw [← notMem_inUse, ← notMem_inUse, show inUse Event.sslEffect t.log = _ from h]

theorem context_note (s : HttpsClient) (e : Event) (a : Answer) :
    ((s.note e).context a).2 = (s.context a).2 := by
  unfold context initializeSSL note
  simp only [apply_ite Prod.snd]

/-- What was undone by the end of the request. -/
theorem Changes.undo {s t s' : HttpsClient} {sock : Int} {L L' : Set Nat} {x x' : Option Nat}
    {P : Prop} (hopened : Changes s t (insert sock (descriptors s.log)) L' x' True)
    (hfresh : sock ∉ descriptors s.log)
    (h : Changes t s' (descriptors t.log \ {sock}) L x P) :
    Changes s s' (descriptors s.log) L x P where
  fds := by rw [h.fds, hopened.fds, Set.insert_sdiff_self_of_notMem hfresh]
  live := h.live
  ssl := h.ssl
  safe := h.safe.trans (and_congr_right' (hopened.safe.trans (and_iff_right trivial)))

/-- A session set up behind a socket. -/
theorem sslNew_changes {s t : HttpsClient} {F : Set Int} {ssl : Nat}
    (h : Changes s t F (sessions s.log) s.ssl True) :
    Changes s {t.note (.sslNew ssl) with ssl := some ssl} F (insert ssl (sessions s.log))
      (some ssl) True where
  fds := (descriptors_other rfl t.log).trans h.fds
  live := (sessions_sslNew t.log ssl).trans (congrArg (insert ssl) h.live)
  ssl := rfl
  safe := throughout_cons.trans ((and_iff_right (entitled_free rfl rfl)).trans h.safe)

theorem request_ends (s : HttpsClient) (a : Answer) (method path : Bytes) :
    Ends s (s.sendRequest a method path).1 (s.outcome a) := by
  unfold sendRequest outcome
  have hcases := connectTo_cases s.base log note closeSocket s a.connecting
  rcases hcases with ⟨hnone, message, heq⟩ | ⟨sock, hcreated, hbegun⟩
  · rw [heq, hnone]
    exact .noSocket rfl
  obtain ⟨hnonneg, hfresh⟩ := createSocket_some hcreated
  have hopened : Changes s (s.note (.socket sock)) (insert sock (descriptors s.log))
      (sessions s.log) s.ssl True :=
    ⟨descriptors_socket s.log sock, sessions_other rfl s.log, rfl,
      throughout_cons.trans (and_congr_left' (iff_true_intro (entitled_free rfl rfl)))⟩
  rw [hcreated]
  simp only
  rcases hbegun with ⟨hfail, message, heq⟩ | ⟨hconnected, heq⟩
  · rw [heq, if_pos hfail]
    have hclose := closeSocket_changes hnonneg (hopened.fds.symm ▸ Set.mem_insert ..)
    have hback := hopened.undo hfresh hclose
    rw [hopened.live, hopened.ssl] at hback
    exact .refused hback
  · rw [heq, hconnected, if_neg (Bool.noConfusion : ¬ true = false)]
    simp only
    have hcontext := context_changes (s.note (.socket sock)) a
    have hready := hopened.trans hcontext
    rw [hopened.fds, hopened.live, hopened.ssl, and_self_iff] at hready
    rw [← context_note s (.socket sock) a]
    cases hctx : (s.note (.socket sock)).context a with
    | mk t ready =>
      have hready : Changes s t (insert sock (descriptors s.log)) (sessions s.log) s.ssl True := by
        rwa [hctx] at hready
      have hsock : sock ∈ descriptors t.log := hready.fds.symm ▸ Set.mem_insert ..
      cases ready with
      | false =>
        have hback := hready.undo hfresh (closeSocket_changes hnonneg hsock)
        rw [hready.live, hready.ssl] at hback
        exact .refused hback
      | true =>
        simp only
        rw [if_neg (Bool.noConfusion : ¬ true = false), ← created_congr hready.live a]
        cases hnew : t.created a with
        | none =>
          have hforgot : Changes s {t with ssl := none} (insert sock (descriptors s.log))
              (sessions s.log) none True := ⟨hready.fds, hready.live, rfl, hready.safe⟩
          have hback := hforgot.undo hfresh (closeSocket_changes hnonneg hsock)
          have hlive : sessions t.log \ {p | (none : Option Nat) = some p} = sessions s.log := by
            rw [hready.live]
            simp
          rw [if_pos rfl]
          refine .noSession ⟨hback.fds, hback.live.trans hlive, hback.ssl, ?_⟩
          refine hback.safe.trans (and_congr_left' (iff_true_intro ?_))
          rintro p ⟨⟩
        | some ssl =>
          have hgone : ssl ∉ sessions s.log := hready.live ▸ created_fresh hnew
          have hset := @sslNew_changes s t _ ssl hready
          have hconverse := converse_changes (a := a) hnonneg (hset.fds.symm ▸ Set.mem_insert ..)
            hset.ssl (hset.live.symm ▸ Set.mem_insert ..) method path
          rw [hset.fds, hset.live, Set.insert_sdiff_self_of_notMem hfresh,
            Set.insert_sdiff_self_of_notMem hgone] at hconverse
          have hnext : ∀ {s' F L x}, Changes {t.note (.sslNew ssl) with ssl := some ssl} s' F L x
              True → Changes s s' F L x True := by
            intro s' F L x h
            have htrans := hset.trans h
            rwa [and_self_iff] at htrans
          rw [if_neg (Option.some_ne_none ssl)]
          simp only
          split
          · next hfailed => exact .handshakeFailed (by rwa [if_pos hfailed] at hconverse)
          · next hshaken =>
            rw [if_neg hshaken] at hconverse
            split
            · next hunwritten =>
              exact .writeFailed hgone (hnext (by rwa [if_pos hunwritten] at hconverse))
            · next hwritten =>
              rw [if_neg hwritten] at hconverse
              split
              · next hwhole => exact .done (hnext (by rwa [if_pos hwhole] at hconverse))
              · next hcut =>
                exact .readFailed hgone (hnext (by rwa [if_neg hcut] at hconverse))

end HttpServer.HttpsClient
