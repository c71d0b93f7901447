import FloorControl.Proofs.PartyAnswers
import FloorControl.Proofs.Winding

/-!
# The timers of the arbitrator
-/

namespace FloorControl

namespace Arbitrator

open Winding

def winding (t : Turn Arbitrator) : Winding := ⟨t.machine.timers, t.out.timers⟩

variable {t u : Turn Arbitrator}

@[simp] theorem winding_sendTo (ssrc : Ssrc) (message : Message) :
    winding (sendTo ssrc message t) = winding t := by
  simp only [sendTo]
  split <;> rfl

@[simp] theorem winding_broadcastExcept (except : Option Ssrc) (message : Message) :
    winding (broadcastExcept except message t) = winding t := rfl

@[simp] theorem winding_broadcast (message : Message) :
    winding (broadcast message t) = winding t := rfl

@[simp] theorem winding_deny (ssrc : Ssrc) (cause : DenyCause) :
    winding (deny ssrc cause t) = winding t := winding_sendTo _ _

@[simp] theorem winding_sendPosition (ssrc : Ssrc) (position : Nat) :
    winding (sendPosition ssrc position t) = winding t := winding_sendTo _ _

@[simp] theorem winding_sendPreemptorPosition (who : Talker) :
    winding (sendPreemptorPosition who t) = winding t := winding_sendTo _ _

@[simp] theorem winding_sendTaken (ssrc : Ssrc) : winding (sendTaken ssrc t) = winding t := by
  simp only [sendTaken]
  split
  · exact winding_sendTo _ _
  · rfl

@[simp] theorem winding_tell (event : FloorEvent) : winding (t.tell event) = winding t := rfl

@[simp] theorem winding_dismiss (former : Option Talker) :
    winding (dismiss former t) = winding t := by
  cases former with
  | none => rfl
  | some h => exact winding_sendTo _ _

theorem acts_startT1 (t : Turn Arbitrator) : Acts (winding t) (winding (startT1 t)) :=
  .start 0 rfl rfl

theorem acts_startT2 (t : Turn Arbitrator) : Acts (winding t) (winding (startT2 t)) :=
  .start 1 rfl rfl

theorem acts_startT3 (t : Turn Arbitrator) : Acts (winding t) (winding (startT3 t)) :=
  .start 2 rfl rfl

theorem acts_startT4 (t : Turn Arbitrator) : Acts (winding t) (winding (startT4 t)) :=
  .start 3 rfl rfl

theorem acts_startT7 (t : Turn Arbitrator) : Acts (winding t) (winding (startT7 t)) :=
  .start 4 rfl rfl

theorem acts_stopT4 (t : Turn Arbitrator) :
    Acts (winding t) (winding (t.update fun a => { a with t4 := a.t4.stop })) :=
  .stop 3 rfl

private theorem acts_stopStateTimers (state next : ArbitratorState) (t : Turn Arbitrator) :
    Acts (winding t)
      (winding (t.update fun a => { stopStateTimers state a with state := next })) := by
  cases state with
  | idle => exact .stop 4 rfl
  | taken => exact .stop 1 rfl
  | pendingRevoke =>
    have hfirst : Acts (winding t) (winding (t.update fun a => { a with t1 := a.t1.stop })) :=
      .stop 0 rfl
    exact hfirst.trans (Acts.stop 2 rfl)
  | startStop | initialising | releasing => exact .refl

private theorem acts_startStateTimers (t : Turn Arbitrator) :
    Acts (winding t) (winding (startStateTimers t)) := by
  simp only [startStateTimers]
  split
  · refine .trans ?_ (acts_startT7 _)
    exact acts_stopT4 t
  · refine .trans ?_ (acts_startT3 _)
    exact acts_startT1 t
  all_goals exact .refl

theorem acts_moveTo (next : ArbitratorState) (t : Turn Arbitrator) :
    Acts (winding t) (winding (moveTo next t)) := by
  simp only [moveTo]
  split
  · exact .refl
  · refine .trans ?_ (acts_startStateTimers _)
    exact acts_stopStateTimers _ next t

theorem acts_refreshT4 (t : Turn Arbitrator) : Acts (winding t) (winding (refreshT4 t)) := by
  simp only [refreshT4]
  split
  · split
    · exact .refl
    · exact acts_startT4 t
  · exact acts_stopT4 t

theorem acts_grant (who : Talker) (t : Turn Arbitrator) :
    Acts (winding t) (winding (grant who t)) := by
  simp only [grant]
  refine .trans ?_ (acts_refreshT4 _)
  refine .trans ?_ (acts_moveTo _ _)
  refine .trans ?_ (acts_startT2 _)
  rw [winding_broadcastExcept, winding_sendTo]
  exact .refl

theorem acts_grantImplicit (ssrc : Ssrc) (t : Turn Arbitrator) :
    Acts (winding t) (winding (grantImplicit ssrc t)) := by
  rcases grantImplicit_cases ssrc t with ⟨-, h⟩ | ⟨who, -, -, h⟩ <;> rw [h]
  exact acts_grant who t

theorem acts_becomeIdle (t : Turn Arbitrator) : Acts (winding t) (winding (becomeIdle t)) := by
  simp only [becomeIdle]
  split
  · exact .refl
  · split
    · exact acts_moveTo _ t
    · refine .trans ?_ (acts_grantImplicit _ _)
      exact acts_moveTo .idle t

theorem acts_checkReady (t : Turn Arbitrator) : Acts (winding t) (winding (checkReady t)) := by
  simp only [checkReady]
  split
  · exact acts_becomeIdle (broadcast _ t)
  · exact .refl

theorem acts_revokeHolder (cause : RevokeCause) (t : Turn Arbitrator) :
    Acts (winding t) (winding (revokeHolder cause t)) := by
  simp only [revokeHolder]
  split
  · exact .refl
  · refine .trans ?_ (acts_moveTo _ _)
    rw [winding_sendTo]
    exact .refl

theorem acts_queueOrDeny (who : Talker) (willing : Bool) (t : Turn Arbitrator) :
    Acts (winding t) (winding (queueOrDeny who willing t)) := by
  simp only [queueOrDeny]
  split
  · split
    · refine .trans ?_ (acts_refreshT4 _)
      rw [winding_sendPosition]
      exact .refl
    · rw [winding_deny]
  · rw [winding_deny]

def promoted (former : Option Talker) (second : Talker) (t : Turn Arbitrator) : Turn Arbitrator :=
  let t := (dismiss former t).update fun a => { a with holder := some second }
  refreshT4 (moveTo .taken (startT2
    (broadcastExcept (some second.ssrc) (t.machine.takenMessage second.ssrc) t)))

theorem promote_eq_promoted (former : Option Talker) (second : Talker) (t : Turn Arbitrator) :
    promote former second t =
      match (promoted former second t).machine.preemptor with
      | none => promoted former second t
      | some p =>
        if p.preempts second then revokeHolder .preempted (promoted former second t)
        else queueOrDeny p true
          ((promoted former second t).update fun a => { a with preemptor := none }) := rfl

theorem acts_promote (former : Option Talker) (second : Talker) (t : Turn Arbitrator) :
    Acts (winding t) (winding (promote former second t)) := by
  have hpromoted : Acts (winding t) (winding (promoted former second t)) := by
    simp only [promoted]
    refine .trans ?_ (acts_refreshT4 _)
    refine .trans ?_ (acts_moveTo _ _)
    refine .trans ?_ (acts_startT2 _)
    rw [winding_broadcastExcept, ← winding_dismiss former]
    exact .refl
  refine hpromoted.trans ?_
  rw [promote_eq_promoted]
  split
  · exact .refl
  · split
    · exact acts_revokeHolder _ _
    · refine .trans ?_ (acts_queueOrDeny _ _ _)
      exact .refl

/-- When the holder gives way, the second talker takes its place, or somebody else is granted the
floor, or it becomes idle. -/
theorem endHolder_cases (t : Turn Arbitrator) :
    (∃ second, endHolder t = promote t.machine.holder second (vacated t)) ∨
    (∃ who u, endHolder t = grant who (dismiss t.machine.holder u) ∧
      winding u = winding (vacated t) ∧ u.machine.state = t.machine.state ∧
      u.machine.dual = t.machine.dual.vacate) ∨
    endHolder t = becomeIdle (broadcast t.machine.idleMessage (vacated t)) := by
  cases hsecond : t.machine.places.second with
  | some second => exact .inl ⟨second, endHolder_of_second hsecond⟩
  | none =>
    cases hpreemptor : t.machine.places.preemptor with
    | some who =>
      exact .inr (.inl ⟨who, _, endHolder_of_preemptor hsecond hpreemptor, rfl, rfl, rfl⟩)
    | none =>
      cases hqueue : t.machine.places.queue.entries with
      | cons entry rest =>
        exact .inr (.inl
          ⟨entry.talker, _, endHolder_of_queue hsecond hpreemptor hqueue, rfl, rfl, rfl⟩)
      | nil => exact .inr (.inr (endHolder_of_nobody hsecond hpreemptor hqueue))

theorem acts_vacated (t : Turn Arbitrator) : Acts (winding t) (winding (vacated t)) :=
  .stop 5 rfl

theorem acts_endHolder (t : Turn Arbitrator) : Acts (winding t) (winding (endHolder t)) := by
  refine .trans (acts_vacated t) ?_
  rcases endHolder_cases t with ⟨second, h⟩ | ⟨who, u, h, hu, -⟩ | h <;> rw [h]
  · exact acts_promote _ _ _
  · refine .trans ?_ (acts_grant _ _)
    rw [winding_dismiss, hu]
  · refine .trans ?_ (acts_becomeIdle _)
    exact .refl

theorem acts_onDual_grant (who : Talker) (others : List Ssrc) (t : Turn Arbitrator) :
    Acts (winding t) (winding (onDual (DualFloor.grant who others) t)) := by
  simp only [onDual, DualFloor.grant]
  split
  · exact Acts.start 5 rfl rfl
  · exact .refl

@[simp] theorem winding_onDual_resendGrant :
    winding (onDual DualFloor.resendGrant t) = winding t := by
  simp only [onDual, DualFloor.resendGrant]
  split <;> rfl

theorem acts_vacate (t : Turn Arbitrator) :
    Acts (winding t) (winding (t.update fun a => { a with dual := a.dual.vacate })) :=
  .stop 5 rfl

theorem acts_callInitialized {ssrc : Ssrc} (h : callInitialized ssrc t = .ok u) :
    Acts (winding t) (winding u) := by
  simp only [callInitialized] at h
  split at h
  · cases h
  · cases h
    split
    · refine .trans ?_ (acts_checkReady _)
      refine .trans ?_ (acts_moveTo _ _)
      exact .refl
    · refine .trans ?_ (acts_checkReady _)
      exact .refl
    · rw [winding_sendTo]
      exact .refl
    · split
      · rw [winding_sendTo]
        exact .refl
      · exact .refl
    · split
      · rw [winding_sendTo]
        exact .refl
      · exact .refl
    · exact .refl

theorem acts_implicitFloorRequest {ssrc : Ssrc} (h : implicitFloorRequest ssrc t = .ok u) :
    Acts (winding t) (winding u) := by
  simp only [implicitFloorRequest] at h
  split at h
  · cases h
  · cases h
    split
    · exact acts_grantImplicit _ _
    all_goals exact .refl

theorem acts_forgotten (ssrc : Ssrc) (t : Turn Arbitrator) :
    Acts (winding t) (winding (forgotten ssrc t)) := by
  by_cases htalks : t.machine.dual.isTalker ssrc = true
  · refine Acts.stop 5 ?_
    simp [forgotten, forget, timers, htalks, DualFloor.vacate]
  · refine .of_eq ?_
    simp [winding, forgotten, forget, timers, htalks]

theorem acts_relieved (ssrc : Ssrc) (t : Turn Arbitrator) :
    Acts (winding t) (winding (relieved ssrc t)) := by
  simp only [relieved]
  split
  · exact acts_endHolder t
  · exact acts_refreshT4 t

theorem acts_clientRelease {ssrc : Ssrc} (h : clientRelease ssrc t = .ok u) :
    Acts (winding t) (winding u) := by
  rw [eq_of_clientRelease h]
  have hrelieved := (acts_forgotten ssrc t).trans (acts_relieved ssrc _)
  split
  · exact hrelieved.trans (acts_checkReady _)
  · exact hrelieved

theorem acts_requestWhileOccupied (r : Request) (receiveOnly : Bool) (t : Turn Arbitrator) :
    Acts (winding t) (winding (requestWhileOccupied r receiveOnly t)) := by
  have hreaction := reaction_requestWhileOccupied r receiveOnly t
  generalize requestWhileOccupied r receiveOnly t = u at hreaction ⊢
  cases hreaction with
  | holder | waiting | preemptor | listens =>
    simp only [winding_sendTo, winding_sendPosition, winding_sendPreemptorPosition, winding_deny]
    exact .refl
  | second => rw [winding_onDual_resendGrant]
  | seconded => exact acts_onDual_grant _ _ t
  | preempted =>
    refine .trans ?_ (acts_revokeHolder _ _)
    exact .refl
  | supplanted =>
    refine .trans ?_ (acts_revokeHolder _ _)
    exact acts_queueOrDeny _ _ t
  | parked => exact .refl
  | displaced =>
    refine .trans ?_ (acts_queueOrDeny _ _ _)
    exact .refl
  | enlisted => exact acts_queueOrDeny _ _ t

theorem acts_receive (message : Message) (t : Turn Arbitrator) :
    Acts (winding t) (winding (receive message t)) := by
  cases message with
  | request r =>
    simp only [receive, receiveRequest]
    split
    · exact .refl
    · split
      · split
        · rw [winding_deny]
        · exact acts_grant _ t
      · exact acts_requestWhileOccupied _ _ t
      · exact acts_requestWhileOccupied _ _ t
      all_goals exact .refl
  | release ssrc =>
    simp only [receive, receiveRelease]
    split
    · split
      · rw [winding_sendTo]
      · exact .refl
    split
    · exact acts_endHolder t
    split
    · refine .trans (acts_vacate t) ?_
      split
      · exact Acts.of_eq rfl
      · exact .refl
    · refine .trans ?_ (acts_refreshT4 _)
      rw [winding_sendTaken]
      exact .refl
  | queuePositionRequest ssrc =>
    simp only [receive, receiveQueuePositionRequest]
    split
    · rw [winding_sendPosition]
    · split
      · rw [winding_sendPreemptorPosition]
      · exact .refl
  | ack ssrc acked =>
    by_cases h : acked = .granted ∧ t.machine.dual.isTalker ssrc = true
    · refine Acts.stop 5 ?_
      simp [receive, receiveAck, timers, h.1, h.2, DualFloor.acknowledge]
    · refine Acts.of_eq ?_
      by_cases hgranted : acked = .granted
      · have htalks : t.machine.dual.isTalker ssrc = false := by simpa [hgranted] using h
        simp [receive, winding, receiveAck, timers, hgranted, DualFloor.acknowledge, htalks]
      · simp [receive, winding, receiveAck, timers, hgranted]
  | granted | denied | idle | taken | revoke | queuePositionInfo => exact .refl

def makes (config : ArbitratorConfig) : List (Endpoint × TimerId × Nat) :=
  [(.t1, config.t1), (.t2, config.t2), (.t3, config.t3), (.t4, config.t4), (.t7, config.t7),
    (.t20, config.t20)].map fun (id, delay) => (.arbitrator, id, delay.toNat)

theorem map_make_create (callId : CallId) (callType : CallType) (config : ArbitratorConfig) :
    (create callId callType config).timers.map Timer.make = makes config := rfl

theorem distinct_timers {config : ArbitratorConfig}
    (h : t.machine.timers.map Timer.make = makes config) : Distinct t.machine.timers :=
  .of_map_make h (by simp [makes])

theorem ids_timers {config : ArbitratorConfig}
    (h : t.machine.timers.map Timer.make = makes config) :
    t.machine.timers.map (·.id) = [.t1, .t2, .t3, .t4, .t7, .t20] := by
  simpa [Function.comp_def, makes, Timer.make] using congrArg (List.map (·.2.1)) h

theorem winding_sendPositions (entries : List (QueueEntry × Nat)) (t : Turn Arbitrator) :
    winding (entries.foldl (fun t (entry, position) => sendPosition entry.ssrc position t) t) =
      winding t := by
  induction entries generalizing t with
  | nil => rfl
  | cons e entries ih => rw [List.foldl_cons, ih, winding_sendPosition]

private theorem acts_expireT1 (t : Turn Arbitrator) :
    Acts (winding t) (winding (expireT1 t)) := by
  simp only [expireT1]
  split
  · refine .trans ?_ (acts_startT1 _)
    rw [winding_sendTo]
  · exact .refl

private theorem acts_expireT2 (t : Turn Arbitrator) :
    Acts (winding t) (winding (expireT2 t)) := by
  simp only [expireT2]
  split
  · exact acts_revokeHolder _ t
  · exact .refl

private theorem acts_expireT3 (t : Turn Arbitrator) :
    Acts (winding t) (winding (expireT3 t)) := by
  simp only [expireT3]
  split
  · exact acts_endHolder t
  · exact .refl

private theorem acts_expireT4 (t : Turn Arbitrator) :
    Acts (winding t) (winding (expireT4 t)) := by
  rw [← winding_sendPositions (t.machine.queue.entries.zipIdx 1) t]
  exact acts_refreshT4 _

private theorem acts_expireT7 (t : Turn Arbitrator) :
    Acts (winding t) (winding (expireT7 t)) := by
  simp only [expireT7]
  split
  · split
    · exact .refl
    · refine .trans ?_ (acts_startT7 _)
      exact .refl
  · exact .refl

/-- The second place after its timer has run out. -/
private theorem acts_expireT20 {ticket : Ticket}
    (haccepts : t.machine.dual.t20.accepts ticket = true) :
    Acts (winding (t.update fun a => { a with dual := { a.dual with t20 := a.dual.t20.rest } }))
      (winding (expireT20 ticket t)) := by
  cases hsecond : t.machine.dual.talker with
  | none =>
    simp only [expireT20, DualFloor.expire, haccepts, Bool.not_true, Bool.false_eq_true, if_false,
      Turn.machine_update, hsecond]
    exact .refl
  | some who =>
    by_cases harrives : t.machine.dual.c20.arrives = true
    · simp only [expireT20, DualFloor.expire, haccepts, Bool.not_true, Bool.false_eq_true, if_false,
        Turn.machine_update, hsecond, harrives, if_true]
      rw [winding_tell, winding_sendTo]
      exact .refl
    · simp only [expireT20, DualFloor.expire, haccepts, Bool.not_true, Bool.false_eq_true, if_false,
        Turn.machine_update, hsecond, harrives, DualFloor.resendGrant]
      exact Acts.start 5 rfl rfl

theorem expireT20_of_refused {ticket : Ticket}
    (hrefuses : t.machine.dual.t20.accepts ticket = false) : expireT20 ticket t = t := by
  simp [expireT20, DualFloor.expire, hrefuses]

/-- A ticket that comes due is offered to every timer; then the turn takes its course. -/
theorem acts_expire {config : ArbitratorConfig} (ticket : Ticket)
    (hmake : t.machine.timers.map Timer.make = makes config) :
    Acts ⟨t.machine.timers.map (Timer.offer ticket), t.out.timers⟩ (winding (expire ticket t)) := by
  have hdistinct := distinct_timers hmake
  have hids := ids_timers hmake
  simp only [timers, List.map_cons, List.map_nil, List.cons.injEq, and_true] at hids
  obtain ⟨h1, h2, h3, h4, h7, h20⟩ := hids
  simp only [expire]
  split
  · next hid =>
    rw [apply_ite winding]
    exact Acts.offer (i := 0) hdistinct rfl (hid.trans h1.symm) (fun _ => acts_expireT1 _)
      rfl
  · next hid =>
    rw [apply_ite winding]
    exact Acts.offer (i := 1) hdistinct rfl (hid.trans h2.symm) (fun _ => acts_expireT2 _)
      rfl
  · next hid =>
    rw [apply_ite winding]
    exact Acts.offer (i := 2) hdistinct rfl (hid.trans h3.symm) (fun _ => acts_expireT3 _)
      rfl
  · next hid =>
    rw [apply_ite winding]
    exact Acts.offer (i := 3) hdistinct rfl (hid.trans h4.symm) (fun _ => acts_expireT4 _)
      rfl
  · next hid =>
    rw [apply_ite winding]
    exact Acts.offer (i := 4) hdistinct rfl (hid.trans h7.symm) (fun _ => acts_expireT7 _)
      rfl
  · next hid =>
    have hcases : winding (expireT20 ticket t) =
        if t.machine.dual.t20.accepts ticket then winding (expireT20 ticket t) else winding t := by
      split
      · rfl
      · next hrefuses => rw [expireT20_of_refused (Bool.not_eq_true _ ▸ hrefuses)]
    rw [hcases]
    exact Acts.offer (i := 5) hdistinct rfl (hid.trans h20.symm) acts_expireT20 rfl
  all_goals
    next hid =>
    rw [map_offer_of_not_mem (by rw [ids_timers hmake, hid]; decide)]
    exact .refl

@[simp] theorem winding_revokeForRelease (who : Option Talker) :
    winding (revokeForRelease who t) = winding t := by
  cases who with
  | none => rfl
  | some h => exact winding_sendTo _ _

theorem winding_denyEach (entries : List QueueEntry) (t : Turn Arbitrator) :
    winding (entries.foldl (fun t entry => deny entry.ssrc .callReleased t) t) = winding t := by
  induction entries generalizing t with
  | nil => rfl
  | cons e entries ih => rw [List.foldl_cons, ih, winding_deny]

theorem acts_beginRelease (t : Turn Arbitrator) :
    Acts (winding t) (winding (beginRelease t)) := by
  refine .trans (Acts.stopAll t.machine.timers t.out.timers) ?_
  refine .trans ?_ (acts_moveTo _ _)
  refine Acts.of_eq ?_
  rw [winding_denyEach]
  split
  · rw [winding_deny, winding_revokeForRelease, winding_revokeForRelease]
    simp [winding, timers, stopTimers, DualFloor.stop, DualFloor.vacate]
  · rw [winding_revokeForRelease, winding_revokeForRelease]
    simp [winding, timers, stopTimers, DualFloor.stop, DualFloor.vacate]

/-- The last step of taking a call down leaves the timers alone. -/
theorem winding_finishRelease (t : Turn Arbitrator) : winding (finishRelease t) = winding t := by
  simp only [finishRelease]
  split
  · next hstate => simp [moveTo, hstate, stopStateTimers, startStateTimers, winding, timers]
  · rfl

end Arbitrator
end FloorControl
