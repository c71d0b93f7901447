import FloorControl.Participant
import FloorControl.Proofs.Winding

/-!
# The timers of a participant

What each step of a participant does to its four timers.
-/

namespace FloorControl.Participant

open Winding

def winding (t : Turn Participant) : Winding := ⟨t.machine.timers, t.out.timers⟩

def makes (ssrc : Ssrc) (config : ParticipantConfig) : List (Endpoint × TimerId × Nat) :=
  [(.t100, config.t100), (.t101, config.t101), (.t104, config.t104), (.t132, config.t132)].map
    fun (id, delay) => (.participant ssrc, id, delay.toNat)

variable {t : Turn Participant}

theorem map_make_create (callId : CallId) (ssrc : Ssrc) (callType : CallType) (priority : Priority)
    (originator : Bool) (config : ParticipantConfig) :
    (create callId ssrc callType priority originator config).timers.map Timer.make =
      makes ssrc config := rfl

section Made

variable {ssrc : Ssrc} {config : ParticipantConfig}
  (hmake : t.machine.timers.map Timer.make = makes ssrc config)

include hmake

theorem distinct_timers : Distinct t.machine.timers := .of_map_make hmake (by simp [makes])

theorem ids_timers : t.machine.timers.map (·.id) = [.t100, .t101, .t104, .t132] := by
  simpa [Function.comp_def, makes, Timer.make] using congrArg (List.map (·.2.1)) hmake

end Made

@[simp] theorem winding_send (message : Message) : winding (send message t) = winding t := rfl

@[simp] theorem winding_moveTo (next : ParticipantState) : winding (moveTo next t) = winding t := by
  simp only [moveTo]
  split <;> rfl

@[simp] theorem winding_tellDenied (cause : DenyCause) (onSite : Bool) :
    winding (tellDenied cause onSite t) = winding t := rfl

@[simp] theorem winding_tellRevoked (cause : RevokeCause) :
    winding (tellRevoked cause t) = winding t := rfl

@[simp] theorem winding_tellFailure (kind : FailureKind) :
    winding (tellFailure kind t) = winding t := rfl

@[simp] theorem winding_takeFloor : winding (takeFloor t) = winding t :=
  winding_moveTo (t := t.update _) _

@[simp] theorem winding_acknowledge (message : Message) :
    winding (acknowledge message t) = winding t := by
  simp only [acknowledge]
  split <;> rfl

theorem acts_startT100 (t : Turn Participant) : Acts (winding t) (winding (startT100 t)) :=
  .start 0 rfl rfl

theorem acts_startT101 (t : Turn Participant) : Acts (winding t) (winding (startT101 t)) :=
  .start 1 rfl rfl

theorem acts_startT104 (t : Turn Participant) : Acts (winding t) (winding (startT104 t)) :=
  .start 2 rfl rfl

theorem acts_startT132 (t : Turn Participant) : Acts (winding t) (winding (startT132 t)) :=
  .start 3 rfl rfl

theorem acts_startRelease (t : Turn Participant) : Acts (winding t) (winding (startRelease t)) := by
  simp only [startRelease, winding_moveTo]
  refine .trans ?_ (acts_startT100 _)
  exact .refl

theorem acts_leaveQueue (t : Turn Participant) :
    Acts (winding t) (winding (t.update leaveQueue)) := by
  have hfirst : Acts (winding t) (winding (t.update fun p => { p with t104 := p.t104.stop })) :=
    .stop 2 rfl
  exact hfirst.trans (Acts.stop 3 rfl)

@[simp] theorem winding_callInitialized : winding (callInitialized t) = winding t := by
  simp only [callInitialized]
  split
  · exact winding_moveTo (t := t.update _) _
  · rfl

@[simp] theorem winding_callEstablished (granted : Bool) (priority : Priority) :
    winding (callEstablished granted priority t) = winding t := by
  simp only [callEstablished]
  split
  · exact winding_takeFloor (t := t.update _)
  · rfl

theorem acts_pushToTalk (t : Turn Participant) : Acts (winding t) (winding (pushToTalk t)) := by
  simp only [pushToTalk]
  split
  · exact .refl
  split
  · rw [winding_moveTo]
    refine .trans ?_ (acts_startT101 _)
    exact .refl
  · exact .refl

theorem acts_releaseToTalk (t : Turn Participant) :
    Acts (winding t) (winding (releaseToTalk t)) := by
  simp only [releaseToTalk]
  split
  · exact acts_startRelease t
  · refine .trans ?_ (acts_startRelease _)
    exact Acts.stop 1 rfl
  · exact (acts_leaveQueue t).trans (acts_startRelease _)
  all_goals exact .refl

theorem acts_acceptGrant (t : Turn Participant) : Acts (winding t) (winding (acceptGrant t)) := by
  simp only [acceptGrant]
  split
  · rw [winding_takeFloor]
    exact Acts.stop 3 rfl
  · exact .refl

theorem acts_askQueuePosition (t : Turn Participant) :
    Acts (winding t) (winding (askQueuePosition t)) := by
  simp only [askQueuePosition]
  split
  · refine .trans ?_ (acts_startT104 _)
    exact .refl
  · exact .refl

private theorem acts_receivePendingRequest (message : Message) (t : Turn Participant) :
    Acts (winding t) (winding (receivePendingRequest message t)) := by
  cases message with
  | granted =>
    simp only [receivePendingRequest, winding_takeFloor]
    exact Acts.stop 1 rfl
  | denied =>
    simp only [receivePendingRequest, winding_tellDenied, winding_moveTo]
    exact Acts.stop 1 rfl
  | queuePositionInfo =>
    simp only [receivePendingRequest, winding_moveTo]
    exact Acts.stop 1 rfl
  | request | release | idle | taken | revoke | queuePositionRequest | ack => exact .refl

private theorem acts_receiveQueued (message : Message) (t : Turn Participant) :
    Acts (winding t) (winding (receiveQueued message t)) := by
  cases message with
  | granted =>
    simp only [receiveQueued]
    split
    · exact .refl
    · refine .trans (b := winding (startT132 _)) ?_ .refl
      refine .trans ?_ (acts_startT132 _)
      exact Acts.stop 2 rfl
  | denied =>
    simp only [receiveQueued, winding_tellDenied, winding_moveTo]
    exact acts_leaveQueue t
  | queuePositionInfo => exact Acts.stop 2 rfl
  | idle =>
    simp only [receiveQueued, winding_moveTo]
    exact acts_leaveQueue t
  | revoke =>
    simp only [receiveQueued]
    split
    · refine .trans ?_ (acts_startRelease _)
      rw [winding_tellRevoked]
      exact acts_leaveQueue t
    · exact .refl
  | request | release | taken | queuePositionRequest | ack => exact .refl

private theorem acts_receiveHasPermission (message : Message) (t : Turn Participant) :
    Acts (winding t) (winding (receiveHasPermission message t)) := by
  cases message with
  | revoke =>
    refine .trans ?_ (acts_startRelease _)
    rw [winding_tellRevoked]
  | taken =>
    simp only [receiveHasPermission]
    split
    · exact .refl
    split
    · exact .refl
    · rw [loseFloor, winding_moveTo]
      exact .refl
  | idle =>
    simp only [receiveHasPermission, loseFloor, winding_moveTo]
    exact .refl
  | request | release | granted | denied | queuePositionInfo | queuePositionRequest | ack =>
    exact .refl

private theorem acts_receivePendingRelease (message : Message) (t : Turn Participant) :
    Acts (winding t) (winding (receivePendingRelease message t)) := by
  cases message with
  | idle | taken | denied =>
    simp only [receivePendingRelease, winding_moveTo]
    exact Acts.stop 0 rfl
  | request | release | granted | revoke | queuePositionInfo | queuePositionRequest | ack =>
    exact .refl

private theorem acts_receiveIdle (message : Message) (t : Turn Participant) :
    Acts (winding t) (winding (receiveIdle message t)) := by
  cases message with
  | granted =>
    simp only [receiveIdle]
    split
    · exact acts_startRelease t
    · exact .refl
  | request | release | idle | taken | denied | revoke | queuePositionInfo
  | queuePositionRequest | ack => exact .refl

theorem acts_receive (message : Message) (t : Turn Participant) :
    Acts (winding t) (winding (receive message t)) := by
  have hacked : winding (acknowledge message t) = winding t := winding_acknowledge message
  simp only [receive]
  split
  · exact .refl
  all_goals rw [← hacked]
  · exact acts_receivePendingRequest _ _
  · exact acts_receiveQueued _ _
  · exact acts_receiveHasPermission _ _
  · exact acts_receivePendingRelease _ _
  · exact acts_receiveIdle _ _

private theorem acts_expireT101 (t : Turn Participant) :
    Acts (winding t) (winding (expireT101 t)) := by
  simp only [expireT101]
  split
  · split
    · rw [winding_tellFailure, winding_moveTo]
      exact .refl
    · refine .trans ?_ (acts_startT101 _)
      exact .refl
  · exact .refl

private theorem acts_expireT100 (t : Turn Participant) :
    Acts (winding t) (winding (expireT100 t)) := by
  simp only [expireT100]
  split
  · split
    · rw [winding_tellFailure, winding_moveTo]
      exact .refl
    · refine .trans ?_ (acts_startT100 _)
      exact .refl
  · exact .refl

private theorem acts_expireT104 (t : Turn Participant) :
    Acts (winding t) (winding (expireT104 t)) := by
  simp only [expireT104]
  split
  · split
    · rw [winding_tellFailure, winding_moveTo]
      refine .trans ?_ (acts_leaveQueue _)
      exact .refl
    · refine .trans ?_ (acts_startT104 _)
      exact .refl
  · exact .refl

private theorem acts_expireT132 (t : Turn Participant) :
    Acts (winding t) (winding (expireT132 t)) := by
  simp only [expireT132]
  split
  · refine .trans ?_ (acts_startRelease _)
    exact .refl
  · exact .refl

/-- A ticket that comes due is offered to every timer; then the turn takes its course. -/
theorem acts_expire {ssrc : Ssrc} {config : ParticipantConfig} (ticket : Ticket)
    (hmake : t.machine.timers.map Timer.make = makes ssrc config) :
    Acts ⟨t.machine.timers.map (Timer.offer ticket), t.out.timers⟩ (winding (expire ticket t)) := by
  have hdistinct := distinct_timers hmake
  have hids := ids_timers hmake
  simp only [timers, List.map_cons, List.map_nil, List.cons.injEq, and_true] at hids
  obtain ⟨h100, h101, h104, h132⟩ := hids
  simp only [expire]
  split
  · next hid =>
    rw [apply_ite winding]
    exact Acts.offer (i := 1) hdistinct rfl (hid.trans h101.symm) (fun _ => acts_expireT101 _) rfl
  · next hid =>
    rw [apply_ite winding]
    exact Acts.offer (i := 0) hdistinct rfl (hid.trans h100.symm) (fun _ => acts_expireT100 _) rfl
  · next hid =>
    rw [apply_ite winding]
    exact Acts.offer (i := 2) hdistinct rfl (hid.trans h104.symm) (fun _ => acts_expireT104 _) rfl
  · next hid =>
    rw [apply_ite winding]
    exact Acts.offer (i := 3) hdistinct rfl (hid.trans h132.symm) (fun _ => acts_expireT132 _) rfl
  all_goals
    next hid =>
    rw [map_offer_of_not_mem (by rw [ids_timers hmake, hid]; decide)]
    exact .refl

theorem acts_beginRelease (t : Turn Participant) :
    Acts (winding t) (winding (beginRelease t)) := by
  simp only [beginRelease, winding_moveTo]
  exact Acts.stopAll t.machine.timers t.out.timers

/-- Whatever happens to a participant but a ticket, its timers are only stopped and started. -/
theorem acts_handle {p : Participant} {input : Input} (hinput : ∀ ticket, input ≠ .expire ticket) :
    Acts ⟨p.timers, []⟩ (winding (p.handle input)) := by
  cases input with
  | initialized => exact Acts.of_eq (winding_callInitialized (t := ⟨p, {}⟩)).symm
  | established granted priority =>
    exact Acts.of_eq (winding_callEstablished (t := ⟨p, {}⟩) _ _).symm
  | push => exact acts_pushToTalk ⟨p, {}⟩
  | release => exact acts_releaseToTalk ⟨p, {}⟩
  | accept => exact acts_acceptGrant ⟨p, {}⟩
  | askPosition => exact acts_askQueuePosition ⟨p, {}⟩
  | receive message => exact acts_receive message ⟨p, {}⟩
  | expire ticket => exact absurd rfl (hinput ticket)
  | beginRelease => exact acts_beginRelease ⟨p, {}⟩
  | stopTimers => exact Acts.stopAll p.timers []
  | setDual | setIndicator | finishRelease => exact .refl

end FloorControl.Participant
