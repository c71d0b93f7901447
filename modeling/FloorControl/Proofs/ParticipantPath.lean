import FloorControl.Proofs.ParticipantWaits
import FloorControl.Proofs.Replay

/-!
# The path of a participant

In every turn a participant changes its state at most once, along one of the edges of
`ParticipantState.next`, and tells so; it tells that it may talk exactly when it enters the state in
which it may. Everything else that it tells is about the floor and no change of state. What it is to
the call stays. Only the set-up and the end of the call lead out of the first state or back to it.
-/

namespace FloorControl

structure Standing where
  priority : Priority
  originator : Bool
  receiveOnly : Bool

namespace Participant

def standing (p : Participant) : Standing := ⟨p.priority, p.originator, p.receiveOnly⟩

/-- What a participant takes by itself: the call is neither set up nor taken down at it, and it
keeps its priority. -/
structure Input.Solo (p : Participant) (input : Input) : Prop where
  setUp : input ≠ .initialized
  ended : input ≠ .beginRelease
  ongoing : input ≠ .stopTimers
  priority : ∀ granted priority, input = .established granted priority → priority = p.priority

variable {next : ParticipantState → List ParticipantState} {t u : Turn Participant}

/-- A stretch of a turn in which the state stays, and nothing is told of states. -/
structure Still (t u : Turn Participant) : Prop where
  callId : u.machine.callId = t.machine.callId
  ssrc : u.machine.ssrc = t.machine.ssrc
  standing : u.machine.standing = t.machine.standing
  state : u.machine.state = t.machine.state
  said : notices u.out.events = notices t.out.events

/-- A stretch of a turn in which the state changes at most once, and what is told of it. -/
structure Announces (next : ParticipantState → List ParticipantState) (t u : Turn Participant) :
    Prop where
  ssrc : u.machine.ssrc = t.machine.ssrc
  standing : u.machine.standing = t.machine.standing
  said : notices u.out.events = notices t.out.events ++
    announce t.machine.callId t.machine.ssrc t.machine.state u.machine.state
  edge : u.machine.state = t.machine.state ∨ u.machine.state ∈ next t.machine.state

namespace Still

theorem refl (t : Turn Participant) : Still t t := ⟨rfl, rfl, rfl, rfl, rfl⟩

theorem update (h : Still t u) (f : Participant → Participant)
    (hcall : (f u.machine).callId = u.machine.callId) (hssrc : (f u.machine).ssrc = u.machine.ssrc)
    (hstanding : (f u.machine).standing = u.machine.standing)
    (hstate : (f u.machine).state = u.machine.state) : Still t (u.update f) :=
  ⟨hcall.trans h.callId, hssrc.trans h.ssrc, hstanding.trans h.standing, hstate.trans h.state,
    h.said⟩

theorem send (h : Still t u) (message : Message) : Still t (send message u) :=
  ⟨h.callId, h.ssrc, h.standing, h.state, h.said⟩

theorem startT100 (h : Still t u) : Still t (startT100 u) :=
  ⟨h.callId, h.ssrc, h.standing, h.state, h.said⟩

theorem startT101 (h : Still t u) : Still t (startT101 u) :=
  ⟨h.callId, h.ssrc, h.standing, h.state, h.said⟩

theorem startT104 (h : Still t u) : Still t (startT104 u) :=
  ⟨h.callId, h.ssrc, h.standing, h.state, h.said⟩

theorem startT132 (h : Still t u) : Still t (startT132 u) :=
  ⟨h.callId, h.ssrc, h.standing, h.state, h.said⟩

theorem tell (h : Still t u) (event : FloorEvent) (hplain : event.noteworthy = false) :
    Still t (u.tell event) :=
  ⟨h.callId, h.ssrc, h.standing, h.state, by simp [hplain, h.said]⟩

theorem acknowledge (h : Still t u) (message : Message) : Still t (acknowledge message u) := by
  simp only [Participant.acknowledge]
  split
  · exact h.send _
  · exact h

theorem announces (h : Still t u) : Announces next t u :=
  ⟨h.ssrc, h.standing, by simp [h.said, h.state], .inl h.state⟩

/-- The state changes, to one without permission. -/
theorem changeTo (h : Still t u) {after : ParticipantState} (hplain : after ≠ .hasPermission)
    (hmoves : t.machine.state ≠ after) (hedge : after ∈ next t.machine.state) :
    Announces next t (moveTo after u) := by
  have hmoves' : u.machine.state ≠ after := h.state.symm ▸ hmoves
  simp only [Participant.moveTo, if_neg hmoves']
  refine ⟨h.ssrc, h.standing, ?_, .inr hedge⟩
  simp [h.said, h.state, h.callId, h.ssrc, FloorEvent.noteworthy, announce, hmoves, hplain]

/-- The state changes while the call is set up. -/
theorem moveTo (h : Still t u) {after : ParticipantState} (hplain : after ≠ .hasPermission)
    (hedge : after ∈ t.machine.state.turnover) :
    Announces ParticipantState.turnover t (moveTo after u) :=
  h.changeTo hplain (fun heq => ParticipantState.not_mem_next _
    (heq ▸ ParticipantState.turnover_subset _ hedge)) hedge

/-- Whoever enters the state with permission is told that it may talk. -/
theorem takeFloor (h : Still t u) (hedge : .hasPermission ∈ t.machine.state.turnover) :
    Announces ParticipantState.turnover t (takeFloor u) := by
  have hmoves : t.machine.state ≠ .hasPermission := fun hstate =>
    ParticipantState.not_mem_next _ (ParticipantState.turnover_subset _ (hstate ▸ hedge))
  refine ⟨?_, ?_, ?_, .inr (by simpa using hedge)⟩
  · simp [h.ssrc]
  · rw [machine_takeFloor]
    exact h.standing
  · simp [Participant.takeFloor, tellGranted, Participant.moveTo, h.said, h.state, h.callId,
      h.ssrc, FloorEvent.noteworthy, announce, hmoves]

theorem startRelease (h : Still t u) (hedge : .pendingRelease ∈ t.machine.state.turnover) :
    Announces ParticipantState.turnover t (startRelease u) := by
  refine moveTo ?_ (by decide) hedge
  apply startT100
  apply update _ _ rfl rfl rfl rfl
  apply send
  exact h.update _ rfl rfl rfl rfl

end Still

theorem Announces.mono {wider : ParticipantState → List ParticipantState}
    (hwider : ∀ s, next s ⊆ wider s) (h : Announces next t u) : Announces wider t u :=
  ⟨h.ssrc, h.standing, h.said, h.edge.imp_right (hwider _ ·)⟩

/-- What a participant tells besides its state may come later. -/
theorem Announces.tell (h : Announces next t u) (event : FloorEvent)
    (hplain : event.noteworthy = false) : Announces next t (u.tell event) :=
  ⟨h.ssrc, h.standing, by simpa [hplain] using h.said, h.edge⟩

private theorem announces_receivePendingRequest (message : Message) (h : Still t u)
    (hstate : t.machine.state = .pendingRequest) :
    Announces ParticipantState.turnover t (receivePendingRequest message u) := by
  have hedges : t.machine.state.turnover = [.hasPermission, .queued, .idle, .pendingRelease] := by
    rw [hstate]; rfl
  cases message with
  | granted => exact (h.update _ rfl rfl rfl rfl).takeFloor (by simp [hedges])
  | denied =>
    exact ((h.update _ rfl rfl rfl rfl).moveTo (by decide) (by simp [hedges])).tell _ rfl
  | queuePositionInfo => exact (h.update _ rfl rfl rfl rfl).moveTo (by decide) (by simp [hedges])
  | taken =>
    simp only [receivePendingRequest]
    exact (h.update _ rfl rfl rfl rfl).announces
  | request | release | idle | revoke | queuePositionRequest | ack => exact h.announces

private theorem announces_receiveQueued (message : Message) (h : Still t u)
    (hstate : t.machine.state = .queued) :
    Announces ParticipantState.turnover t (receiveQueued message u) := by
  have hedges : t.machine.state.turnover = [.hasPermission, .idle, .pendingRelease] := by
    rw [hstate]; rfl
  cases message with
  | granted =>
    simp only [receiveQueued]
    split
    · exact h.announces
    · exact ((h.update _ rfl rfl rfl rfl).startT132.tell _ rfl).announces
  | denied =>
    exact ((h.update _ rfl rfl rfl rfl).moveTo (by decide) (by simp [hedges])).tell _ rfl
  | idle => exact (h.update _ rfl rfl rfl rfl).moveTo (by decide) (by simp [hedges])
  | revoke =>
    simp only [receiveQueued]
    split
    · exact ((h.update _ rfl rfl rfl rfl).tell _ rfl).startRelease (by simp [hedges])
    · exact h.announces
  | queuePositionInfo | taken =>
    simp only [receiveQueued]
    exact (h.update _ rfl rfl rfl rfl).announces
  | request | release | queuePositionRequest | ack => exact h.announces

private theorem announces_receiveHasPermission (message : Message) (h : Still t u)
    (hstate : t.machine.state = .hasPermission) :
    Announces ParticipantState.turnover t (receiveHasPermission message u) := by
  have hedges : t.machine.state.turnover = [.pendingRelease, .idle] := by
    rw [hstate]; rfl
  have hloses (talker : Option Ssrc) : Announces ParticipantState.turnover t (loseFloor talker u) :=
    (h.update _ rfl rfl rfl rfl).moveTo (by decide) (by simp [hedges])
  cases message with
  | revoke => exact (h.tell _ rfl).startRelease (by simp [hedges])
  | taken =>
    simp only [receiveHasPermission]
    split
    · exact (h.update _ rfl rfl rfl rfl).announces
    · split
      · exact (h.update _ rfl rfl rfl rfl).announces
      · exact hloses _
  | idle => exact hloses _
  | request | granted | denied | release | queuePositionRequest | queuePositionInfo | ack =>
    exact h.announces

private theorem announces_receivePendingRelease (message : Message) (h : Still t u)
    (hstate : t.machine.state = .pendingRelease) :
    Announces ParticipantState.turnover t (receivePendingRelease message u) := by
  have hedges : t.machine.state.turnover = [.idle] := by rw [hstate]; rfl
  cases message with
  | idle | taken | denied =>
    exact (h.update _ rfl rfl rfl rfl).moveTo (by decide) (by simp [hedges])
  | request | granted | release | revoke | queuePositionRequest | queuePositionInfo | ack =>
    exact h.announces

private theorem announces_receiveIdle (message : Message) (h : Still t u)
    (hstate : t.machine.state = .idle) :
    Announces ParticipantState.turnover t (receiveIdle message u) := by
  cases message with
  | granted =>
    simp only [receiveIdle]
    split
    · exact h.startRelease (by rw [hstate]; decide)
    · exact h.announces
  | taken | idle =>
    simp only [receiveIdle]
    exact (h.update _ rfl rfl rfl rfl).announces
  | request | denied | release | revoke | queuePositionRequest | queuePositionInfo | ack =>
    exact h.announces

theorem announces_receive (message : Message) (t : Turn Participant) :
    Announces ParticipantState.turnover t (receive message t) := by
  have hacked : Still t (acknowledge message t) := (Still.refl t).acknowledge message
  simp only [receive]
  split
  · exact (Still.refl t).announces
  · next hstate => exact announces_receivePendingRequest message hacked hstate
  · next hstate => exact announces_receiveQueued message hacked hstate
  · next hstate => exact announces_receiveHasPermission message hacked hstate
  · next hstate => exact announces_receivePendingRelease message hacked hstate
  · next hstate => exact announces_receiveIdle message hacked hstate

/-- A ticket makes a participant repeat what it has sent or give up. The user who has not accepted
the floor was waiting in the queue. -/
theorem announces_expire (ticket : Ticket)
    (hpending : t.machine.grantPending = true → t.machine.state = .queued) :
    Announces ParticipantState.turnover t (expire ticket t) := by
  have hstart := Still.refl t
  simp only [expire]
  split
  · split
    · have hrests := hstart.update (fun p => { p with t101 := p.t101.rest }) rfl rfl rfl rfl
      have hcounted := hrests.update (fun p => { p with c101 := p.c101.increment }) rfl rfl rfl rfl
      simp only [expireT101]
      split
      · next hstate =>
        split
        · have hstate : t.machine.state = .pendingRequest := hstate
          exact (hcounted.moveTo (by decide) (by rw [hstate]; decide)).tell _ rfl
        · exact (hcounted.send _).startT101.announces
      · exact (hstart.update _ rfl rfl rfl rfl).announces
    · exact hstart.announces
  · split
    · have hrests := hstart.update (fun p => { p with t100 := p.t100.rest }) rfl rfl rfl rfl
      have hcounted := hrests.update (fun p => { p with c100 := p.c100.increment }) rfl rfl rfl rfl
      simp only [expireT100]
      split
      · next hstate =>
        split
        · have hstate : t.machine.state = .pendingRelease := hstate
          exact (hcounted.moveTo (by decide) (by rw [hstate]; decide)).tell _ rfl
        · exact (hcounted.send _).startT100.announces
      · exact (hstart.update _ rfl rfl rfl rfl).announces
    · exact hstart.announces
  · split
    · have hrests := hstart.update (fun p => { p with t104 := p.t104.rest }) rfl rfl rfl rfl
      have hcounted := hrests.update (fun p => { p with c104 := p.c104.increment }) rfl rfl rfl rfl
      simp only [expireT104]
      split
      · next hstate =>
        split
        · have hstate : t.machine.state = .queued := hstate
          exact ((hcounted.update _ rfl rfl rfl rfl).moveTo (by decide)
            (by rw [hstate]; decide)).tell _ rfl
        · exact (hcounted.send _).startT104.announces
      · exact (hstart.update _ rfl rfl rfl rfl).announces
    · exact hstart.announces
  · split
    · have hrests := hstart.update (fun p => { p with t132 := p.t132.rest }) rfl rfl rfl rfl
      simp only [expireT132]
      split
      · next hwaits =>
        have hstate : t.machine.state = .queued := hpending hwaits
        exact ((hrests.update _ rfl rfl rfl rfl).tell _ rfl).startRelease (by rw [hstate]; decide)
      · exact hrests.announces
    · exact hstart.announces
  all_goals exact hstart.announces

/-- The end of the call leads back to where every party begins. -/
theorem state_beginRelease (t : Turn Participant) :
    (beginRelease t).machine.state = .startStop := by
  simp only [beginRelease, moveTo]
  split
  · next hstate => exact hstate
  · rfl

theorem announces_beginRelease (t : Turn Participant) :
    Announces ParticipantState.next t (beginRelease t) := by
  have hstopped := (Still.refl t).update (fun p =>
    { p.stopTimers with
      grantPending := false, overriding := false, overridden := false
      position := none, talker := none }) rfl rfl rfl rfl
  by_cases hstate : t.machine.state = .startStop
  · have hstays : beginRelease t = _ := if_pos hstate
    rw [hstays]
    exact hstopped.announces
  · refine hstopped.changeTo (by decide) hstate ?_
    revert hstate
    cases t.machine.state <;> decide

/-- The set-up leads out of the state in which every party begins. -/
theorem announces_callInitialized (t : Turn Participant) :
    Announces ParticipantState.next t (callInitialized t) := by
  simp only [callInitialized]
  split
  · next hstate =>
    exact ((Still.refl t).update _ rfl rfl rfl rfl).changeTo (by decide) (by rw [hstate]; decide)
      (by rw [hstate]; decide)
  · exact (Still.refl t).announces

theorem state_callInitialized (t : Turn Participant) :
    (callInitialized t).machine.state ≠ .startStop := by
  simp only [callInitialized]
  split
  · rw [machine_moveTo]
    exact (by decide : ParticipantState.idle ≠ .startStop)
  · next hset => exact hset

theorem Input.Solo.established (granted : Bool) (p : Participant) :
    (Input.established granted p.priority).Solo p :=
  ⟨nofun, nofun, nofun, by rintro _ _ ⟨⟩; rfl⟩

/-- Whatever a participant takes by itself, it tells of its state what becomes of it, and nothing
else. -/
theorem announces_solo {p : Participant} {input : Input} (hp : p.Waits) (hsolo : input.Solo p) :
    Announces ParticipantState.turnover ⟨p, {}⟩ (p.handle input) := by
  have hstart := Still.refl (⟨p, {}⟩ : Turn Participant)
  cases input with
  | initialized => exact absurd rfl hsolo.setUp
  | beginRelease => exact absurd rfl hsolo.ended
  | stopTimers => exact absurd rfl hsolo.ongoing
  | established granted priority =>
    have hkept : ({ p with priority := priority } : Participant).standing = p.standing := by
      rw [hsolo.priority granted priority rfl]
    simp only [handle, callEstablished]
    split
    · next hgranted =>
      have hstate : p.state = .idle := of_decide_eq_true (Bool.and_eq_true .. ▸ hgranted).2
      exact (hstart.update _ rfl rfl hkept rfl).takeFloor (by rw [hstate]; decide)
    · exact (hstart.update _ rfl rfl hkept rfl).announces
  | push =>
    simp only [handle, pushToTalk]
    split
    · exact (hstart.tell _ rfl).announces
    · split
      · next hstate =>
        have hstate : p.state = .idle := hstate
        refine Still.moveTo ?_ (by decide) (by rw [hstate]; decide)
        exact ((hstart.send _).update _ rfl rfl rfl rfl).startT101
      · exact hstart.announces
  | release =>
    simp only [handle, releaseToTalk]
    split
    · next hstate =>
      have hstate : p.state = .hasPermission := hstate
      exact hstart.startRelease (by rw [hstate]; decide)
    · next hstate =>
      have hstate : p.state = .pendingRequest := hstate
      exact (hstart.update _ rfl rfl rfl rfl).startRelease (by rw [hstate]; decide)
    · next hstate =>
      have hstate : p.state = .queued := hstate
      exact (hstart.update _ rfl rfl rfl rfl).startRelease (by rw [hstate]; decide)
    all_goals exact hstart.announces
  | accept =>
    simp only [handle, acceptGrant]
    split
    · next hwaits =>
      simp only [Bool.and_eq_true, decide_eq_true_eq] at hwaits
      exact (hstart.update _ rfl rfl rfl rfl).takeFloor (by rw [hwaits.1]; decide)
    · exact hstart.announces
  | askPosition =>
    simp only [handle, askQueuePosition]
    split
    · exact ((hstart.send _).update _ rfl rfl rfl rfl).startT104.announces
    · exact hstart.announces
  | receive message => exact announces_receive message _
  | expire ticket => exact announces_expire ticket hp.pending
  | setDual | setIndicator | finishRelease =>
    exact Still.announces ⟨rfl, rfl, rfl, rfl, rfl⟩

end Participant
end FloorControl
