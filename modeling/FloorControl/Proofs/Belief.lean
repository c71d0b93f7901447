import FloorControl.Proofs.ParticipantConduct
import FloorControl.Proofs.Words

/-!
# Who a participant takes for the talker

A participant learns from word of the floor who talks, and is its own witness when it takes the
floor itself. This module says for every step of a participant what becomes of the talker that it
knows and of the mark that somebody talks over it: first for all that is no word of the floor, then
for word, which a participant that waits for the answer to its request does not heed when it says
that the floor is idle.
-/

namespace FloorControl

namespace Message

def named? : Message → Option Ssrc
  | .taken named .. => some named
  | _ => none

def tellsSecond (ssrc : Ssrc) : Message → Bool
  | .taken named dual _ => dual && named ≠ ssrc
  | _ => false

end Message

namespace Participant

variable {p q : Participant} {input : Input} {messages : List Envelope}

/-- Whether the input is word of the floor, which a participant whose call is not set up drops. -/
def Input.isWord : Input → Bool
  | .receive message => message.isWord
  | _ => false

/-- What becomes of the talker that a participant knows, without word of the floor. -/
inductive Minds (p : Participant) (input : Input) (messages : List Envelope) (q : Participant) :
    Prop
  /-- It knows what it knew. -/
  | stays : q.talker = p.talker → q.overridden = p.overridden →
      (q.state = .hasPermission ↔ p.state = .hasPermission) → Minds p input messages q
  /-- It takes the floor itself. -/
  | takes : p.state ≠ .hasPermission → p.grantPending = true ∨ input.grants = true →
      q.talker = some p.ssrc → q.overridden = p.overridden → q.state = .hasPermission →
      Minds p input messages q
  /-- It gives the floor, or the wish for it, back. -/
  | releases : q.talker = p.talker → q.overridden = false → q.state ≠ .hasPermission →
      letterFrom p.ssrc (.release p.ssrc) ∈ messages → Minds p input messages q

structure Unheard (p : Participant) (input : Input) (messages : List Envelope) (q : Participant) :
    Prop where
  started : q.state = .startStop ↔ p.state = .startStop
  pending : q.grantPending = true → p.grantPending = true ∨ input.grants = true
  minds : Minds p input messages q

theorem Unheard.stays (hstarted : q.state = .startStop ↔ p.state = .startStop)
    (hpending : q.grantPending = true → p.grantPending = true ∨ input.grants = true)
    (htalker : q.talker = p.talker) (hoverridden : q.overridden = p.overridden)
    (hpermission : q.state = .hasPermission ↔ p.state = .hasPermission) :
    Unheard p input messages q :=
  ⟨hstarted, hpending, .stays htalker hoverridden hpermission⟩

theorem Unheard.same : Unheard p input messages p := .stays Iff.rfl .inl rfl rfl Iff.rfl

/-- Giving the floor back, from any state but those before the call is set up. -/
private theorem unheard_startRelease {t : Turn Participant} (hssrc : t.machine.ssrc = p.ssrc)
    (hstarted : p.state ≠ .startStop) (htalker : t.machine.talker = p.talker)
    (hpending : t.machine.grantPending = true → p.grantPending = true) :
    Unheard p input (startRelease t).out.messages (startRelease t).machine := by
  rw [machine_startRelease, messages_startRelease]
  refine ⟨by simp [hstarted], fun h => .inl (hpending h), .releases htalker rfl (by simp) ?_⟩
  exact List.mem_append_right _ (by simp [letterFrom, hssrc])

/-- Taking the floor, from any state but those before the call is set up. -/
private theorem unheard_takeFloor {t : Turn Participant} (hssrc : t.machine.ssrc = p.ssrc)
    (hstarted : p.state ≠ .startStop) (hnot : p.state ≠ .hasPermission)
    (hgrant : p.grantPending = true ∨ input.grants = true)
    (hoverridden : t.machine.overridden = p.overridden) :
    Unheard p input messages (takeFloor t).machine := by
  rw [machine_takeFloor]
  exact ⟨by simp [hstarted], fun _ => hgrant, .takes hnot hgrant (by simp [hssrc]) hoverridden rfl⟩

private theorem unheard_pushToTalk :
    Unheard p .push (pushToTalk ⟨p, {}⟩).out.messages (pushToTalk ⟨p, {}⟩).machine := by
  simp only [pushToTalk]
  split
  · exact .same
  split
  · next hstate =>
    rw [machine_moveTo]
    exact .stays (by simp [hstate]) .inl rfl rfl (by simp [hstate])
  · exact .same

private theorem unheard_releaseToTalk :
    Unheard p .release (releaseToTalk ⟨p, {}⟩).out.messages (releaseToTalk ⟨p, {}⟩).machine := by
  simp only [releaseToTalk]
  split
  · next hstate => exact unheard_startRelease rfl (by simp [hstate]) rfl id
  · next hstate => exact unheard_startRelease rfl (by simp [hstate]) rfl id
  · next hstate => exact unheard_startRelease rfl (by simp [hstate]) rfl (by simp [leaveQueue])
  all_goals exact .same

private theorem unheard_acceptGrant :
    Unheard p .accept (acceptGrant ⟨p, {}⟩).out.messages (acceptGrant ⟨p, {}⟩).machine := by
  simp only [acceptGrant]
  split
  · next h =>
    simp only [Bool.and_eq_true, decide_eq_true_eq] at h
    exact unheard_takeFloor rfl (by simp [h.1]) (by simp [h.1]) (.inl h.2) rfl
  · exact .same

private theorem unheard_askQueuePosition :
    Unheard p .askPosition (askQueuePosition ⟨p, {}⟩).out.messages
      (askQueuePosition ⟨p, {}⟩).machine := by
  simp only [askQueuePosition]
  split
  · exact .stays Iff.rfl .inl rfl rfl Iff.rfl
  · exact .same

private theorem unheard_receivePendingRequest {t : Turn Participant} {message : Message}
    (hp : t.machine = p) (hstate : p.state = .pendingRequest) (hword : message.isWord = false) :
    Unheard p (.receive message) (receivePendingRequest message t).out.messages
      (receivePendingRequest message t).machine := by
  subst hp
  cases message with
  | granted named priority duration dual ack =>
    exact unheard_takeFloor rfl (by simp [hstate]) (by simp [hstate]) (.inr rfl) rfl
  | denied named cause ack =>
    simp only [receivePendingRequest, machine_tellDenied, machine_moveTo, Turn.machine_update]
    exact .stays (by simp [hstate]) .inl rfl rfl (by simp [hstate])
  | queuePositionInfo named position priority =>
    simp only [receivePendingRequest, machine_moveTo, Turn.machine_update]
    exact .stays (by simp [hstate]) .inl rfl rfl (by simp [hstate])
  | taken | idle => cases hword
  | request | release | revoke | queuePositionRequest | ack => exact .same

private theorem unheard_receiveQueued {t : Turn Participant} {message : Message}
    (hp : t.machine = p) (hstate : p.state = .queued) (hword : message.isWord = false) :
    Unheard p (.receive message) (receiveQueued message t).out.messages
      (receiveQueued message t).machine := by
  subst hp
  cases message with
  | granted named priority duration dual ack =>
    simp only [receiveQueued]
    split
    · exact .same
    · exact .stays Iff.rfl (fun _ => .inr rfl) rfl rfl Iff.rfl
  | denied named cause ack =>
    simp only [receiveQueued, machine_tellDenied, machine_moveTo, Turn.machine_update, leaveQueue]
    exact .stays (by simp [hstate]) (by simp) rfl rfl (by simp [hstate])
  | queuePositionInfo named position priority => exact .stays Iff.rfl .inl rfl rfl Iff.rfl
  | revoke named cause ack =>
    simp only [receiveQueued]
    split
    · exact unheard_startRelease rfl (by simp [hstate]) rfl (by simp [leaveQueue])
    · exact .same
  | taken | idle => cases hword
  | request | release | queuePositionRequest | ack => exact .same

private theorem unheard_receiveHasPermission {t : Turn Participant} {message : Message}
    (hp : t.machine = p) (hstate : p.state = .hasPermission) (hword : message.isWord = false) :
    Unheard p (.receive message) (receiveHasPermission message t).out.messages
      (receiveHasPermission message t).machine := by
  subst hp
  cases message with
  | revoke named cause ack => exact unheard_startRelease rfl (by simp [hstate]) rfl id
  | taken | idle => cases hword
  | _ => exact .same

private theorem unheard_receivePendingRelease {t : Turn Participant} {message : Message}
    (hp : t.machine = p) (hstate : p.state = .pendingRelease) (hword : message.isWord = false) :
    Unheard p (.receive message) (receivePendingRelease message t).out.messages
      (receivePendingRelease message t).machine := by
  subst hp
  cases message with
  | denied named cause ack =>
    simp only [receivePendingRelease, machine_moveTo, Turn.machine_update]
    exact .stays (by simp [hstate]) .inl rfl rfl (by simp [hstate])
  | taken | idle => cases hword
  | _ => exact .same

private theorem unheard_receiveIdle {t : Turn Participant} {message : Message}
    (hp : t.machine = p) (hstate : p.state = .idle) (hword : message.isWord = false) :
    Unheard p (.receive message) (receiveIdle message t).out.messages
      (receiveIdle message t).machine := by
  subst hp
  cases message with
  | granted named priority duration dual ack =>
    simp only [receiveIdle]
    split
    · exact unheard_startRelease rfl (by simp [hstate]) rfl id
    · exact .same
  | taken | idle => cases hword
  | _ => exact .same

private theorem unheard_receive (message : Message)
    (hword : message.isWord = false ∨ p.state = .startStop) :
    Unheard p (.receive message) (receive message ⟨p, {}⟩).out.messages
      (receive message ⟨p, {}⟩).machine := by
  have hp : (acknowledge message ⟨p, {}⟩).machine = p := machine_acknowledge message
  simp only [receive]
  split
  · exact .same
  · next hstate =>
    exact unheard_receivePendingRequest hp hstate (hword.resolve_right (by simp [hstate]))
  · next hstate => exact unheard_receiveQueued hp hstate (hword.resolve_right (by simp [hstate]))
  · next hstate =>
    exact unheard_receiveHasPermission hp hstate (hword.resolve_right (by simp [hstate]))
  · next hstate =>
    exact unheard_receivePendingRelease hp hstate (hword.resolve_right (by simp [hstate]))
  · next hstate => exact unheard_receiveIdle hp hstate (hword.resolve_right (by simp [hstate]))

private theorem unheard_expire (ticket : Ticket)
    (hpending : p.grantPending = true → p.state = .queued) :
    Unheard p (.expire ticket) (expire ticket ⟨p, {}⟩).out.messages
      (expire ticket ⟨p, {}⟩).machine := by
  simp only [expire]
  split
  · split
    · simp only [expireT101]
      split
      · next hstate =>
        have hstate : p.state = .pendingRequest := hstate
        split
        · simp only [machine_tellFailure, machine_moveTo, Turn.machine_update]
          exact .stays (by simp [hstate]) .inl rfl rfl (by simp [hstate])
        · exact .stays Iff.rfl .inl rfl rfl Iff.rfl
      · exact .stays Iff.rfl .inl rfl rfl Iff.rfl
    · exact .same
  · split
    · simp only [expireT100]
      split
      · next hstate =>
        have hstate : p.state = .pendingRelease := hstate
        split
        · simp only [machine_tellFailure, machine_moveTo, Turn.machine_update]
          exact .stays (by simp [hstate]) .inl rfl rfl (by simp [hstate])
        · exact .stays Iff.rfl .inl rfl rfl Iff.rfl
      · exact .stays Iff.rfl .inl rfl rfl Iff.rfl
    · exact .same
  · split
    · simp only [expireT104]
      split
      · next hstate =>
        have hstate : p.state = .queued := hstate
        split
        · simp only [machine_tellFailure, machine_moveTo, Turn.machine_update, leaveQueue]
          exact .stays (by simp [hstate]) (by simp) rfl rfl (by simp [hstate])
        · exact .stays Iff.rfl .inl rfl rfl Iff.rfl
      · exact .stays Iff.rfl .inl rfl rfl Iff.rfl
    · exact .same
  · split
    · simp only [expireT132]
      split
      · next hgrant =>
        exact unheard_startRelease rfl (by simp [hpending hgrant]) rfl (by simp)
      · exact .stays Iff.rfl .inl rfl rfl Iff.rfl
    · exact .same
  all_goals exact .same

/-- Whatever comes but word of the floor, as long as the call is not taken down. -/
theorem unheard_handle (hword : input.isWord = false ∨ p.state = .startStop)
    (hsetUp : input ≠ .initialized) (hongoing : input ≠ .beginRelease)
    (hpending : p.grantPending = true → p.state = .queued) :
    Unheard p input (p.handle input).out.messages (p.handle input).machine := by
  cases input with
  | initialized => exact absurd rfl hsetUp
  | beginRelease => exact absurd rfl hongoing
  | established granted priority =>
    simp only [handle, callEstablished]
    split
    · next h =>
      simp only [Bool.and_eq_true, decide_eq_true_eq] at h
      have hstate : p.state = .idle := h.2
      exact unheard_takeFloor rfl (by simp [hstate]) (by simp [hstate]) (.inr h.1) rfl
    · exact .stays Iff.rfl .inl rfl rfl Iff.rfl
  | push => exact unheard_pushToTalk
  | release => exact unheard_releaseToTalk
  | accept => exact unheard_acceptGrant
  | askPosition => exact unheard_askQueuePosition
  | receive message => exact unheard_receive message hword
  | expire ticket => exact unheard_expire ticket hpending
  | setDual | setIndicator | finishRelease | stopTimers =>
    exact .stays Iff.rfl .inl rfl rfl Iff.rfl

/-- What becomes of the talker that a participant knows when it hears word of the floor. -/
inductive Heeds (p : Participant) (message : Message) (q : Participant) : Prop
  /-- The word is that it has the floor, which it knows. -/
  | own : p.state = .hasPermission → message.named? = some p.ssrc → q.state = .hasPermission →
      q.talker = p.talker → q.overridden = false → Heeds p message q
  /-- Somebody talks over it. -/
  | spokenOver : p.state = .hasPermission → message.tellsSecond p.ssrc = true →
      q.state = .hasPermission → q.talker = p.talker → q.overridden = true → Heeds p message q
  /-- It takes the talker from the word. -/
  | follows : (p.state = .hasPermission → message.tellsSecond p.ssrc = false) →
      (p.state = .pendingRequest → message.isIdle = false) → q.state ≠ .hasPermission →
      q.talker = message.named? → (q.overridden = true → p.state ≠ .hasPermission) →
      (q.overridden = true → p.overridden = true) → Heeds p message q
  /-- It waits for the answer to its request, and the floor is said to be idle. -/
  | ignores : p.state = .pendingRequest → message.isIdle = true → q.state = p.state →
      q.talker = p.talker → q.overridden = p.overridden → Heeds p message q

structure Hears (p : Participant) (message : Message) (q : Participant) : Prop where
  started : q.state ≠ .startStop
  pending : q.grantPending = true → p.grantPending = true
  heeds : Heeds p message q

/-- Whatever word of the floor comes after the call has been set up. -/
theorem hears_handle {message : Message} (hword : message.isWord = true)
    (hstarted : p.state ≠ .startStop) :
    Hears p message (p.handle (.receive message)).machine := by
  -- A participant that does not talk takes every word as it is, if it heeds it.
  have hfollows : ∀ q : Participant, p.state ≠ .hasPermission →
      (p.state = .pendingRequest → message.isIdle = false) → q.state ≠ .startStop →
      q.state ≠ .hasPermission → (q.grantPending = true → p.grantPending = true) →
      q.talker = message.named? → q.overridden = p.overridden → Hears p message q :=
    fun q hsilent hheeds hstarted hstate hpending htalker hoverridden =>
      ⟨hstarted, hpending, .follows (absurd · hsilent) hheeds hstate htalker (fun _ => hsilent)
        (hoverridden ▸ id)⟩
  simp only [handle, receive]
  cases message with
  | taken named dual ack =>
    cases hstate : p.state with
    | startStop => exact absurd hstate hstarted
    | idle | pendingRequest | queued =>
      refine hfollows _ (by simp [hstate]) (fun _ => rfl) ?_ ?_ ?_ rfl ?_
      all_goals simp [receiveIdle, receivePendingRequest, receiveQueued, hstate]
    | pendingRelease =>
      refine hfollows _ (by simp [hstate]) (fun _ => rfl) ?_ ?_ ?_ ?_ ?_
      all_goals simp [receivePendingRelease, Message.named?]
    | hasPermission =>
      simp only [receiveHasPermission, machine_acknowledge]
      by_cases hself : named = p.ssrc
      · simp only [hself, if_true, Turn.machine_update, machine_acknowledge]
        exact ⟨by simp [hstate], id, .own hstate rfl hstate rfl rfl⟩
      · simp only [hself, if_false]
        cases dual with
        | true =>
          simp only [if_true, Turn.machine_update, machine_acknowledge]
          exact ⟨by simp [hstate], id,
            .spokenOver hstate (by simp [Message.tellsSecond, hself]) hstate rfl rfl⟩
        | false =>
          simp only [Bool.false_eq_true, if_false, machine_loseFloor, machine_acknowledge]
          exact ⟨by simp, id, .follows (fun _ => rfl) (by simp [hstate]) (by simp) rfl (by simp)
            (by simp)⟩
  | idle ack =>
    cases hstate : p.state with
    | startStop => exact absurd hstate hstarted
    | pendingRequest =>
      simp only [receivePendingRequest, machine_acknowledge]
      exact ⟨by simp [hstate], id, .ignores hstate rfl rfl rfl rfl⟩
    | idle | queued | pendingRelease =>
      refine hfollows _ (by simp [hstate]) (by simp [hstate]) ?_ ?_ ?_ ?_ ?_
      all_goals simp [receiveIdle, receivePendingRelease, receiveQueued, leaveQueue, hstate,
        Message.named?]
    | hasPermission =>
      simp only [receiveHasPermission, machine_loseFloor, machine_acknowledge]
      exact ⟨by simp, id, .follows (fun _ => rfl) (by simp [hstate]) (by simp) rfl (by simp)
        (by simp)⟩
  | _ => cases hword

end Participant
end FloorControl
