import FloorControl.Participant
import FloorControl.Proofs.ArbitratorOutcome

/-!
# The conduct of a participant

What a participant may do in one step, whatever comes: it talks to the arbitrator only, and in its
own name; it comes to be permitted to talk only by a grant; and it stops to be permitted with a
release, except when it is told that the floor is not its own, or gives the floor up unasked.
-/

namespace FloorControl

namespace Message

def isRevocation : Message → Bool
  | .revoke .. => true
  | _ => false

end Message

namespace Participant

def permitted (p : Participant) : Bool :=
  p.state = .hasPermission || (p.state = .queued && p.grantPending)

def Input.grants : Input → Bool
  | .receive message => message.isGrant
  | .established granted _ => granted
  | _ => false

/-- Whether the input makes a party that is permitted to talk give the floor up without a release:
another party is said to have it, or the question for the place in the queue stays unanswered while
the user has only to accept the floor. -/
def abandons (p : Participant) : Input → Bool
  | .receive message => p.state = .hasPermission && message.yieldsTo p.ssrc
  | .expire ticket =>
    p.state = .queued && p.grantPending && ticket.id = .t104 && p.t104.accepts ticket &&
      p.c104.arrives
  | _ => false

/-- Whether the input takes the permission to talk away. A party that waits for its user to accept
the floor does not look at who else is said to have it. -/
def strips (p : Participant) : Input → Bool
  | .receive message =>
    message.isIdle || message.isRevocation || (message.yieldsTo p.ssrc && p.state ≠ .queued)
  | input => p.abandons input

variable {t : Turn Participant}

@[simp] theorem machine_send (message : Message) : (send message t).machine = t.machine := rfl

@[simp] theorem messages_send (message : Message) : (send message t).out.messages =
    t.out.messages ++ [⟨.participant t.machine.ssrc, .arbitrator, message⟩] := rfl

@[simp] theorem machine_moveTo (next : ParticipantState) :
    (moveTo next t).machine = { t.machine with state := next } := by
  simp only [moveTo]
  split
  · next h => subst h; rfl
  · rfl

@[simp] theorem messages_moveTo (next : ParticipantState) :
    (moveTo next t).out.messages = t.out.messages := by
  simp only [moveTo]
  split <;> rfl

@[simp] theorem machine_startT100 :
    (startT100 t).machine = { t.machine with t100 := t.machine.t100.start } := rfl

@[simp] theorem machine_startT101 :
    (startT101 t).machine = { t.machine with t101 := t.machine.t101.start } := rfl

@[simp] theorem machine_startT104 :
    (startT104 t).machine = { t.machine with t104 := t.machine.t104.start } := rfl

@[simp] theorem machine_startT132 :
    (startT132 t).machine = { t.machine with t132 := t.machine.t132.start } := rfl

@[simp] theorem messages_startT100 : (startT100 t).out.messages = t.out.messages := rfl

@[simp] theorem messages_startT101 : (startT101 t).out.messages = t.out.messages := rfl

@[simp] theorem messages_startT104 : (startT104 t).out.messages = t.out.messages := rfl

@[simp] theorem messages_startT132 : (startT132 t).out.messages = t.out.messages := rfl

@[simp] theorem machine_tellDenied (cause : DenyCause) (onSite : Bool) :
    (tellDenied cause onSite t).machine = t.machine := rfl

@[simp] theorem machine_tellRevoked (cause : RevokeCause) :
    (tellRevoked cause t).machine = t.machine := rfl

@[simp] theorem machine_tellFailure (kind : FailureKind) :
    (tellFailure kind t).machine = t.machine := rfl

@[simp] theorem messages_tellDenied (cause : DenyCause) (onSite : Bool) :
    (tellDenied cause onSite t).out.messages = t.out.messages := rfl

@[simp] theorem messages_tellRevoked (cause : RevokeCause) :
    (tellRevoked cause t).out.messages = t.out.messages := rfl

@[simp] theorem messages_tellFailure (kind : FailureKind) :
    (tellFailure kind t).out.messages = t.out.messages := rfl

@[simp] theorem machine_takeFloor : (takeFloor t).machine =
    { t.machine with talker := some t.machine.ssrc, state := .hasPermission } :=
  machine_moveTo _

@[simp] theorem messages_takeFloor : (takeFloor t).out.messages = t.out.messages :=
  messages_moveTo _

@[simp] theorem machine_startRelease : (startRelease t).machine =
    { t.machine with
      overriding := false, overridden := false, c100 := t.machine.c100.reset
      t100 := t.machine.t100.start, state := .pendingRelease } :=
  machine_moveTo _

@[simp] theorem messages_startRelease : (startRelease t).out.messages =
    t.out.messages ++ [⟨.participant t.machine.ssrc, .arbitrator, .release t.machine.ssrc⟩] :=
  messages_moveTo _

@[simp] theorem machine_loseFloor (talker : Option Ssrc) : (loseFloor talker t).machine =
    { t.machine with overriding := false, overridden := false, talker := talker, state := .idle } :=
  machine_moveTo _

@[simp] theorem messages_loseFloor (talker : Option Ssrc) :
    (loseFloor talker t).out.messages = t.out.messages :=
  messages_moveTo _

@[simp] theorem machine_acknowledge (message : Message) :
    (acknowledge message t).machine = t.machine := by
  simp only [acknowledge]
  split <;> rfl

def letterFrom (ssrc : Ssrc) (message : Message) : Envelope :=
  ⟨.participant ssrc, .arbitrator, message⟩

/-- A step from `p` to `q` by which the given messages are sent. -/
structure Conduct (p : Participant) (input : Input) (messages : List Envelope) (q : Participant) :
    Prop where
  ssrc : q.ssrc = p.ssrc
  pending : q.grantPending = true → q.state = .queued
  letters : ∀ e ∈ messages, ∃ m, e = letterFrom p.ssrc m ∧ m.ssrc? = some p.ssrc
  gains : q.permitted = true → p.permitted = true ∨ input.grants = true
  keeps : p.permitted = true → q.permitted = true ∨
    letterFrom p.ssrc (.release p.ssrc) ∈ messages ∨
    (∃ m, input = .receive m ∧ (m.isIdle || m.isDenial) = true) ∨ p.abandons input = true
  accepts : ∀ m, input = .receive m → m.isGrant = true → m.ssrc? = some p.ssrc →
    p.state ≠ .startStop → p.state ≠ .pendingRelease →
    q.permitted = true ∨ letterFrom p.ssrc (.release p.ssrc) ∈ messages
  strips : p.strips input = true → q.permitted = false
  asks : ∀ r, letterFrom p.ssrc (.request r) ∈ messages → q.state = .pendingRequest
  returns : q.state = .pendingRelease →
    p.state = .pendingRelease ∨ letterFrom p.ssrc (.release p.ssrc) ∈ messages
  starts : q.state = .startStop → p.state = .startStop

variable {p q : Participant} {input : Input} {messages : List Envelope}

/-- An acknowledgement that goes before changes nothing. -/
theorem Conduct.acknowledged {kind : MessageKind} (h : Conduct p input messages q) :
    Conduct p input (letterFrom p.ssrc (.ack p.ssrc kind) :: messages) q where
  ssrc := h.ssrc
  pending := h.pending
  letters e he := by
    rcases List.mem_cons.mp he with rfl | he
    · exact ⟨_, rfl, rfl⟩
    · exact h.letters e he
  gains := h.gains
  keeps hp := (h.keeps hp).imp_right (.imp_left (List.mem_cons_of_mem _))
  accepts m hm hg hn h1 h2 := (h.accepts m hm hg hn h1 h2).imp_right (List.mem_cons_of_mem _)
  strips := h.strips
  asks r hr := by
    rcases List.mem_cons.mp hr with heq | hr
    · simp [letterFrom] at heq
    · exact h.asks r hr
  returns hq := (h.returns hq).imp_right (List.mem_cons_of_mem _)
  starts := h.starts

/-- A step by which the state does not change and nothing is sent. -/
theorem Conduct.quiet (hpending : p.grantPending = true → p.state = .queued)
    (hssrc : q.ssrc = p.ssrc) (hstate : q.state = p.state) (hgrant : q.grantPending = p.grantPending)
    (haccepts : ∀ m, input = .receive m → m.isGrant = true → m.ssrc? = some p.ssrc →
      p.state ≠ .startStop → p.state ≠ .pendingRelease → p.permitted = true)
    (hstrips : p.strips input = true → p.permitted = false) : Conduct p input [] q := by
  have hpermitted : q.permitted = p.permitted := by
    rw [permitted, permitted, hstate, hgrant]
  refine ⟨hssrc, ?_, by simp, ?_, ?_, ?_, ?_, by simp, ?_, ?_⟩
  · rw [hstate, hgrant]
    exact hpending
  · rw [hpermitted]
    exact .inl
  · rw [hpermitted]
    exact .inl
  · rw [hpermitted]
    exact fun m hm hg hn h1 h2 => .inl (haccepts m hm hg hn h1 h2)
  · rw [hpermitted]
    exact hstrips
  · rw [hstate]
    exact .inl
  · rw [hstate]
    exact id

/-- A party that is not permitted to talk goes on without being so. -/
theorem Conduct.unpermitted (hp : p.permitted = false) (hq : q.permitted = false)
    (hssrc : q.ssrc = p.ssrc) (hpending : q.grantPending = true → q.state = .queued)
    (hgrants : input.grants = false)
    (hletters : ∀ e ∈ messages, ∃ m, e = letterFrom p.ssrc m ∧ m.ssrc? = some p.ssrc)
    (hasks : ∀ r, letterFrom p.ssrc (.request r) ∈ messages → q.state = .pendingRequest)
    (hreturns : q.state = .pendingRelease →
      p.state = .pendingRelease ∨ letterFrom p.ssrc (.release p.ssrc) ∈ messages)
    (hstarts : q.state = .startStop → p.state = .startStop) : Conduct p input messages q := by
  refine ⟨hssrc, hpending, hletters, by simp [hq], by simp [hp], ?_, fun _ => hq, hasks, hreturns,
    hstarts⟩
  rintro m rfl hg
  rw [Input.grants, hg] at hgrants
  cases hgrants

/-- A party gives the floor, or the wish for it, back. -/
theorem Conduct.released (hstate : q.state = .pendingRelease) (hssrc : q.ssrc = p.ssrc)
    (hgrant : q.grantPending = false) :
    Conduct p input [letterFrom p.ssrc (.release p.ssrc)] q := by
  have hq : q.permitted = false := by simp [permitted, hstate]
  refine ⟨hssrc, by simp [hgrant], ?_, by simp [hq], by simp, by simp, fun _ => hq, ?_, by simp, ?_⟩
  · intro e he
    exact ⟨_, List.mem_singleton.mp he, rfl⟩
  · intro r hr
    simp [letterFrom] at hr
  · simp [hstate]

private theorem not_permitted_of_state (h : p.grantPending = true → p.state = .queued)
    (hstate : p.state ≠ .hasPermission) (hqueued : p.state ≠ .queued) : p.permitted = false := by
  have hgrant : p.grantPending = false := by
    cases hg : p.grantPending with
    | false => rfl
    | true => exact absurd (h hg) hqueued
  simp [permitted, hstate, hgrant]

private theorem not_pending (h : p.grantPending = true → p.state = .queued)
    (hqueued : p.state ≠ .queued) : p.grantPending = false := by
  cases hg : p.grantPending with
  | false => rfl
  | true => exact absurd (h hg) hqueued

private theorem conduct_user (hpending : p.grantPending = true → p.state = .queued)
    (hgrants : ∀ m, input ≠ .receive m) (hstrips : p.strips input = false) :
    Conduct p input [] p :=
  .quiet hpending rfl rfl rfl (fun m hm => absurd hm (hgrants m)) (by simp [hstrips])

private theorem conduct_callInitialized (hpending : p.grantPending = true → p.state = .queued) :
    Conduct p .initialized (callInitialized ⟨p, {}⟩).out.messages
      (callInitialized ⟨p, {}⟩).machine := by
  simp only [callInitialized]
  split
  · next hstate =>
    have hgrant := not_pending hpending (by simp [hstate])
    simp only [messages_moveTo, machine_moveTo, Turn.out_update, Turn.machine_update]
    exact .unpermitted (not_permitted_of_state hpending (by simp [hstate]) (by simp [hstate]))
      (by simp [permitted]) rfl (by simp [hgrant]) rfl (by simp) (by simp) (by simp) (by simp)
  · exact conduct_user hpending (by simp) rfl

private theorem conduct_callEstablished (granted : Bool) (priority : Priority)
    (hpending : p.grantPending = true → p.state = .queued) :
    Conduct p (.established granted priority)
      (callEstablished granted priority ⟨p, {}⟩).out.messages
      (callEstablished granted priority ⟨p, {}⟩).machine := by
  simp only [callEstablished]
  split
  · next h =>
    simp only [Bool.and_eq_true, decide_eq_true_eq] at h
    have hidle : p.state = .idle := h.2
    have hgrant := not_pending hpending (by simp [hidle])
    simp only [messages_takeFloor, machine_takeFloor, Turn.out_update, Turn.machine_update]
    refine ⟨rfl, by simp [hgrant], by simp, fun _ => .inr h.1, ?_, by simp,
      by simp [strips, abandons], by simp, by simp, by simp⟩
    exact fun _ => .inl (by simp [permitted])
  · exact .quiet hpending rfl rfl rfl (by simp) (by simp [strips, abandons])

private theorem conduct_pushToTalk (hpending : p.grantPending = true → p.state = .queued) :
    Conduct p .push (pushToTalk ⟨p, {}⟩).out.messages (pushToTalk ⟨p, {}⟩).machine := by
  simp only [pushToTalk]
  split
  · exact conduct_user hpending (by simp) rfl
  split
  · next hstate =>
    have hgrant := not_pending hpending (by simp [hstate])
    simp only [messages_moveTo, machine_moveTo, messages_startT101, machine_startT101,
      Turn.out_update, Turn.machine_update, messages_send, machine_send, List.nil_append]
    refine .unpermitted (not_permitted_of_state hpending (by simp [hstate]) (by simp [hstate]))
      (by simp [permitted]) rfl (by simp [hgrant]) rfl ?_ (by simp) (by simp) (by simp)
    intro e he
    exact ⟨_, List.mem_singleton.mp he, rfl⟩
  · exact conduct_user hpending (by simp) rfl

private theorem conduct_releaseToTalk (hpending : p.grantPending = true → p.state = .queued) :
    Conduct p .release (releaseToTalk ⟨p, {}⟩).out.messages (releaseToTalk ⟨p, {}⟩).machine := by
  simp only [releaseToTalk]
  split
  · next hstate =>
    have hgrant : p.grantPending = false := not_pending hpending (by simp [hstate])
    rw [messages_startRelease, machine_startRelease]
    exact .released rfl rfl hgrant
  · next hstate =>
    have hgrant : p.grantPending = false := not_pending hpending (by simp [hstate])
    rw [messages_startRelease, machine_startRelease]
    exact .released rfl rfl hgrant
  · rw [messages_startRelease, machine_startRelease]
    exact .released rfl rfl rfl
  all_goals exact conduct_user hpending (by simp) rfl

private theorem conduct_acceptGrant (hpending : p.grantPending = true → p.state = .queued) :
    Conduct p .accept (acceptGrant ⟨p, {}⟩).out.messages (acceptGrant ⟨p, {}⟩).machine := by
  simp only [acceptGrant]
  split
  · next h =>
    simp only [Bool.and_eq_true, decide_eq_true_eq] at h
    have hp : p.permitted = true := by simp [permitted, h.1, h.2]
    simp only [messages_takeFloor, machine_takeFloor, Turn.out_update, Turn.machine_update]
    refine ⟨rfl, by simp, by simp, fun _ => .inl hp, ?_, by simp, by simp [strips, abandons],
      by simp, by simp, by simp⟩
    exact fun _ => .inl (by simp [permitted])
  · exact conduct_user hpending (by simp) rfl

private theorem conduct_askQueuePosition (hpending : p.grantPending = true → p.state = .queued) :
    Conduct p .askPosition (askQueuePosition ⟨p, {}⟩).out.messages
      (askQueuePosition ⟨p, {}⟩).machine := by
  simp only [askQueuePosition]
  split
  · next hstate =>
    simp only [messages_startT104, machine_startT104, Turn.out_update, Turn.machine_update,
      messages_send, machine_send, List.nil_append]
    refine ⟨rfl, fun _ => hstate, ?_, .inl, .inl, by simp, by simp [strips, abandons], ?_, ?_, ?_⟩
    · intro e he
      exact ⟨_, List.mem_singleton.mp he, rfl⟩
    · intro r hr
      simp [letterFrom] at hr
    · simp [hstate]
    · simp [hstate]
  · exact conduct_user hpending (by simp) rfl

private def Takes (f : Message → Turn Participant → Turn Participant) (message : Message)
    (t : Turn Participant) : Prop :=
  ∃ sent, (f message t).out.messages = t.out.messages ++ sent ∧
    Conduct t.machine (.receive message) sent (f message t).machine

private theorem Takes.ignored {f : Message → Turn Participant → Turn Participant}
    {message : Message} (hpending : t.machine.grantPending = true → t.machine.state = .queued)
    (hmessages : (f message t).out.messages = t.out.messages)
    (hssrc : (f message t).machine.ssrc = t.machine.ssrc)
    (hstate : (f message t).machine.state = t.machine.state)
    (hgrant : (f message t).machine.grantPending = t.machine.grantPending)
    (haccepts : message.isGrant = true → message.ssrc? = some t.machine.ssrc →
      t.machine.state ≠ .startStop → t.machine.state ≠ .pendingRelease →
      t.machine.permitted = true)
    (hstrips : t.machine.strips (.receive message) = true → t.machine.permitted = false) :
    Takes f message t :=
  ⟨[], by simp [hmessages], .quiet hpending hssrc hstate hgrant
    (by rintro _ ⟨⟩; exact haccepts) hstrips⟩

private theorem takes_receivePendingRequest (message : Message)
    (hpending : t.machine.grantPending = true → t.machine.state = .queued)
    (hstate : t.machine.state = .pendingRequest) : Takes receivePendingRequest message t := by
  have hgrant := not_pending hpending (by simp [hstate])
  have hp := not_permitted_of_state hpending (by simp [hstate]) (by simp [hstate])
  cases message with
  | granted ssrc priority duration dual ack =>
    refine ⟨[], by simp [receivePendingRequest], ?_⟩
    simp only [receivePendingRequest, machine_takeFloor, Turn.machine_update]
    refine ⟨rfl, by simp [hgrant], by simp, fun _ => .inr rfl, by simp [hp], ?_, by
      simp [strips, Message.isIdle, Message.isRevocation, Message.yieldsTo], by simp, by simp,
      by simp⟩
    exact fun _ _ _ _ _ _ => .inl (by simp [permitted])
  | denied ssrc cause ack =>
    refine ⟨[], by simp [receivePendingRequest], ?_⟩
    simp only [receivePendingRequest, machine_tellDenied, machine_moveTo, Turn.machine_update]
    exact .unpermitted hp (by simp [permitted]) rfl (by simp [hgrant]) rfl (by simp) (by simp)
      (by simp) (by simp)
  | queuePositionInfo ssrc position priority =>
    refine ⟨[], by simp [receivePendingRequest], ?_⟩
    simp only [receivePendingRequest, machine_moveTo, Turn.machine_update]
    exact .unpermitted hp (by simp [permitted, hgrant]) rfl (by simp) rfl (by simp) (by simp)
      (by simp) (by simp)
  | _ => exact .ignored hpending rfl rfl rfl rfl (by simp [Message.isGrant]) fun _ => hp

private theorem takes_receiveQueued (message : Message)
    (hstate : t.machine.state = .queued) : Takes receiveQueued message t := by
  have hpending : t.machine.grantPending = true → t.machine.state = .queued := fun _ => hstate
  cases message with
  | granted ssrc priority duration dual ack =>
    cases hgrant : t.machine.grantPending with
    | true =>
      refine .ignored hpending ?_ ?_ ?_ ?_ ?_ ?_
      all_goals simp [receiveQueued, hgrant, permitted, hstate, strips, Message.isIdle,
        Message.isRevocation, Message.yieldsTo]
    | false =>
      refine ⟨[], by simp [receiveQueued, hgrant], ?_⟩
      simp only [receiveQueued, hgrant, Bool.false_eq_true, if_false, Turn.machine_tell,
        machine_startT132, Turn.machine_update]
      refine ⟨rfl, fun _ => hstate, by simp, fun _ => .inr rfl, ?_, ?_, by
        simp [strips, Message.isIdle, Message.isRevocation, Message.yieldsTo], by simp, ?_, ?_⟩
      · simp [permitted, hstate, hgrant]
      · exact fun _ _ _ _ _ _ => .inl (by simp [permitted, hstate])
      · simp [hstate]
      · simp [hstate]
  | denied ssrc cause ack =>
    refine ⟨[], by simp [receiveQueued], ?_⟩
    simp only [receiveQueued, machine_tellDenied, machine_moveTo, Turn.machine_update, leaveQueue]
    have hq : Participant.permitted { t.machine with
        t104 := t.machine.t104.stop, t132 := t.machine.t132.stop, grantPending := false
        position := none, state := .idle } = false := by simp [permitted]
    refine ⟨rfl, by simp, by simp, by simp [hq], ?_, by simp [Message.isGrant], fun _ => hq,
      by simp, by simp, by simp⟩
    exact fun _ => .inr (.inr (.inl ⟨_, rfl, rfl⟩))
  | queuePositionInfo ssrc position priority =>
    refine .ignored hpending rfl rfl rfl rfl (by simp [Message.isGrant]) ?_
    simp [strips, Message.isIdle, Message.isRevocation, Message.yieldsTo]
  | idle ack =>
    refine ⟨[], by simp [receiveQueued], ?_⟩
    simp only [receiveQueued, machine_moveTo, Turn.machine_update, leaveQueue]
    have hq : Participant.permitted { t.machine with
        t104 := t.machine.t104.stop, t132 := t.machine.t132.stop, grantPending := false
        position := none, talker := none, state := .idle } = false := by simp [permitted]
    refine ⟨rfl, by simp, by simp, by simp [hq], ?_, by simp [Message.isGrant], fun _ => hq,
      by simp, by simp, by simp⟩
    exact fun _ => .inr (.inr (.inl ⟨_, rfl, rfl⟩))
  | revoke ssrc cause ack =>
    cases hgrant : t.machine.grantPending with
    | true =>
      refine ⟨[letterFrom t.machine.ssrc (.release t.machine.ssrc)], ?_, ?_⟩
      · simp [receiveQueued, hgrant, letterFrom, leaveQueue]
      · simp only [receiveQueued, hgrant, if_true, machine_startRelease, machine_tellRevoked,
          Turn.machine_update]
        exact .released rfl rfl rfl
    | false =>
      refine .ignored hpending ?_ ?_ ?_ ?_ (by simp [Message.isGrant]) ?_
      all_goals simp [receiveQueued, hgrant, permitted, hstate]
  | taken ssrc dual ack =>
    refine .ignored hpending rfl rfl rfl rfl (by simp [Message.isGrant]) ?_
    simp [strips, hstate, Message.isIdle, Message.isRevocation]
  | request | release | queuePositionRequest | ack =>
    refine .ignored hpending rfl rfl rfl rfl (by simp [Message.isGrant]) ?_
    simp [strips, Message.isIdle, Message.isRevocation, Message.yieldsTo]

private theorem takes_receiveHasPermission (message : Message)
    (hpending : t.machine.grantPending = true → t.machine.state = .queued)
    (hstate : t.machine.state = .hasPermission) : Takes receiveHasPermission message t := by
  have hgrant := not_pending hpending (by simp [hstate])
  have hp : t.machine.permitted = true := by simp [permitted, hstate]
  have hloses : ∀ talker, Participant.permitted { t.machine with
      overriding := false, overridden := false, talker := talker, state := .idle } = false := by
    simp [permitted]
  cases message with
  | revoke ssrc cause ack =>
    refine ⟨[letterFrom t.machine.ssrc (.release t.machine.ssrc)], ?_, ?_⟩
    · simp [receiveHasPermission, letterFrom]
    · simp only [receiveHasPermission, machine_startRelease, machine_tellRevoked]
      exact .released rfl rfl hgrant
  | idle ack =>
    refine ⟨[], by simp [receiveHasPermission], ?_⟩
    simp only [receiveHasPermission, machine_loseFloor]
    refine ⟨rfl, by simp [hgrant], by simp, by simp [hp], ?_, by simp [Message.isGrant],
      fun _ => hloses _, by simp, by simp, by simp⟩
    exact fun _ => .inr (.inr (.inl ⟨_, rfl, rfl⟩))
  | taken ssrc dual ack =>
    by_cases hself : ssrc = t.machine.ssrc
    · refine .ignored hpending ?_ ?_ ?_ ?_ (by simp [Message.isGrant]) ?_
      all_goals simp [receiveHasPermission, hself, strips, Message.isIdle, Message.isRevocation,
        Message.yieldsTo]
    cases dual with
    | true =>
      refine .ignored hpending ?_ ?_ ?_ ?_ (by simp [Message.isGrant]) ?_
      all_goals simp [receiveHasPermission, hself, strips, Message.isIdle, Message.isRevocation,
        Message.yieldsTo]
    | false =>
      refine ⟨[], by simp [receiveHasPermission, hself], ?_⟩
      simp only [receiveHasPermission, hself, if_false, Bool.false_eq_true, machine_loseFloor]
      refine ⟨rfl, by simp [hgrant], by simp, by simp [hp], ?_, by simp [Message.isGrant],
        fun _ => hloses _, by simp, by simp, by simp⟩
      exact fun _ => .inr (.inr (.inr (by simp [abandons, hstate, Message.yieldsTo, hself])))
  | granted => exact .ignored hpending rfl rfl rfl rfl (fun _ _ _ _ => hp) (by
      simp [strips, Message.isIdle, Message.isRevocation, Message.yieldsTo])
  | request | denied | release | queuePositionRequest | queuePositionInfo | ack =>
    exact .ignored hpending rfl rfl rfl rfl (by simp [Message.isGrant]) (by
      simp [strips, Message.isIdle, Message.isRevocation, Message.yieldsTo])

private theorem takes_receivePendingRelease (message : Message)
    (hpending : t.machine.grantPending = true → t.machine.state = .queued)
    (hstate : t.machine.state = .pendingRelease) : Takes receivePendingRelease message t := by
  have hgrant := not_pending hpending (by simp [hstate])
  have hp := not_permitted_of_state hpending (by simp [hstate]) (by simp [hstate])
  cases message with
  | idle | taken | denied =>
    refine ⟨[], by simp [receivePendingRelease], ?_⟩
    simp only [receivePendingRelease, machine_moveTo, Turn.machine_update]
    exact .unpermitted hp (by simp [permitted]) rfl (by simp [hgrant]) rfl (by simp) (by simp)
      (by simp) (by simp)
  | _ => exact .ignored hpending rfl rfl rfl rfl (fun _ _ _ h => absurd hstate h) fun _ => hp

private theorem takes_receiveIdle (message : Message)
    (hpending : t.machine.grantPending = true → t.machine.state = .queued)
    (hstate : t.machine.state = .idle) : Takes receiveIdle message t := by
  have hgrant := not_pending hpending (by simp [hstate])
  have hp := not_permitted_of_state hpending (by simp [hstate]) (by simp [hstate])
  cases message with
  | granted ssrc priority duration dual ack =>
    by_cases hself : ssrc = t.machine.ssrc
    · refine ⟨[letterFrom t.machine.ssrc (.release t.machine.ssrc)], ?_, ?_⟩
      · simp [receiveIdle, hself, letterFrom]
      · simp only [receiveIdle, hself, if_true, machine_startRelease]
        exact .released rfl rfl hgrant
    · refine .ignored hpending ?_ ?_ ?_ ?_ ?_ fun _ => hp
      all_goals simp [receiveIdle, hself, Message.ssrc?]
  | _ => exact .ignored hpending rfl rfl rfl rfl (by simp [Message.isGrant]) fun _ => hp

private theorem conduct_acknowledged {f : Message → Turn Participant → Turn Participant}
    {message : Message} (h : ∀ t : Turn Participant, t.machine = p → Takes f message t) :
    Conduct p (.receive message) (f message (acknowledge message ⟨p, {}⟩)).out.messages
      (f message (acknowledge message ⟨p, {}⟩)).machine := by
  obtain ⟨sent, hsent, hconduct⟩ := h (acknowledge message ⟨p, {}⟩) (machine_acknowledge message)
  rw [machine_acknowledge] at hconduct
  rw [hsent]
  simp only [acknowledge] at hconduct ⊢
  split
  · next hrequires =>
    rw [if_pos hrequires] at hconduct
    exact hconduct.acknowledged
  · next hrequires =>
    rw [if_neg hrequires] at hconduct
    exact hconduct

theorem conduct_receive (message : Message)
    (hpending : p.grantPending = true → p.state = .queued) :
    Conduct p (.receive message) (receive message ⟨p, {}⟩).out.messages
      (receive message ⟨p, {}⟩).machine := by
  simp only [receive]
  split
  · next hstate =>
    exact .quiet hpending rfl rfl rfl (fun _ _ _ _ h => absurd hstate h)
      fun _ => not_permitted_of_state hpending (by simp [hstate]) (by simp [hstate])
  · next hstate =>
    exact conduct_acknowledged fun t ht =>
      takes_receivePendingRequest message (by rwa [ht]) (by rwa [ht])
  · next hstate =>
    exact conduct_acknowledged fun t ht => takes_receiveQueued message (by rwa [ht])
  · next hstate =>
    exact conduct_acknowledged fun t ht =>
      takes_receiveHasPermission message (by rwa [ht]) (by rwa [ht])
  · next hstate =>
    exact conduct_acknowledged fun t ht =>
      takes_receivePendingRelease message (by rwa [ht]) (by rwa [ht])
  · next hstate =>
    exact conduct_acknowledged fun t ht => takes_receiveIdle message (by rwa [ht]) (by rwa [ht])

private theorem strips_expire_of_ne {ticket : Ticket} (hid : ticket.id ≠ .t104) :
    p.strips (.expire ticket) = false := by
  simp [strips, abandons, hid]

private theorem conduct_expireT101 {ticket : Ticket} (hid : ticket.id ≠ .t104)
    (hpending : p.grantPending = true → p.state = .queued) :
    let t := (⟨p, {}⟩ : Turn Participant).update fun p => { p with t101 := p.t101.rest }
    Conduct p (.expire ticket) (expireT101 t).out.messages (expireT101 t).machine := by
  intro t
  simp only [expireT101]
  split
  · next hstate =>
    have hstate : p.state = .pendingRequest := hstate
    have hgrant := not_pending hpending (by simp [hstate])
    have hp := not_permitted_of_state hpending (by simp [hstate]) (by simp [hstate])
    split
    · simp only [messages_tellFailure, messages_moveTo, Turn.out_update, machine_tellFailure,
        machine_moveTo, Turn.machine_update, t]
      exact .unpermitted hp (by simp [permitted]) rfl (by simp [hgrant]) rfl (by simp) (by simp)
        (by simp) (by simp)
    · simp only [messages_startT101, messages_send, Turn.out_update, machine_startT101,
        machine_send, Turn.machine_update, List.nil_append, t]
      refine .unpermitted hp (by simp [permitted, hstate]) rfl (by simp [hgrant]) rfl ?_
        (fun _ _ => hstate) (by simp [hstate]) id
      intro e he
      exact ⟨_, List.mem_singleton.mp he, rfl⟩
  · exact .quiet hpending rfl rfl rfl (by simp) (by simp [strips_expire_of_ne hid])

private theorem conduct_expireT100 {ticket : Ticket} (hid : ticket.id ≠ .t104)
    (hpending : p.grantPending = true → p.state = .queued) :
    let t := (⟨p, {}⟩ : Turn Participant).update fun p => { p with t100 := p.t100.rest }
    Conduct p (.expire ticket) (expireT100 t).out.messages (expireT100 t).machine := by
  intro t
  simp only [expireT100]
  split
  · next hstate =>
    have hstate : p.state = .pendingRelease := hstate
    have hgrant := not_pending hpending (by simp [hstate])
    have hp := not_permitted_of_state hpending (by simp [hstate]) (by simp [hstate])
    split
    · simp only [messages_tellFailure, messages_moveTo, Turn.out_update, machine_tellFailure,
        machine_moveTo, Turn.machine_update, t]
      exact .unpermitted hp (by simp [permitted]) rfl (by simp [hgrant]) rfl (by simp) (by simp)
        (by simp) (by simp)
    · simp only [messages_startT100, messages_send, Turn.out_update, machine_startT100,
        machine_send, Turn.machine_update, List.nil_append, t]
      exact .released hstate rfl hgrant
  · exact .quiet hpending rfl rfl rfl (by simp) (by simp [strips_expire_of_ne hid])

private theorem conduct_expireT104 {ticket : Ticket} (hid : ticket.id = .t104)
    (haccepts : p.t104.accepts ticket = true)
    (hpending : p.grantPending = true → p.state = .queued) :
    let t := (⟨p, {}⟩ : Turn Participant).update fun p => { p with t104 := p.t104.rest }
    Conduct p (.expire ticket) (expireT104 t).out.messages (expireT104 t).machine := by
  intro t
  simp only [expireT104]
  split
  · next hstate =>
    have hstate : p.state = .queued := hstate
    split
    · next harrives =>
      have harrives : p.c104.arrives = true := harrives
      simp only [messages_tellFailure, messages_moveTo, Turn.out_update, machine_tellFailure,
        machine_moveTo, Turn.machine_update, leaveQueue, t]
      have hq : ∀ q : Participant, q.state = .idle → q.permitted = false := by
        intro q hq
        simp [permitted, hq]
      refine ⟨rfl, by simp, by simp, by simp [hq], ?_, by simp, fun _ => hq _ rfl, by simp, by simp,
        by simp⟩
      intro hp
      have hgrant : p.grantPending = true := by simpa [permitted, hstate] using hp
      exact .inr (.inr (.inr (by simp [abandons, hstate, hgrant, hid, haccepts, harrives])))
    · next hlimit =>
      have hlimit : p.c104.arrives ≠ true := hlimit
      simp only [messages_startT104, messages_send, Turn.out_update, machine_startT104,
        machine_send, Turn.machine_update, List.nil_append, t]
      refine ⟨rfl, fun _ => hstate, ?_, .inl, .inl, by simp, ?_, ?_, .inl, id⟩
      · intro e he
        exact ⟨_, List.mem_singleton.mp he, rfl⟩
      · simp [strips, abandons, hlimit]
      · intro r hr
        simp [letterFrom] at hr
  · next hstate =>
    have hstate : p.state ≠ .queued := hstate
    exact .quiet hpending rfl rfl rfl (by simp) (by simp [strips, abandons, hstate])

private theorem conduct_expireT132 {ticket : Ticket} (hid : ticket.id ≠ .t104)
    (hpending : p.grantPending = true → p.state = .queued) :
    let t := (⟨p, {}⟩ : Turn Participant).update fun p => { p with t132 := p.t132.rest }
    Conduct p (.expire ticket) (expireT132 t).out.messages (expireT132 t).machine := by
  intro t
  simp only [expireT132]
  split
  · rw [messages_startRelease, machine_startRelease]
    exact .released rfl rfl rfl
  · exact .quiet hpending rfl rfl rfl (by simp) (by simp [strips_expire_of_ne hid])

theorem conduct_expire (ticket : Ticket) (hpending : p.grantPending = true → p.state = .queued) :
    Conduct p (.expire ticket) (expire ticket ⟨p, {}⟩).out.messages
      (expire ticket ⟨p, {}⟩).machine := by
  have hignored : p.strips (.expire ticket) = false → Conduct p (.expire ticket) [] p :=
    conduct_user hpending (by simp)
  simp only [expire]
  split
  · next hid =>
    have hid : ticket.id ≠ .t104 := by simp [hid]
    split
    · exact conduct_expireT101 hid hpending
    · exact hignored (strips_expire_of_ne hid)
  · next hid =>
    have hid : ticket.id ≠ .t104 := by simp [hid]
    split
    · exact conduct_expireT100 hid hpending
    · exact hignored (strips_expire_of_ne hid)
  · next hid =>
    split
    · next haccepts => exact conduct_expireT104 hid haccepts hpending
    · next hstale => exact hignored (by simp [strips, abandons, hstale])
  · next hid =>
    have hid : ticket.id ≠ .t104 := by simp [hid]
    split
    · exact conduct_expireT132 hid hpending
    · exact hignored (strips_expire_of_ne hid)
  all_goals
    next hid => exact hignored (strips_expire_of_ne (by simp [hid]))

/-- Whatever comes, as long as the call is not taken down, a participant keeps to its conduct. -/
theorem conduct_handle (input : Input) (hongoing : input ≠ .beginRelease)
    (hpending : p.grantPending = true → p.state = .queued) :
    Conduct p input (p.handle input).out.messages (p.handle input).machine := by
  cases input with
  | initialized => exact conduct_callInitialized hpending
  | established granted priority => exact conduct_callEstablished granted priority hpending
  | push => exact conduct_pushToTalk hpending
  | release => exact conduct_releaseToTalk hpending
  | accept => exact conduct_acceptGrant hpending
  | askPosition => exact conduct_askQueuePosition hpending
  | receive message => exact conduct_receive message hpending
  | expire ticket => exact conduct_expire ticket hpending
  | beginRelease => exact absurd rfl hongoing
  | setDual | setIndicator | finishRelease | stopTimers =>
    exact .quiet hpending rfl rfl rfl (by simp) (by simp [strips, abandons])

end Participant
end FloorControl
