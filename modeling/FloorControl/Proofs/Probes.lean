import FloorControl.Proofs.ParticipantWaits
import Mathlib.Data.List.Induction

/-!
# Questions for the place in the queue

A party that waits in the queue may ask for its place, and T104 then asks again for it until there
is an answer. The questions are meant to end with the stay in the queue. They do, unless the user
asks while the floor is offered and then accepts it or lets the offer pass: by these two ways out of
the queue T104 is not stopped, and in a later stay it asks although the user has not asked in it.
-/

namespace FloorControl

def FloorEvent.abandonsPlace : FloorEvent → Bool
  | .failure _ _ kind => kind = .queuePositionUnanswered
  | _ => false

namespace Participant

variable {p : Participant} {t : Turn Participant} {input : Input} {inputs : List Input}

/-- Whether the participant leaves the queue and goes on asking for its place. -/
def forgets (p : Participant) : Input → Bool
  | .accept => p.state = .queued && p.grantPending && p.t104.running
  | .expire ticket =>
    ticket.id = .t132 && p.t132.accepts ticket && p.grantPending && p.t104.running
  | _ => false

def presses (t : Turn Participant) : Bool :=
  t.out.messages.any (·.message.kind = .queuePositionRequest) || t.out.events.any (·.abandonsPlace)

/-- The user has asked for the place in the queue, and the participant has been in the queue ever
since. -/
def AskedInStay (p : Participant) (inputs : List Input) : Prop :=
  ∃ i < inputs.length, inputs[i]? = some .askPosition ∧
    ∀ j ≤ inputs.length, i ≤ j → (p.run (inputs.take j)).state = .queued

instance (p : Participant) (inputs : List Input) : Decidable (p.AskedInStay inputs) := by
  unfold AskedInStay
  infer_instance

@[simp] theorem presses_nil (p : Participant) : presses ⟨p, {}⟩ = false := rfl

@[simp] theorem presses_update (f : Participant → Participant) :
    presses (t.update f) = presses t := rfl

@[simp] theorem presses_tell (event : FloorEvent) :
    presses (t.tell event) = (presses t || event.abandonsPlace) := by
  simp [presses, Bool.or_assoc]

@[simp] theorem presses_send (message : Message) :
    presses (send message t) = (presses t || message.kind = .queuePositionRequest) := by
  simp [presses, send, Bool.or_right_comm]

@[simp] theorem presses_moveTo (next : ParticipantState) : presses (moveTo next t) = presses t := by
  simp only [moveTo]
  split
  · rfl
  · simp [FloorEvent.abandonsPlace]

@[simp] theorem presses_startT100 : presses (startT100 t) = presses t := rfl

@[simp] theorem presses_startT101 : presses (startT101 t) = presses t := rfl

@[simp] theorem presses_startT132 : presses (startT132 t) = presses t := rfl

@[simp] theorem presses_takeFloor : presses (takeFloor t) = presses t := by
  simp [takeFloor, tellGranted, FloorEvent.abandonsPlace]

@[simp] theorem presses_startRelease : presses (startRelease t) = presses t := by
  simp [startRelease, Message.kind]

@[simp] theorem presses_loseFloor (talker : Option Ssrc) :
    presses (loseFloor talker t) = presses t := by
  simp [loseFloor]

@[simp] theorem presses_acknowledge (message : Message) :
    presses (acknowledge message t) = presses t := by
  simp only [acknowledge]
  split
  · simp [Message.kind]
  · rfl

@[simp] theorem presses_tellDenied (cause : DenyCause) (onSite : Bool) :
    presses (tellDenied cause onSite t) = presses t := by
  simp [tellDenied, FloorEvent.abandonsPlace]

@[simp] theorem presses_tellRevoked (cause : RevokeCause) :
    presses (tellRevoked cause t) = presses t := by
  simp [tellRevoked, FloorEvent.abandonsPlace]

@[simp] theorem presses_tellFailure (kind : FailureKind) :
    presses (tellFailure kind t) = (presses t || kind = .queuePositionUnanswered) := by
  simp [tellFailure, FloorEvent.abandonsPlace]

/-- What becomes of T104 in a step. -/
inductive Probing (p : Participant) (input : Input) (t : Turn Participant) : Prop
  /-- It is left alone, and so is a stay in the queue. -/
  | untouched : t.machine.t104 = p.t104 → (p.state = .queued → t.machine.state = .queued) →
      presses t = false → Probing p input t
  | stopped : t.machine.t104.running = false → presses t = false → Probing p input t
  /-- The user asks. -/
  | asked : input = .askPosition → p.state = .queued → t.machine.state = .queued →
      Probing p input t
  /-- It runs out in the queue. -/
  | pressed {ticket : Ticket} : p.t104.accepts ticket = true → p.state = .queued →
      (t.machine.t104.running = true → t.machine.state = .queued) → Probing p input t
  /-- The queue is left, and it runs on. -/
  | forgotten : p.forgets input = true → presses t = false → Probing p input t

/-- Out of the queue it is enough that T104 is left alone. -/
private theorem elsewhere (hstate : p.state ≠ .queued) (h104 : t.machine.t104 = p.t104)
    (hquiet : presses t = false) : Probing p input t :=
  .untouched h104 (fun hqueued => absurd hqueued hstate) hquiet

section Messages

variable {message : Message} (hp : t.machine = p) (hquiet : presses t = false)

include hp hquiet

private theorem probing_receivePendingRequest (hstate : p.state = .pendingRequest) :
    Probing p (.receive message) (receivePendingRequest message t) := by
  apply elsewhere (by simp [hstate])
  · cases message
    all_goals simp [receivePendingRequest, hp]
  · cases message
    all_goals simp [receivePendingRequest, hquiet]

private theorem probing_receiveQueued (hstate : p.state = .queued) :
    Probing p (.receive message) (receiveQueued message t) := by
  have hstays : Probing p (.receive message) t :=
    .untouched (congrArg t104 hp) (fun _ => hp ▸ hstate) hquiet
  cases message with
  | granted =>
    simp only [receiveQueued]
    split
    · exact hstays
    · exact .stopped (by simp) (by simp [hquiet, FloorEvent.abandonsPlace])
  | denied | idle =>
    exact .stopped (by simp [receiveQueued, leaveQueue]) (by simp [receiveQueued, hquiet])
  | queuePositionInfo => exact .stopped (by simp [receiveQueued]) (by simp [receiveQueued, hquiet])
  | revoke =>
    simp only [receiveQueued]
    split
    · exact .stopped (by simp [leaveQueue]) (by simp [hquiet])
    · exact hstays
  | taken =>
    exact .untouched (by simp [receiveQueued, hp]) (by simp [receiveQueued, hp])
      (by simp [receiveQueued, hquiet])
  | request | release | queuePositionRequest | ack => exact hstays

private theorem probing_receiveHasPermission (hstate : p.state = .hasPermission) :
    Probing p (.receive message) (receiveHasPermission message t) := by
  apply elsewhere (by simp [hstate])
  · cases message with
    | taken =>
      simp only [receiveHasPermission]
      split
      · simp [hp]
      · split
        all_goals simp [hp]
    | _ => simp [receiveHasPermission, hp]
  · cases message with
    | taken =>
      simp only [receiveHasPermission]
      split
      · simp [hquiet]
      · split
        all_goals simp [hquiet]
    | _ => simp [receiveHasPermission, hquiet]

private theorem probing_receivePendingRelease (hstate : p.state = .pendingRelease) :
    Probing p (.receive message) (receivePendingRelease message t) := by
  apply elsewhere (by simp [hstate])
  · cases message
    all_goals simp [receivePendingRelease, hp]
  · cases message
    all_goals simp [receivePendingRelease, hquiet]

private theorem probing_receiveIdle (hstate : p.state = .idle) :
    Probing p (.receive message) (receiveIdle message t) := by
  apply elsewhere (by simp [hstate])
  · cases message with
    | granted =>
      simp only [receiveIdle]
      split
      all_goals simp [hp]
    | _ => simp [receiveIdle, hp]
  · cases message with
    | granted =>
      simp only [receiveIdle]
      split
      all_goals simp [hquiet]
    | _ => simp [receiveIdle, hquiet]

end Messages

private theorem probing_receive (message : Message) :
    Probing p (.receive message) (receive message ⟨p, {}⟩) := by
  -- The acknowledgement that goes before asks nothing and leaves the participant as it is.
  have hp : (acknowledge message ⟨p, {}⟩).machine = p := machine_acknowledge message
  have hquiet : presses (acknowledge message ⟨p, {}⟩) = false := presses_acknowledge message
  cases hstate : p.state with
  | startStop =>
    exact elsewhere (by simp [hstate]) (by simp [receive, hstate]) (by simp [receive, hstate])
  | pendingRequest =>
    simpa only [receive, hstate] using probing_receivePendingRequest hp hquiet hstate
  | queued => simpa only [receive, hstate] using probing_receiveQueued hp hquiet hstate
  | hasPermission =>
    simpa only [receive, hstate] using probing_receiveHasPermission hp hquiet hstate
  | pendingRelease =>
    simpa only [receive, hstate] using probing_receivePendingRelease hp hquiet hstate
  | idle => simpa only [receive, hstate] using probing_receiveIdle hp hquiet hstate

private theorem probing_expire (ticket : Ticket) (hwaits : p.Waits) :
    Probing p (.expire ticket) (expire ticket ⟨p, {}⟩) := by
  have hrefused : Probing p (.expire ticket) ⟨p, {}⟩ := .untouched rfl id rfl
  simp only [expire]
  split
  · split
    · next haccepts =>
      have hstate : p.state = .pendingRequest :=
        hwaits.asking.mp ((p.t101.accepts_iff ticket).mp haccepts).1
      apply elsewhere (by simp [hstate])
      · simp only [expireT101]
        split
        · split
          all_goals simp
        · rfl
      · simp only [expireT101]
        split
        · split
          all_goals simp [requestMessage, Message.kind]
        · rfl
    · exact hrefused
  · split
    · next haccepts =>
      have hstate : p.state = .pendingRelease :=
        hwaits.returning.mp ((p.t100.accepts_iff ticket).mp haccepts).1
      apply elsewhere (by simp [hstate])
      · simp only [expireT100]
        split
        · split
          all_goals simp
        · rfl
      · simp only [expireT100]
        split
        · split
          all_goals simp [Message.kind]
        · rfl
    · exact hrefused
  · split
    · next haccepts =>
      simp only [expireT104]
      split
      · next hstate =>
        have hstate : p.state = .queued := hstate
        refine .pressed haccepts hstate ?_
        split
        · simp [leaveQueue]
        · simp [hstate]
      · exact .stopped rfl rfl
    · exact hrefused
  · next hid =>
    split
    · next haccepts =>
      have hgrant : p.grantPending = true :=
        hwaits.deciding.mp ((p.t132.accepts_iff ticket).mp haccepts).1
      have hquiet : presses (expireT132 ((⟨p, {}⟩ : Turn Participant).update fun p =>
          { p with t132 := p.t132.rest })) = false := by
        simp [expireT132, hgrant]
      cases hruns : p.t104.running with
      | true => exact .forgotten (by simp [forgets, hid, haccepts, hgrant, hruns]) hquiet
      | false => exact .stopped (by simp [expireT132, hgrant, hruns]) hquiet
    · exact hrefused
  all_goals exact hrefused

/-- Every step leaves T104 alone, stops it, has it run in the queue, or forgets it. -/
theorem probing_handle (input : Input) (hwaits : p.Waits) :
    Probing p input (p.handle input) := by
  have hcalm {t : Turn Participant} (h104 : t.machine.t104 = p.t104)
      (hstate : t.machine.state = p.state) (hquiet : presses t = false) : Probing p input t :=
    .untouched h104 (hstate ▸ ·) hquiet
  cases input with
  | initialized =>
    simp only [handle, callInitialized]
    split
    · next hstate =>
      have hstate : p.state = .startStop := hstate
      exact elsewhere (by simp [hstate]) (by simp) (by simp)
    · exact hcalm rfl rfl rfl
  | established granted priority =>
    simp only [handle, callEstablished]
    split
    · next h =>
      have hstate : p.state = .idle := by
        simp only [Bool.and_eq_true, decide_eq_true_eq] at h
        exact h.2
      exact elsewhere (by simp [hstate]) (by simp) (by simp)
    · exact hcalm rfl rfl rfl
  | push =>
    simp only [handle, pushToTalk]
    split
    · exact hcalm rfl rfl (by simp)
    · split
      · next hstate =>
        have hstate : p.state = .idle := hstate
        exact elsewhere (by simp [hstate]) (by simp) (by simp [requestMessage, Message.kind])
      · exact hcalm rfl rfl rfl
  | release =>
    simp only [handle, releaseToTalk]
    split
    · next hstate => exact elsewhere (by simp [hstate]) (by simp) (by simp)
    · next hstate => exact elsewhere (by simp [hstate]) (by simp) (by simp)
    · exact .stopped (by simp [leaveQueue]) (by simp)
    all_goals exact hcalm rfl rfl rfl
  | accept =>
    simp only [handle, acceptGrant]
    split
    · next h =>
      cases hruns : p.t104.running with
      | true => exact .forgotten (by simpa [forgets, hruns] using h) (by simp)
      | false => exact .stopped (by simp [hruns]) (by simp)
    · exact hcalm rfl rfl rfl
  | askPosition =>
    simp only [handle, askQueuePosition]
    split
    · next hstate => exact .asked rfl hstate (by simpa using hstate)
    · exact hcalm rfl rfl rfl
  | setDual | setIndicator | finishRelease => exact hcalm rfl rfl rfl
  | receive message => exact probing_receive message
  | expire ticket => exact probing_expire ticket hwaits
  | beginRelease =>
    exact .stopped (by simp [handle, beginRelease, stopTimers]) (by simp [handle, beginRelease])
  | stopTimers => exact .stopped (by simp [handle, stopTimers]) rfl

theorem t104_handle_of_forgets (hforgets : p.forgets input = true) :
    (p.handle input).machine.t104.running = true ∧ (p.handle input).machine.state ≠ .queued := by
  cases input with
  | accept =>
    simp only [forgets, Bool.and_eq_true, decide_eq_true_eq] at hforgets
    obtain ⟨⟨hstate, hgrant⟩, hruns⟩ := hforgets
    simp [handle, acceptGrant, hstate, hgrant, hruns]
  | expire ticket =>
    simp only [forgets, Bool.and_eq_true, decide_eq_true_eq] at hforgets
    obtain ⟨⟨⟨hid, haccepts⟩, hgrant⟩, hruns⟩ := hforgets
    simp [handle, expire, hid, haccepts, expireT132, hgrant, hruns]
  | _ => cases hforgets

theorem run_concat (inputs : List Input) (input : Input) :
    p.run (inputs ++ [input]) = ((p.run inputs).handle input).machine := by
  simp [run]

theorem AskedInStay.queued (h : p.AskedInStay inputs) : (p.run inputs).state = .queued := by
  obtain ⟨i, hi, -, hstay⟩ := h
  simpa using hstay inputs.length le_rfl hi.le

/-- A stay in the queue goes on with every step that ends in the queue. -/
theorem AskedInStay.concat (h : p.AskedInStay inputs)
    (hstate : ((p.run inputs).handle input).machine.state = .queued) :
    p.AskedInStay (inputs ++ [input]) := by
  obtain ⟨i, hi, hask, hstay⟩ := h
  refine ⟨i, by simp; omega, by rwa [List.getElem?_append_left hi], fun j hj hij => ?_⟩
  rw [List.length_append, List.length_singleton] at hj
  rcases hj.lt_or_eq with hj | rfl
  · rw [List.take_append_of_le_length (by omega)]
    exact hstay j (by omega) hij
  · rw [List.take_of_length_le (by simp), run_concat]
    exact hstate

theorem askedInStay_of_ask (hstate : (p.run inputs).state = .queued)
    (hstays : ((p.run inputs).handle .askPosition).machine.state = .queued) :
    p.AskedInStay (inputs ++ [.askPosition]) := by
  refine ⟨inputs.length, by simp, by simp, fun j hj hij => ?_⟩
  rw [List.length_append, List.length_singleton] at hj
  rcases hij.eq_or_lt with rfl | hij
  · rwa [List.take_left]
  · rw [List.take_of_length_le (by simp; omega), run_concat]
    exact hstays

/-- While no step forgets T104, it runs only in a stay in the queue in which the user has asked. -/
theorem askedInStay_of_running (hwaits : p.Waits) (hstopped : p.t104.running = false)
    (hongoing : .stopTimers ∉ inputs)
    (hmindful : ∀ k (_ : k < inputs.length), (p.run (inputs.take k)).forgets inputs[k] = false)
    (hruns : (p.run inputs).t104.running = true) : p.AskedInStay inputs := by
  induction inputs using List.reverseRecOn with
  | nil => simp [run, hstopped] at hruns
  | append_singleton inputs input ih =>
    rw [List.mem_append, not_or] at hongoing
    have hbefore : (p.run inputs).t104.running = true → p.AskedInStay inputs := by
      refine ih hongoing.1 fun k hk => ?_
      have := hmindful k (by simp; omega)
      rwa [List.take_append_of_le_length hk.le, List.getElem_append_left hk] at this
    have hlast : (p.run inputs).forgets input = false := by
      simpa using hmindful inputs.length (by simp)
    rw [run_concat] at hruns
    cases probing_handle input (waits_run_of_waits inputs hongoing.1 hwaits) with
    | untouched h104 hstays =>
      have hasked := hbefore (h104 ▸ hruns)
      exact hasked.concat (hstays hasked.queued)
    | stopped hrests => simp [hrests] at hruns
    | asked hinput hstate hstays =>
      subst hinput
      exact askedInStay_of_ask hstate hstays
    | pressed haccepts _ hstays =>
      exact (hbefore ((Timer.accepts_iff _ _).mp haccepts).1).concat (hstays hruns)
    | forgotten hforgets => simp [hlast] at hforgets

/-- However a participant is configured and whatever happens to it: the questions for the place end
with the stay in the queue exactly if the user never accepts the floor, and never lets T132 run out,
while T104 runs. -/
theorem probes_end_with_stay_iff (callId : CallId) (ssrc : Ssrc) (callType : CallType)
    (priority : Priority) (originator : Bool) (config : ParticipantConfig) (inputs : List Input)
    {p : Participant} (hp : p = create callId ssrc callType priority originator config)
    (hongoing : .stopTimers ∉ inputs) :
    ((∀ k ≤ inputs.length, (p.run (inputs.take k)).t104.running = true →
        (p.run (inputs.take k)).state = .queued) ∧
      ∀ k (_ : k < inputs.length), inputs[k] ≠ .askPosition →
        presses ((p.run (inputs.take k)).handle inputs[k]) = true →
          p.AskedInStay (inputs.take k)) ↔
    ∀ k (_ : k < inputs.length), (p.run (inputs.take k)).forgets inputs[k] = false := by
  have hwaits : p.Waits := hp ▸ waits_create ..
  have hstopped : p.t104.running = false := hp ▸ rfl
  have hongoing (k : ℕ) : .stopTimers ∉ inputs.take k := fun h => hongoing (List.mem_of_mem_take h)
  constructor
  · rintro ⟨hend, -⟩ k hk
    rw [Bool.eq_false_iff]
    intro hforgets
    obtain ⟨hruns, hleft⟩ := t104_handle_of_forgets hforgets
    have hnext : p.run (inputs.take (k + 1)) =
        ((p.run (inputs.take k)).handle inputs[k]).machine := by
      rw [List.take_succ_eq_append_getElem hk, run_concat]
    exact hleft (hnext ▸ hend (k + 1) hk (hnext ▸ hruns))
  · intro hmindful
    have hasked (k : ℕ) (hruns : (p.run (inputs.take k)).t104.running = true) :
        p.AskedInStay (inputs.take k) := by
      refine askedInStay_of_running hwaits hstopped (hongoing k) (fun i hi => ?_) hruns
      rw [List.length_take] at hi
      rw [List.take_take, min_eq_left (by omega), List.getElem_take]
      exact hmindful i (by omega)
    refine ⟨fun k _ hruns => (hasked k hruns).queued, fun k hk hother hpresses => ?_⟩
    cases probing_handle inputs[k] (waits_run_of_waits _ (hongoing k) hwaits) with
    | untouched _ _ hquiet => simp [hquiet] at hpresses
    | stopped _ hquiet => simp [hquiet] at hpresses
    | asked hinput => exact absurd hinput hother
    | pressed haccepts => exact hasked k ((Timer.accepts_iff _ _).mp haccepts).1
    | forgotten hforgets => simp [hmindful k hk] at hforgets

private def heard : List Input :=
  [.initialized, .push, .receive (.queuePositionInfo 7 1 5), .askPosition,
    .expire ⟨.participant 7, .t104, 1⟩, .receive (.granted 7 5 30000 false false), .accept]

theorem probes_end_with_stay_heard :
    let p := create 1 7 .basic 5 true {}
    presses ((p.run (heard.take 4)).handle (.expire ⟨.participant 7, .t104, 1⟩)) = true ∧
      p.AskedInStay (heard.take 4) ∧ (p.run heard).state = .hasPermission ∧
      ∀ k ≤ heard.length, (p.run (heard.take k)).t104.running = true →
        (p.run (heard.take k)).state = .queued := by
  intro p
  have hend := (probes_end_with_stay_iff 1 7 .basic 5 true {} heard rfl (by decide)).mpr
    (by decide)
  exact ⟨by decide, hend.2 4 (by decide) (by decide) (by decide), by decide, hend.1⟩

/-- The user asks only after the offer, and talks while the question is open. -/
private def unheard : List Input :=
  [.initialized, .push, .receive (.queuePositionInfo 7 1 5),
    .receive (.granted 7 5 30000 false false), .askPosition, .accept]

/-- In the next stay in the queue the question is repeated, and the user has not asked in it. -/
theorem probes_outlast_stay :
    let p := create 1 7 .basic 5 true {}
    let again := unheard ++ [.release, .receive (.idle false), .push,
      .receive (.queuePositionInfo 7 1 5)]
    (p.run unheard).t104.running = true ∧ (p.run unheard).state = .hasPermission ∧
      presses ((p.run again).handle (.expire ⟨.participant 7, .t104, 1⟩)) = true ∧
      ¬ p.AskedInStay again := by
  decide

end Participant
end FloorControl
