import FloorControl.Proofs.ParticipantTimers
import FloorControl.Proofs.Patience
import FloorControl.Proofs.Repetition
import FloorControl.Proofs.Upkeep

/-!
# How often a participant asks

A participant that waits for an answer to its request, or for the confirmation of its release, has
sent its message once when the wait began and once more for every time that its timer has run out,
except for the last time, when it gives up instead and says so. Nothing else that happens in the
meantime sends the message, moves the count, or makes the participant give up.
-/

namespace FloorControl

namespace Participant

variable {w : Wait} {p : Participant} {t : Turn Participant} {input : Input}

namespace Wait

def kind : Wait → MessageKind
  | .answer => .request
  | .confirmation => .release

def sends (w : Wait) (t : Turn Participant) : ℕ := t.out.messages.countP (·.message.kind = w.kind)

def failures (w : Wait) (t : Turn Participant) : ℕ := t.out.events.countP (·.reports w.failure)

def expires (w : Wait) (p : Participant) : Input → Bool
  | .expire ticket => (w.timer p).accepts ticket
  | _ => false

/-- A turn in which the message has not been sent and nobody has given up. -/
def Quiet (w : Wait) (t : Turn Participant) : Prop := w.sends t = 0 ∧ w.failures t = 0

theorem failures_moveTo (next : ParticipantState) : w.failures (moveTo next t) = w.failures t := by
  simp only [moveTo]
  split
  · rfl
  · simp [failures, FloorEvent.reports]

theorem quiet_nil (p : Participant) : w.Quiet ⟨p, {}⟩ := ⟨rfl, rfl⟩

namespace Quiet

variable (h : w.Quiet t)

include h

theorem update (f : Participant → Participant) : w.Quiet (t.update f) := h

theorem tell {event : FloorEvent} (hplain : event.reports w.failure = false) :
    w.Quiet (t.tell event) :=
  ⟨h.1, by simpa [failures, List.countP_singleton, hplain] using h.2⟩

theorem send {message : Message} (hother : message.kind ≠ w.kind) : w.Quiet (send message t) :=
  ⟨by simpa [sends, Participant.send, List.countP_singleton, hother] using h.1, h.2⟩

theorem moveTo (next : ParticipantState) : w.Quiet (moveTo next t) :=
  ⟨by simpa [sends] using h.1, (failures_moveTo next).trans h.2⟩

theorem tellDenied (cause : DenyCause) (onSite : Bool) : w.Quiet (tellDenied cause onSite t) :=
  h.tell rfl

theorem tellFailure {kind : FailureKind} (hother : kind ≠ w.failure) :
    w.Quiet (tellFailure kind t) := h.tell (by simp [FloorEvent.reports, hother])

theorem takeFloor : w.Quiet (takeFloor t) := ((h.update _).moveTo _).tell rfl

theorem loseFloor (talker : Option Ssrc) : w.Quiet (loseFloor talker t) := (h.update _).moveTo _

theorem acknowledge (message : Message) : w.Quiet (acknowledge message t) := by
  simp only [Participant.acknowledge]
  split
  · exact h.send (by cases w <;> simp [Message.kind, kind])
  · exact h

end Quiet

/-- What a step does about a wait, if it is not the timer of the wait that runs out. -/
inductive Work (w : Wait) (p : Participant) (t : Turn Participant) : Prop
  /-- Nothing. If the participant waits afterwards, it has waited before, with the same count. -/
  | rests : w.Quiet t → (t.machine.state = w.state →
      p.state = w.state ∧ w.counter t.machine = w.counter p) → Work w p t
  /-- The wait begins, with one message. -/
  | begins : p.state ≠ w.state → t.machine.state = w.state → w.sends t = 1 → w.failures t = 0 →
      (w.counter t.machine).value = 0 → Work w p t

private theorem elsewhere (h : w.Quiet t) (hstate : t.machine.state ≠ w.state) : Work w p t :=
  .rests h fun hwaits => absurd hwaits hstate

private theorem unchanged (h : w.Quiet t) (hstate : t.machine.state = p.state)
    (h100 : t.machine.c100 = p.c100) (h101 : t.machine.c101 = p.c101) : Work w p t := by
  refine .rests h fun hwaits => ⟨hstate ▸ hwaits, ?_⟩
  cases w with
  | answer => exact h101
  | confirmation => exact h100

/-- The wait for the confirmation of a release begins, and no other. -/
private theorem work_startRelease (h : w.Quiet t) (hstate : p.state ≠ .pendingRelease) :
    Work w p (startRelease t) := by
  have hfailures : w.failures (startRelease t) = 0 := by
    rw [startRelease, failures_moveTo]
    exact h.2
  cases w with
  | answer =>
    refine elsewhere ⟨?_, hfailures⟩ (by simp [state])
    simpa [sends, Message.kind, kind] using h.1
  | confirmation =>
    refine .begins hstate (by simp [state]) ?_ hfailures (by simp [counter, Counter.reset])
    simpa [sends, Message.kind, kind, List.countP_singleton] using h.1

private theorem work_startRequest (hidle : p.state = .idle) :
    Work w p (moveTo .pendingRequest (startT101 ((send p.requestMessage ⟨p, {}⟩).update fun p =>
      { p with c101 := p.c101.reset }))) := by
  have hfailures : w.failures (moveTo .pendingRequest (startT101
      ((send p.requestMessage ⟨p, {}⟩).update fun p => { p with c101 := p.c101.reset }))) = 0 := by
    rw [failures_moveTo]
    rfl
  cases w with
  | answer =>
    refine .begins (by simp [hidle, state]) (by simp [state]) ?_ hfailures ?_
    · simp [sends, requestMessage, Message.kind, kind]
    · simp [counter, Counter.reset]
  | confirmation =>
    refine elsewhere ⟨?_, hfailures⟩ (by simp [state])
    simp [sends, requestMessage, Message.kind, kind]

section Messages

variable (hp : t.machine = p) (h : w.Quiet t)

include hp h

private theorem work_same : Work w p t := unchanged h (hp ▸ rfl) (hp ▸ rfl) (hp ▸ rfl)

private theorem work_receivePendingRequest (message : Message) :
    Work w p (receivePendingRequest message t) := by
  cases message with
  | granted =>
    exact elsewhere (h.update _).takeFloor (by cases w <;> simp [receivePendingRequest, state])
  | denied =>
    exact elsewhere (((h.update _).moveTo _).tellDenied _ _)
      (by cases w <;> simp [receivePendingRequest, state])
  | queuePositionInfo =>
    exact elsewhere ((h.update _).moveTo _) (by cases w <;> simp [receivePendingRequest, state])
  | taken => exact unchanged (h.update _) (hp ▸ rfl) (hp ▸ rfl) (hp ▸ rfl)
  | request | release | idle | revoke | queuePositionRequest | ack => exact work_same hp h

private theorem work_receiveQueued (message : Message) (hstate : p.state = .queued) :
    Work w p (receiveQueued message t) := by
  cases message with
  | granted =>
    simp only [receiveQueued]
    split
    · exact work_same hp h
    · exact unchanged (Quiet.tell (t := startT132 _) (h.update _) rfl) (hp ▸ rfl) (hp ▸ rfl)
        (hp ▸ rfl)
  | denied =>
    exact elsewhere (((h.update _).moveTo _).tellDenied _ _)
      (by cases w <;> simp [receiveQueued, state])
  | queuePositionInfo | taken => exact unchanged (h.update _) (hp ▸ rfl) (hp ▸ rfl) (hp ▸ rfl)
  | idle => exact elsewhere ((h.update _).moveTo _) (by cases w <;> simp [receiveQueued, state])
  | revoke =>
    simp only [receiveQueued]
    split
    · exact work_startRelease ((h.update _).tell rfl) (by simp [hstate])
    · exact work_same hp h
  | request | release | queuePositionRequest | ack => exact work_same hp h

private theorem work_receiveHasPermission (message : Message) (hstate : p.state = .hasPermission) :
    Work w p (receiveHasPermission message t) := by
  have hloses (talker : Option Ssrc) : Work w p (loseFloor talker t) :=
    elsewhere (h.loseFloor talker) (by cases w <;> simp [state])
  cases message with
  | revoke => exact work_startRelease (h.tell rfl) (by simp [hstate])
  | taken =>
    simp only [receiveHasPermission]
    split
    · exact unchanged (h.update _) (hp ▸ rfl) (hp ▸ rfl) (hp ▸ rfl)
    · split
      · exact unchanged (h.update _) (hp ▸ rfl) (hp ▸ rfl) (hp ▸ rfl)
      · exact hloses _
  | idle => exact hloses none
  | request | granted | denied | release | queuePositionRequest | queuePositionInfo | ack =>
    exact work_same hp h

private theorem work_receivePendingRelease (message : Message) :
    Work w p (receivePendingRelease message t) := by
  cases message with
  | idle | taken | denied =>
    exact elsewhere ((h.update _).moveTo _) (by cases w <;> simp [receivePendingRelease, state])
  | request | granted | release | revoke | queuePositionRequest | queuePositionInfo | ack =>
    exact work_same hp h

private theorem work_receiveIdle (message : Message) (hstate : p.state = .idle) :
    Work w p (receiveIdle message t) := by
  cases message with
  | granted =>
    simp only [receiveIdle]
    split
    · exact work_startRelease h (by simp [hstate])
    · exact work_same hp h
  | taken | idle => exact unchanged (h.update _) (hp ▸ rfl) (hp ▸ rfl) (hp ▸ rfl)
  | request | denied | release | revoke | queuePositionRequest | queuePositionInfo | ack =>
    exact work_same hp h

end Messages

private theorem work_receive (message : Message) : Work w p (receive message ⟨p, {}⟩) := by
  have hp : (acknowledge message ⟨p, {}⟩).machine = p := machine_acknowledge message
  have h : w.Quiet (acknowledge message ⟨p, {}⟩) := (quiet_nil p).acknowledge message
  simp only [receive]
  split
  · exact work_same rfl (quiet_nil p)
  · exact work_receivePendingRequest hp h message
  · next hstate => exact work_receiveQueued hp h message hstate
  · next hstate => exact work_receiveHasPermission hp h message hstate
  · exact work_receivePendingRelease hp h message
  · next hstate => exact work_receiveIdle hp h message hstate

section Expire

variable {ticket : Ticket}
  (hother : p.state = w.state → w.expires p (.expire ticket) = false)

include hother

private theorem work_expireT101 (haccepts : p.t101.accepts ticket = true) :
    Work w p (expireT101 ((⟨p, {}⟩ : Turn Participant).update fun p =>
      { p with t101 := p.t101.rest })) := by
  simp only [expireT101]
  split
  · next hstate =>
    have hstate : p.state = .pendingRequest := hstate
    cases w with
    | answer => exact absurd ((hother hstate).symm.trans haccepts) (by decide)
    | confirmation =>
      split
      · refine elsewhere (.tellFailure (.moveTo ?_ _) (by decide)) (by simp [state])
        exact quiet_nil p
      · refine elsewhere ?_ (by simp [state, hstate])
        refine Quiet.send (Quiet.update (quiet_nil p) _) ?_
        simp [requestMessage, Message.kind, kind]
  · exact unchanged (quiet_nil p) rfl rfl rfl

private theorem work_expireT100 (haccepts : p.t100.accepts ticket = true) :
    Work w p (expireT100 ((⟨p, {}⟩ : Turn Participant).update fun p =>
      { p with t100 := p.t100.rest })) := by
  simp only [expireT100]
  split
  · next hstate =>
    have hstate : p.state = .pendingRelease := hstate
    cases w with
    | confirmation => exact absurd ((hother hstate).symm.trans haccepts) (by decide)
    | answer =>
      split
      · refine elsewhere (.tellFailure (.moveTo ?_ _) (by decide)) (by simp [state])
        exact quiet_nil p
      · refine elsewhere ?_ (by simp [state, hstate])
        exact Quiet.send (Quiet.update (quiet_nil p) _) (by simp [Message.kind, kind])
  · exact unchanged (quiet_nil p) rfl rfl rfl

omit hother in
private theorem work_expireT104 : Work w p (expireT104 ((⟨p, {}⟩ : Turn Participant).update fun p =>
    { p with t104 := p.t104.rest })) := by
  simp only [expireT104]
  split
  · next hstate =>
    have hstate : p.state = .queued := hstate
    split
    · refine elsewhere (.tellFailure (.moveTo ?_ _) ?_) ?_
      · exact quiet_nil p
      · cases w <;> decide
      · cases w <;> simp [state]
    · refine elsewhere (Quiet.send (Quiet.update (quiet_nil p) _) ?_) ?_
      · cases w <;> simp [Message.kind, kind]
      · cases w <;> simp [state, hstate]
  · exact unchanged (quiet_nil p) rfl rfl rfl

omit hother in
private theorem work_expireT132 (hpending : p.grantPending = true → p.state = .queued) :
    Work w p (expireT132 ((⟨p, {}⟩ : Turn Participant).update fun p =>
      { p with t132 := p.t132.rest })) := by
  simp only [expireT132]
  split
  · next hgrant =>
    apply work_startRelease
    · refine Quiet.tellFailure (Quiet.update (quiet_nil p) _) ?_
      cases w <;> decide
    · simp [hpending hgrant]
  · exact unchanged (quiet_nil p) rfl rfl rfl

private theorem work_expire (hpending : p.grantPending = true → p.state = .queued) :
    Work w p (expire ticket ⟨p, {}⟩) := by
  have hrefused : Work w p ⟨p, {}⟩ := work_same rfl (quiet_nil p)
  simp only [expire]
  split
  · split
    · next haccepts => exact work_expireT101 hother haccepts
    · exact hrefused
  · split
    · next haccepts => exact work_expireT100 hother haccepts
    · exact hrefused
  · split
    · exact work_expireT104
    · exact hrefused
  · split
    · exact work_expireT132 hpending
    · exact hrefused
  all_goals exact hrefused

end Expire

/-- Unless the timer of a wait runs out, a step leaves the wait alone, ends it or begins it. -/
theorem work_handle (w : Wait) (input : Input)
    (hpending : p.grantPending = true → p.state = .queued)
    (hother : p.state = w.state → w.expires p input = false) : Work w p (p.handle input) := by
  have hrests : Work w p ⟨p, {}⟩ := work_same rfl (quiet_nil p)
  cases input with
  | initialized =>
    simp only [handle, callInitialized]
    split
    · refine elsewhere (.moveTo ?_ _) (by cases w <;> simp [state])
      exact quiet_nil p
    · exact hrests
  | established granted priority =>
    simp only [handle, callEstablished]
    split
    · exact elsewhere (Quiet.takeFloor (quiet_nil p)) (by cases w <;> simp [state])
    · exact unchanged (quiet_nil p) rfl rfl rfl
  | push =>
    simp only [handle, pushToTalk]
    split
    · exact unchanged (Quiet.tellDenied (quiet_nil p) _ _) rfl rfl rfl
    · split
      · next hidle => exact work_startRequest hidle
      · exact hrests
  | release =>
    simp only [handle, releaseToTalk]
    split
    · next hstate => exact work_startRelease (quiet_nil p) (by simp [hstate])
    · next hstate => exact work_startRelease (quiet_nil p) (by simp [hstate])
    · next hstate => exact work_startRelease (quiet_nil p) (by simp [hstate])
    all_goals exact hrests
  | accept =>
    simp only [handle, acceptGrant]
    split
    · exact elsewhere (Quiet.takeFloor (quiet_nil p)) (by cases w <;> simp [state])
    · exact hrests
  | askPosition =>
    simp only [handle, askQueuePosition]
    split
    · next hstate =>
      refine elsewhere (Quiet.send (quiet_nil p) ?_) ?_
      · cases w <;> simp [Message.kind, kind]
      · cases w <;> simp [state, show p.state = .queued from hstate]
    · exact hrests
  | receive message => exact work_receive message
  | expire ticket => exact work_expire hother hpending
  | beginRelease =>
    simp only [handle, beginRelease]
    refine elsewhere (.moveTo ?_ _) (by cases w <;> simp [state])
    exact quiet_nil p
  | setDual | setIndicator | finishRelease | stopTimers => exact unchanged (quiet_nil p) rfl rfl rfl

end Wait

structure Equipped (ssrc : Ssrc) (config : ParticipantConfig) (p : Participant) : Prop where
  make : p.timers.map Timer.make = makes ssrc config
  c100 : p.c100.limit = config.c100Limit.toNat
  c101 : p.c101.limit = config.c101Limit.toNat
  pending : p.grantPending = true → p.state = .queued

variable {ssrc : Ssrc} {config : ParticipantConfig}

theorem upheld_limits (first second : ℕ) :
    Upheld fun t => t.machine.c100.limit = first ∧ t.machine.c101.limit = second where
  update _ hmild h := ⟨hmild.c100.trans h.1, hmild.c101.trans h.2⟩
  post _ _ h := h
  tell _ _ _ h := h
  arm _ h := h

theorem equipped_create (callId : CallId) (ssrc : Ssrc) (callType : CallType) (priority : Priority)
    (originator : Bool) (config : ParticipantConfig) :
    (create callId ssrc callType priority originator config).Equipped ssrc config :=
  ⟨map_make_create .., rfl, rfl, by simp [create]⟩

/-- Whatever happens to a participant, it stays what it was made as. -/
theorem equipped_handle (input : Input) (h : p.Equipped ssrc config) :
    (p.handle input).machine.Equipped ssrc config := by
  have hlimits : (p.handle input).machine.c100.limit = config.c100Limit.toNat ∧
      (p.handle input).machine.c101.limit = config.c101Limit.toNat := by
    have hupheld := upheld_limits config.c100Limit.toNat config.c101Limit.toNat
    by_cases hexpire : ∃ ticket, input = .expire ticket
    · obtain ⟨ticket, rfl⟩ := hexpire
      exact hupheld.expire ticket (fun _ _ hu => hu) ⟨h.c100, h.c101⟩
    · exact hupheld.handle input (fun ticket heq => hexpire ⟨ticket, heq⟩) ⟨h.c100, h.c101⟩
  refine ⟨?_, hlimits.1, hlimits.2, ?_⟩
  · by_cases hexpire : ∃ ticket, input = .expire ticket
    · obtain ⟨ticket, rfl⟩ := hexpire
      rw [← h.make]
      refine (acts_expire ticket (t := ⟨p, {}⟩) h.make).map_make.trans ?_
      simp [Function.comp_def]
    · rw [← h.make]
      exact (acts_handle fun ticket heq => hexpire ⟨ticket, heq⟩).map_make
  · by_cases hrelease : input = .beginRelease
    · subst hrelease
      simp [handle, beginRelease]
    · exact (conduct_handle input hrelease h.pending).pending

theorem equipped_run (inputs : List Input) (h : p.Equipped ssrc config) :
    (p.run inputs).Equipped ssrc config := by
  induction inputs generalizing p with
  | nil => exact h
  | cons input inputs ih => exact ih (equipped_handle input h)

namespace Wait

theorem Equipped.named (h : p.Equipped ssrc config) : Named p := by
  have hmake := h.make
  simp only [timers, makes, List.map_cons, List.map_nil, List.cons.injEq, Timer.make,
    Prod.mk.injEq] at hmake
  exact ⟨hmake.1.2.1, hmake.2.1.2.1⟩

theorem Equipped.limit_counter (h : p.Equipped ssrc config) (w : Wait) :
    (w.counter p).limit = w.limit config := by
  cases w with
  | answer => exact h.c101
  | confirmation => exact h.c100

def repetition (w : Wait) (config : ParticipantConfig) : Repetition Participant Input where
  limit := w.limit config
  goes p := p.state = w.state
  finished p := p.state = .idle ∧ (w.timer p).running = false
  count p := (w.counter p).value
  expiries input p := if w.expires p input then 1 else 0
  repeats input p := w.sends (p.handle input)
  failures input p := w.failures (p.handle input)

section Expiry

variable {ticket : Ticket} (h : p.Equipped ssrc config) (hstate : p.state = w.state)
  (haccepts : (w.timer p).accepts ticket = true)

include h hstate haccepts

private theorem beat_givesUp (harrives : (w.counter p).arrives = true) {u : Turn Participant}
    (hturn : p.handle (.expire ticket) = tellFailure w.failure (moveTo .idle u))
    (hquiet : w.Quiet u) (hrests : (w.timer u.machine).running = false) :
    (w.repetition config).Beat (.expire ticket) p (p.handle (.expire ticket)).machine := by
  have hidle : (p.handle (.expire ticket)).machine.state = .idle := by simp [hturn]
  have hstopped : (w.timer (p.handle (.expire ticket)).machine).running = false := by
    rw [hturn]
    cases w <;> simpa [timer] using hrests
  have hlast : (w.counter p).value + 1 = w.limit config := by
    simpa [Counter.arrives, Equipped.limit_counter h w] using harrives
  have hsends : w.sends (p.handle (.expire ticket)) = 0 := by
    rw [hturn]
    exact (hquiet.moveTo .idle).1
  have hfailures : w.failures (p.handle (.expire ticket)) = 1 := by
    have hbefore := (hquiet.moveTo .idle).2
    rw [hturn]
    simpa [failures, tellFailure, List.countP_singleton, FloorEvent.reports] using hbefore
  refine .ends hstate ?_ ⟨hidle, hstopped⟩ hlast (if_pos haccepts) hsends hfailures
  change (p.handle (.expire ticket)).machine.state ≠ w.state
  rw [hidle]
  cases w <;> simp [state]

private theorem beat_again (harrives : (w.counter p).arrives = false)
    (hturn : p.handle (.expire ticket) = t) (hstays : t.machine.state = p.state)
    (hcounts : w.counter t.machine = (w.counter p).increment) (hsends : w.sends t = 1)
    (hfailures : w.failures t = 0) :
    (w.repetition config).Beat (.expire ticket) p (p.handle (.expire ticket)).machine := by
  subst hturn
  have hlimit := Equipped.limit_counter h w
  have hbelow : (w.counter p).value + 1 ≠ w.limit config := by
    simpa [Counter.arrives, hlimit] using harrives
  refine .again hstate (hstays.trans hstate) hbelow (fun hroom => ?_) (if_pos haccepts) hsends
    hfailures
  change (w.counter p).value < w.limit config at hroom
  change (w.counter (p.handle (.expire ticket)).machine).value = (w.counter p).value + 1
  rw [hcounts, Counter.increment, if_pos (hlimit.symm ▸ hroom)]

/-- A participant whose timer runs out asks again or gives up. -/
private theorem beat_expire :
    (w.repetition config).Beat (.expire ticket) p (p.handle (.expire ticket)).machine := by
  have hnamed := Equipped.named h
  obtain ⟨-, hticket⟩ := (Timer.accepts_iff _ _).mp haccepts
  cases w with
  | answer =>
    have hid : ticket.id = .t101 := hticket ▸ hnamed.t101
    have hwaits : p.state = .pendingRequest := hstate
    have hdue : p.t101.accepts ticket = true := haccepts
    cases harrives : p.c101.arrives with
    | true =>
      refine beat_givesUp h hstate haccepts harrives (u := (⟨p, {}⟩ : Turn Participant).update
        fun p => { p with t101 := p.t101.rest, c101 := p.c101.increment }) ?_ (quiet_nil p) rfl
      simp [handle, expire, hid, hdue, expireT101, hwaits, harrives, failure, Turn.update]
    | false =>
      refine beat_again h hstate haccepts harrives (t := startT101 (send p.requestMessage
        ((⟨p, {}⟩ : Turn Participant).update fun p =>
          { p with t101 := p.t101.rest, c101 := p.c101.increment }))) ?_ rfl rfl rfl rfl
      simp [handle, expire, hid, hdue, expireT101, hwaits, harrives, Turn.update, requestMessage,
        indicator]
  | confirmation =>
    have hid : ticket.id = .t100 := hticket ▸ hnamed.t100
    have hwaits : p.state = .pendingRelease := hstate
    have hdue : p.t100.accepts ticket = true := haccepts
    cases harrives : p.c100.arrives with
    | true =>
      refine beat_givesUp h hstate haccepts harrives (u := (⟨p, {}⟩ : Turn Participant).update
        fun p => { p with t100 := p.t100.rest, c100 := p.c100.increment }) ?_ (quiet_nil p) rfl
      simp [handle, expire, hid, hdue, expireT100, hwaits, harrives, failure, Turn.update]
    | false =>
      refine beat_again h hstate haccepts harrives (t := startT100 (send (.release p.ssrc)
        ((⟨p, {}⟩ : Turn Participant).update fun p =>
          { p with t100 := p.t100.rest, c100 := p.c100.increment }))) ?_ rfl rfl rfl rfl
      simp [handle, expire, hid, hdue, expireT100, hwaits, harrives, Turn.update]

end Expiry

/-- What a step of a waiting participant adds to the account. -/
theorem beat_handle (w : Wait) (input : Input) (h : p.Equipped ssrc config)
    (hstate : p.state = w.state) :
    (w.repetition config).Beat input p (p.handle input).machine := by
  cases hexpires : w.expires p input with
  | true =>
    cases input with
    | expire ticket => exact beat_expire h hstate hexpires
    | _ => cases hexpires
  | false =>
    have hfinished : (w.repetition config).finished p → (w.repetition config).finished
        (p.handle input).machine := by
      rintro ⟨hidle, -⟩
      rw [hstate] at hidle
      cases w <;> cases hidle
    cases work_handle w input h.pending fun _ => hexpires with
    | rests hquiet hgoes =>
      refine .rests ?_ hquiet.1 hquiet.2 (fun hwaits => ?_) hfinished
      · simp [repetition, hexpires]
      · obtain ⟨hbefore, hcounter⟩ := hgoes hwaits
        exact ⟨hbefore, congrArg Counter.value hcounter⟩
    | begins helsewhere => exact absurd hstate helsewhere

/-- However a participant is configured, as long as its message may be sent at all, and whatever
happened before: if a wait begins and goes on through a number of steps, in which its timer runs out
`k` times, then the message has been sent once and once more each time, up to the limit. The
participant says that it gives up exactly if the limit has been reached, exactly once, and is then
idle with its timer stopped. -/
theorem sends_in_stay (w : Wait) (callId : CallId) (ssrc : Ssrc) (callType : CallType)
    (priority : Priority) (originator : Bool) (config : ParticipantConfig)
    (hlimit : 1 ≤ w.limit config) (earlier : List Input) (entry : Input) (later : List Input)
    {p q : Participant}
    (hp : p = (create callId ssrc callType priority originator config).run earlier)
    (hq : q = (p.handle entry).machine) (hbefore : p.state ≠ w.state) (hbegins : q.state = w.state)
    (hstay : ∀ i < later.length, (q.run (later.take i)).state = w.state) :
    let step := fun input (p : Participant) => (p.handle input).machine
    let k := tally step (fun input p => if w.expires p input then 1 else 0) later q
    k ≤ w.limit config ∧
      tally step (fun input p => w.sends (p.handle input)) (entry :: later) p =
        min (k + 1) (w.limit config) ∧
      tally step (fun input p => w.failures (p.handle input)) (entry :: later) p =
        (if k = w.limit config then 1 else 0) ∧
      (k = w.limit config →
        (q.run later).state = .idle ∧ (w.timer (q.run later)).running = false) := by
  intro step k
  have hequipped : p.Equipped ssrc config := hp ▸ equipped_run earlier (equipped_create ..)
  have hbeats : (w.repetition config).Beats step later q := throughout_of_take fun i hi => by
    have hq : q.Equipped ssrc config := hq ▸ equipped_handle entry hequipped
    exact beat_handle w later[i] (equipped_run (later.take i) hq) (hstay i hi)
  obtain ⟨hsends, hfailures, hcount⟩ : w.sends (p.handle entry) = 1 ∧
      w.failures (p.handle entry) = 0 ∧ (w.counter q).value = 0 := by
    subst hq
    cases work_handle w entry hequipped.pending fun hwaits => absurd hwaits hbefore with
    | rests _ hgoes => exact absurd (hgoes hbegins).1 hbefore
    | begins _ _ hsends hfailures hcount => exact ⟨hsends, hfailures, hcount⟩
  obtain ⟨hwithin, hrepeats, honce, hfinished⟩ := hbeats.afresh hlimit fun _ => hcount
  change tally step (fun input p => w.sends (p.handle input)) later q =
    min k (w.limit config - 1) at hrepeats
  change tally step (fun input p => w.failures (p.handle input)) later q =
    (if k = w.limit config then 1 else 0) at honce
  have hnext : step entry p = q := hq.symm
  refine ⟨hwithin, ?_, ?_, hfinished⟩
  · rw [tally, hsends, hnext, hrepeats]
    omega
  · rw [tally, hfailures, hnext, honce, Nat.zero_add]

/-- A request that may be sent twice: in the stay there is noise and a ticket that is worth nothing
any more, then the two tickets that count. -/
theorem sends_in_stay_unanswered :
    let config : ParticipantConfig := { c101Limit := 2 }
    let p := (create 1 7 .basic 5 true config).run [.initialized]
    let ticket (generation : ℕ) : Input := .expire ⟨.participant 7, .t101, generation⟩
    let later := [.push, .receive (.taken 3 false true), ticket 1, ticket 1, .askPosition, ticket 2]
    tally (fun input (p : Participant) => (p.handle input).machine)
        (fun input p => Wait.answer.sends (p.handle input)) (.push :: later) p = 2 ∧
      tally (fun input (p : Participant) => (p.handle input).machine)
        (fun input p => Wait.answer.failures (p.handle input)) (.push :: later) p = 1 ∧
      ((p.handle .push).machine.run later).state = .idle := by
  intro config p ticket later
  obtain ⟨-, hsends, hfailures, hends⟩ := sends_in_stay .answer 1 7 .basic 5 true config
    (by decide) [.initialized] .push later rfl rfl (by decide +kernel) (by decide +kernel)
    (by decide +kernel)
  exact ⟨hsends.trans (by decide +kernel), hfailures.trans (by decide +kernel),
    (hends (by decide +kernel)).1⟩

end Wait
end Participant
end FloorControl
