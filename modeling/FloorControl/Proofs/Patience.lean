import FloorControl.Proofs.ParticipantWaits

/-!
# How a participant waits for the arbitrator

A participant that has sent a request waits for an answer, and one that has sent a release waits for
the confirmation. In both cases it sends its message again whenever its timer runs out, and gives up
when it has done so often enough. What can become of such a wait in one step is said here for both:
it does not go on, it goes on as it was, it begins, or the message is sent again.
-/

namespace FloorControl.Participant

/-- What a participant waits for until it gives up. -/
inductive Wait where
  /-- The answer to a request. -/
  | answer
  /-- The confirmation of a release. -/
  | confirmation
  deriving DecidableEq

namespace Wait

def state : Wait → ParticipantState
  | .answer => .pendingRequest
  | .confirmation => .pendingRelease

def timer (p : Participant) : Wait → Timer
  | .answer => p.t101
  | .confirmation => p.t100

def counter (p : Participant) : Wait → Counter
  | .answer => p.c101
  | .confirmation => p.c100

def limit (config : ParticipantConfig) : Wait → Nat
  | .answer => config.c101Limit.toNat
  | .confirmation => config.c100Limit.toNat

def failure : Wait → FailureKind
  | .answer => .requestUnanswered
  | .confirmation => .releaseUnconfirmed

def calls (x : Ssrc) : Wait → Message → Bool
  | .answer, .request r => r.ssrc = x
  | .confirmation, .release ssrc => ssrc = x
  | _, _ => false

def endsBy : Wait → Message → Bool
  | .answer, .granted .. | .answer, .denied .. | .answer, .queuePositionInfo .. => true
  | .confirmation, .idle .. | .confirmation, .taken .. | .confirmation, .denied .. => true
  | _, _ => false

/-- What becomes of a wait of `p` in a turn. -/
inductive Course (w : Wait) (p : Participant) (input : Input) (t : Turn Participant) : Prop
  /-- The participant does not wait, or not any longer. -/
  | elsewhere : t.machine.state ≠ w.state → Course w p input t
  /-- The wait goes on as it was. -/
  | stays : p.state = w.state → t.machine.state = w.state → w.timer t.machine = w.timer p →
      w.counter t.machine = w.counter p → (∀ e ∈ t.out.messages, e.message.kind = .ack) →
      (∀ message, input = .receive message → w.endsBy message = false) →
      (∀ ticket, input = .expire ticket → (w.timer p).accepts ticket = false) →
      Course w p input t
  /-- The wait begins. -/
  | begins {acks : List Envelope} {message : Message} : p.state ≠ w.state →
      t.machine.state = w.state → (w.timer p).generation < (w.timer t.machine).generation →
      (w.counter t.machine).value = 0 → t.out.messages = acks ++ [letterFrom p.ssrc message] →
      (∀ e ∈ acks, e.message.kind = .ack) → w.calls p.ssrc message = true → Course w p input t
  /-- The timer has run out, and the message is sent again. -/
  | again {ticket : Ticket} {message : Message} : input = .expire ticket → p.state = w.state →
      t.machine.state = w.state → (w.timer p).accepts ticket = true →
      (w.counter p).arrives = false →
      (w.timer p).generation < (w.timer t.machine).generation →
      w.counter t.machine = (w.counter p).increment →
      t.out.messages = [letterFrom p.ssrc message] → w.calls p.ssrc message = true →
      Course w p input t

variable {w : Wait} {p : Participant} {t : Turn Participant} {input : Input}

/-- A turn that has done nothing about a wait but acknowledge what came in. -/
structure Untouched (p : Participant) (t : Turn Participant) : Prop where
  ssrc : t.machine.ssrc = p.ssrc
  state : t.machine.state = p.state
  t100 : t.machine.t100 = p.t100
  t101 : t.machine.t101 = p.t101
  c100 : t.machine.c100 = p.c100
  c101 : t.machine.c101 = p.c101
  acks : ∀ e ∈ t.out.messages, e.message.kind = .ack

theorem untouched (p : Participant) : Untouched p ⟨p, {}⟩ :=
  ⟨rfl, rfl, rfl, rfl, rfl, rfl, by simp⟩

theorem untouched_acknowledge (p : Participant) (message : Message) :
    Untouched p (acknowledge message ⟨p, {}⟩) := by
  simp only [acknowledge]
  split
  · refine ⟨rfl, rfl, rfl, rfl, rfl, rfl, fun e he => ?_⟩
    rw [List.mem_singleton.mp he]
    rfl
  · exact untouched p

/-- Nothing comes of a wait that was not touched. -/
theorem Untouched.course (h : Untouched p t)
    (hends : p.state = w.state → ∀ message, input = .receive message → w.endsBy message = false)
    (hrefuses : ∀ ticket, input = .expire ticket → (w.timer p).accepts ticket = false) :
    Course w p input t := by
  by_cases hstate : p.state = w.state
  · refine .stays hstate (h.state.trans hstate) ?_ ?_ h.acks (hends hstate) hrefuses
    · cases w with
      | answer => exact h.t101
      | confirmation => exact h.t100
    · cases w with
      | answer => exact h.c101
      | confirmation => exact h.c100
  · exact .elsewhere (h.state.symm ▸ hstate)

/-- A participant that gives the floor back waits for the confirmation, and for nothing else. -/
theorem course_startRelease (hssrc : t.machine.ssrc = p.ssrc)
    (ht100 : t.machine.t100 = p.t100) (hacks : ∀ e ∈ t.out.messages, e.message.kind = .ack)
    (hstate : p.state ≠ .pendingRelease) :
    Course w p input (startRelease t) := by
  cases w with
  | answer => exact .elsewhere (by simp [state])
  | confirmation =>
    have hletter : (startRelease t).out.messages =
        t.out.messages ++ [letterFrom p.ssrc (.release p.ssrc)] := by
      simp [letterFrom, hssrc]
    refine .begins hstate (by simp [state]) ?_ ?_ hletter hacks (by simp [calls])
    · simp [timer, ht100, Timer.start]
    · simp [counter, Counter.reset]

section Messages

variable {message : Message} (h : Untouched p t)

include h

private theorem course_receivePendingRequest (hstate : p.state = .pendingRequest) :
    Course w p (.receive message) (receivePendingRequest message t) := by
  have hends (hother : Wait.answer.endsBy message = false) : p.state = w.state →
      ∀ m, Input.receive message = .receive m → w.endsBy m = false := by
    intro hwaits m heq
    cases heq
    cases w with
    | answer => exact hother
    | confirmation => simp [hstate, state] at hwaits
  cases message with
  | granted | denied | queuePositionInfo =>
    apply Course.elsewhere
    cases w <;> simp [receivePendingRequest, state]
  | taken ssrc =>
    have htold : Untouched p (t.update fun p => { p with talker := some ssrc }) :=
      ⟨h.ssrc, h.state, h.t100, h.t101, h.c100, h.c101, h.acks⟩
    exact htold.course (hends rfl) (by simp)
  | request | release | idle | revoke | queuePositionRequest | ack =>
    exact h.course (hends rfl) (by simp)

private theorem course_receiveQueued (hstate : p.state = .queued) :
    Course w p (.receive message) (receiveQueued message t) := by
  have hqueued : t.machine.state = .queued := h.state.trans hstate
  have hrests : t.machine.state ≠ w.state := by cases w <;> simp [state, hqueued]
  cases message with
  | granted =>
    apply Course.elsewhere
    simp only [receiveQueued]
    split
    · exact hrests
    · exact hrests
  | denied | idle =>
    apply Course.elsewhere
    cases w <;> simp [receiveQueued, state]
  | revoke =>
    simp only [receiveQueued]
    split
    · exact course_startRelease h.ssrc h.t100 h.acks (by simp [hstate])
    · exact .elsewhere hrests
  | taken | queuePositionInfo | request | release | queuePositionRequest | ack =>
    exact .elsewhere hrests

private theorem course_receiveHasPermission (hstate : p.state = .hasPermission) :
    Course w p (.receive message) (receiveHasPermission message t) := by
  have hpermitted : t.machine.state = .hasPermission := h.state.trans hstate
  have hrests : t.machine.state ≠ w.state := by cases w <;> simp [state, hpermitted]
  have hloses (talker : Option Ssrc) : (loseFloor talker t).machine.state ≠ w.state := by
    cases w <;> simp [state]
  cases message with
  | revoke => exact course_startRelease h.ssrc h.t100 h.acks (by simp [hstate])
  | taken =>
    apply Course.elsewhere
    simp only [receiveHasPermission]
    split
    · exact hrests
    · split
      · exact hrests
      · exact hloses _
  | idle => exact .elsewhere (hloses none)
  | request | granted | denied | release | queuePositionRequest | queuePositionInfo | ack =>
    exact .elsewhere hrests

private theorem course_receivePendingRelease (hstate : p.state = .pendingRelease) :
    Course w p (.receive message) (receivePendingRelease message t) := by
  have hends (hother : Wait.confirmation.endsBy message = false) : p.state = w.state →
      ∀ m, Input.receive message = .receive m → w.endsBy m = false := by
    intro hwaits m heq
    cases heq
    cases w with
    | answer => simp [hstate, state] at hwaits
    | confirmation => exact hother
  cases message with
  | idle | taken | denied =>
    apply Course.elsewhere
    cases w <;> simp [receivePendingRelease, state]
  | request | granted | release | revoke | queuePositionRequest | queuePositionInfo | ack =>
    exact h.course (hends rfl) (by simp)

private theorem course_receiveIdle (hstate : p.state = .idle) :
    Course w p (.receive message) (receiveIdle message t) := by
  have hidle : t.machine.state = .idle := h.state.trans hstate
  have hrests : t.machine.state ≠ w.state := by cases w <;> simp [state, hidle]
  cases message with
  | granted =>
    simp only [receiveIdle]
    split
    · exact course_startRelease h.ssrc h.t100 h.acks (by simp [hstate])
    · exact .elsewhere hrests
  | taken | idle | request | denied | release | revoke | queuePositionRequest | queuePositionInfo
  | ack => exact .elsewhere hrests

end Messages

private theorem course_receive (message : Message) :
    Course w p (.receive message) (receive message ⟨p, {}⟩) := by
  have h := untouched_acknowledge p message
  simp only [receive]
  split
  · next hstate =>
    apply (untouched p).course _ (by simp)
    intro hwaits
    cases w <;> simp [hstate, state] at hwaits
  · next hstate => exact course_receivePendingRequest h hstate
  · next hstate => exact course_receiveQueued h hstate
  · next hstate => exact course_receiveHasPermission h hstate
  · next hstate => exact course_receivePendingRelease h hstate
  · next hstate => exact course_receiveIdle h hstate

private theorem course_expireT101 {ticket : Ticket} (hwaits : p.Waits)
    (haccepts : p.t101.accepts ticket = true) :
    Course w p (.expire ticket) (expireT101 ((⟨p, {}⟩ : Turn Participant).update fun p =>
      { p with t101 := p.t101.rest })) := by
  have hruns := ((Timer.accepts_iff _ _).mp haccepts).1
  have hstate : p.state = .pendingRequest := hwaits.asking.mp hruns
  simp only [expireT101, Turn.machine_update, hstate, if_true]
  cases harrives : p.c101.arrives with
  | true =>
    apply Course.elsewhere
    cases w <;> simp [state]
  | false =>
    cases w with
    | confirmation => exact .elsewhere (by simp [state, hstate])
    | answer =>
      have hcalls : Wait.answer.calls p.ssrc p.requestMessage = true := by
        simp [calls, requestMessage]
      refine .again rfl hstate ?_ haccepts harrives ?_ ?_ ?_ hcalls
      · exact hstate
      · simp [timer, Timer.start, Timer.rest]
      · simp [counter]
      · rfl

private theorem course_expireT100 {ticket : Ticket} (hwaits : p.Waits)
    (haccepts : p.t100.accepts ticket = true) :
    Course w p (.expire ticket) (expireT100 ((⟨p, {}⟩ : Turn Participant).update fun p =>
      { p with t100 := p.t100.rest })) := by
  have hruns := ((Timer.accepts_iff _ _).mp haccepts).1
  have hstate : p.state = .pendingRelease := hwaits.returning.mp hruns
  simp only [expireT100, Turn.machine_update, hstate, if_true]
  cases harrives : p.c100.arrives with
  | true =>
    apply Course.elsewhere
    cases w <;> simp [state]
  | false =>
    cases w with
    | answer => exact .elsewhere (by simp [state, hstate])
    | confirmation =>
      have hcalls : Wait.confirmation.calls p.ssrc (.release p.ssrc) = true := by
        simp [calls]
      refine .again rfl hstate ?_ haccepts harrives ?_ ?_ ?_ hcalls
      · exact hstate
      · simp [timer, Timer.start, Timer.rest]
      · simp [counter]
      · rfl

private theorem course_expireT104 (ticket : Ticket)
    (hrefuses : (w.timer p).accepts ticket = false) :
    Course w p (.expire ticket) (expireT104 ((⟨p, {}⟩ : Turn Participant).update fun p =>
      { p with t104 := p.t104.rest })) := by
  have hrests : Untouched p ((⟨p, {}⟩ : Turn Participant).update fun p =>
      { p with t104 := p.t104.rest }) := ⟨rfl, rfl, rfl, rfl, rfl, rfl, by simp⟩
  simp only [expireT104]
  split
  · next hstate =>
    have hstate : p.state = .queued := hstate
    split
    · apply Course.elsewhere
      cases w <;> simp [state]
    · apply Course.elsewhere
      cases w <;> simp [state, hstate]
  · apply hrests.course (by simp)
    intro other heq
    cases heq
    exact hrefuses

private theorem course_expireT132 (ticket : Ticket) (hwaits : p.Waits)
    (hrefuses : (w.timer p).accepts ticket = false) :
    Course w p (.expire ticket) (expireT132 ((⟨p, {}⟩ : Turn Participant).update fun p =>
      { p with t132 := p.t132.rest })) := by
  have hrests : Untouched p ((⟨p, {}⟩ : Turn Participant).update fun p =>
      { p with t132 := p.t132.rest }) := ⟨rfl, rfl, rfl, rfl, rfl, rfl, by simp⟩
  simp only [expireT132]
  split
  · next hgrant =>
    have hstate := hwaits.pending hgrant
    exact course_startRelease rfl rfl (by simp) (by simp [hstate])
  · apply hrests.course (by simp)
    intro other heq
    cases heq
    exact hrefuses

structure Named (p : Participant) : Prop where
  t100 : p.t100.id = .t100
  t101 : p.t101.id = .t101

/-- A timer refuses a ticket of another name. -/
private theorem refuses_of_id_ne {timer : Timer} {ticket : Ticket} (h : ticket.id ≠ timer.id) :
    timer.accepts ticket = false := by
  rw [Bool.eq_false_iff]
  intro haccepts
  obtain ⟨-, rfl⟩ := (Timer.accepts_iff _ _).mp haccepts
  exact h rfl

private theorem course_expire (ticket : Ticket) (hwaits : p.Waits) (hnamed : Named p) :
    Course w p (.expire ticket) (expire ticket ⟨p, {}⟩) := by
  have hsame (hrefuses : (w.timer p).accepts ticket = false) :
      Course w p (.expire ticket) ⟨p, {}⟩ :=
    (untouched p).course (by simp) fun other heq => by
      cases heq
      exact hrefuses
  have hother (h100 : ticket.id ≠ .t100) (h101 : ticket.id ≠ .t101) :
      (w.timer p).accepts ticket = false := by
    apply refuses_of_id_ne
    cases w with
    | answer => simpa [timer, hnamed.t101] using h101
    | confirmation => simpa [timer, hnamed.t100] using h100
  simp only [expire]
  split
  · next hid =>
    split
    · next haccepts => exact course_expireT101 hwaits haccepts
    · next hrefuses =>
      apply hsame
      cases w with
      | answer => exact Bool.eq_false_iff.mpr hrefuses
      | confirmation => exact refuses_of_id_ne (by simp [timer, hnamed.t100, hid])
  · next hid =>
    split
    · next haccepts => exact course_expireT100 hwaits haccepts
    · next hrefuses =>
      apply hsame
      cases w with
      | answer => exact refuses_of_id_ne (by simp [timer, hnamed.t101, hid])
      | confirmation => exact Bool.eq_false_iff.mpr hrefuses
  · next hid =>
    have hrefuses := hother (by simp [hid]) (by simp [hid])
    split
    · exact course_expireT104 ticket hrefuses
    · exact hsame hrefuses
  · next hid =>
    have hrefuses := hother (by simp [hid]) (by simp [hid])
    split
    · exact course_expireT132 ticket hwaits hrefuses
    · exact hsame hrefuses
  all_goals
    next hid => exact hsame (hother (by simp [hid]) (by simp [hid]))

/-- What becomes of a wait in any step. -/
theorem course_handle (w : Wait) (input : Input) (hwaits : p.Waits) (hnamed : Named p)
    (hstop : input ≠ .stopTimers) :
    Course w p input (p.handle input) := by
  have hsame {t : Turn Participant} (h : Untouched p t)
      (hreceive : ∀ message, input ≠ .receive message)
      (hexpire : ∀ ticket, input ≠ .expire ticket) : Course w p input t :=
    h.course (fun _ message heq => absurd heq (hreceive message))
      fun ticket heq => absurd heq (hexpire ticket)
  cases input with
  | initialized =>
    simp only [handle, callInitialized]
    split
    · apply Course.elsewhere
      cases w <;> simp [state]
    · exact hsame (untouched p) (by simp) (by simp)
  | established granted priority =>
    simp only [handle, callEstablished]
    split
    · apply Course.elsewhere
      cases w <;> simp [state]
    · exact hsame ⟨rfl, rfl, rfl, rfl, rfl, rfl, by simp⟩ (by simp) (by simp)
  | push =>
    simp only [handle, pushToTalk]
    split
    · exact hsame ⟨rfl, rfl, rfl, rfl, rfl, rfl, by simp⟩ (by simp) (by simp)
    split
    · next hstate =>
      cases w with
      | confirmation => exact .elsewhere (by simp [state])
      | answer =>
        have hstate : p.state = .idle := hstate
        have hcalls : Wait.answer.calls p.ssrc p.requestMessage = true := by
          simp [calls, requestMessage]
        have hletter : (moveTo .pendingRequest (startT101 ((send p.requestMessage ⟨p, {}⟩).update
            fun p => { p with c101 := p.c101.reset }))).out.messages =
              [] ++ [letterFrom p.ssrc p.requestMessage] := by
          simp [letterFrom]
        refine .begins (by simp [state, hstate]) (by simp [state]) ?_ ?_ hletter (by simp) hcalls
        · simp [timer, Timer.start]
        · simp [counter, Counter.reset]
    · exact hsame (untouched p) (by simp) (by simp)
  | release =>
    simp only [handle, releaseToTalk]
    split
    · next hstate => exact course_startRelease rfl rfl (by simp) (by simp [hstate])
    · next hstate => exact course_startRelease rfl rfl (by simp) (by simp [hstate])
    · next hstate => exact course_startRelease rfl rfl (by simp) (by simp [hstate])
    all_goals exact hsame (untouched p) (by simp) (by simp)
  | accept =>
    simp only [handle, acceptGrant]
    split
    · apply Course.elsewhere
      cases w <;> simp [state]
    · exact hsame (untouched p) (by simp) (by simp)
  | askPosition =>
    simp only [handle, askQueuePosition]
    split
    · next hstate =>
      have hstate : p.state = .queued := hstate
      apply Course.elsewhere
      cases w <;> simp [state, hstate]
    · exact hsame (untouched p) (by simp) (by simp)
  | receive message => exact course_receive message
  | expire ticket => exact course_expire ticket hwaits hnamed
  | beginRelease =>
    apply Course.elsewhere
    cases w <;> simp [handle, beginRelease, state]
  | setDual | setIndicator | finishRelease =>
    exact hsame ⟨rfl, rfl, rfl, rfl, rfl, rfl, by simp [handle]⟩ (by simp) (by simp)
  | stopTimers => exact absurd rfl hstop

end Wait

end FloorControl.Participant
