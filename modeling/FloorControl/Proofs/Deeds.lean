import FloorControl.Proofs.ArbitratorRun

/-!
# The deeds of the arbitrator

All that the arbitrator can do in one step, said once with exactly the messages that it sends and
the places that it leaves. A step that lets somebody in or out changes the roster first. What a step
means for the parties is then a case analysis over a few deeds, and no handler has to be looked at
again.
-/

namespace FloorControl

namespace Arbitrator

variable {t : Turn Arbitrator} {input : Input}

namespace Places

def Attests (p : Places) (ssrc : Ssrc) : Message → Prop
  | .granted named priority _ dual _ => named = ssrc ∧
      ∃ who, (if dual then p.second else p.holder) = some who ∧ who.ssrc = ssrc ∧
        who.priority = priority
  | .taken named dual _ =>
      ∃ who, (if dual then p.second else p.holder) = some who ∧ who.ssrc = named
  | .queuePositionInfo named position priority => named = ssrc ∧
      (p.queue.Tells ssrc position priority ∨
        position = 1 ∧ ∃ who, p.preemptor = some who ∧ who.ssrc = ssrc ∧ who.priority = priority)
  | .denied named .. => named = ssrc ∧ ssrc ∉ p.placed
  | .revoke named .. => named = ssrc ∧
      ((∃ who, p.holder = some who ∧ who.ssrc = ssrc) ∧ p.state = .pendingRevoke ∨ ssrc ∉ p.placed)
  | .idle .. => True
  | .request .. | .release .. | .queuePositionRequest .. | .ack .. => False

/-- What is told again of the floor is who has it or that it is idle, not who talks in the second
place. -/
def Repeats (p : Places) : Message → Prop
  | .idle _ => p.state = .idle
  | .taken _ dual _ => dual = false
  | _ => True

/-- A letter to a party of the roster whose message is true of the places as they are. -/
def Notes (p : Places) (e : Envelope) : Prop :=
  ∃ ssrc message, e = letterTo ssrc message ∧ p.roster.contains ssrc = true ∧
    p.Attests ssrc message ∧ p.Repeats message

def grantLetters (p : Places) (who : Talker) : List Envelope :=
  lettersTo p.roster who.ssrc
      (.granted who.ssrc who.priority p.config.t2 false p.config.ackRequired) ++
    lettersExcept p.roster (some who.ssrc) (.taken who.ssrc false p.config.ackRequired)

def promotionLetters (p : Places) (holder second : Talker) : List Envelope :=
  lettersTo p.roster holder.ssrc (.idle p.config.ackRequired) ++
    lettersExcept p.roster (some second.ssrc) (.taken second.ssrc false p.config.ackRequired)

/-- The places after a promotion, before the preemptor is looked at. -/
def promoted (p : Places) (second : Talker) : Places :=
  { p with holder := some second, second := none, state := .taken }

inductive Lines (p : Places) (who : Talker) : List Envelope → Places → Prop
  | waits {queue : FloorQueue} {position : Nat} : p.queue.enqueue who = .ok (queue, position) →
      Lines p who (lettersTo p.roster who.ssrc
        (.queuePositionInfo who.ssrc (UInt64.ofNat position) who.priority)) { p with queue := queue }
  | denied (cause : DenyCause) :
      Lines p who (lettersTo p.roster who.ssrc (.denied who.ssrc cause p.config.ackRequired)) p

inductive Judges (p : Places) (holder : Talker) : List Envelope → Places → Prop
  | nobody : p.preemptor = none → Judges p holder [] p
  | again {who : Talker} : p.preemptor = some who → who.preempts holder = true →
      Judges p holder
        (lettersTo p.roster holder.ssrc (.revoke holder.ssrc .preempted p.config.ackRequired))
        { p with state := .pendingRevoke }
  | yields {who : Talker} {messages : List Envelope} {q : Places} : p.preemptor = some who →
      Lines { p with preemptor := none } who messages q → Judges p holder messages q

inductive Serves (p : Places) : Talker → FloorQueue → Prop
  | preemptor {who : Talker} : p.preemptor = some who → Serves p who p.queue
  | first {entry : QueueEntry} {rest : List QueueEntry} : p.preemptor = none →
      p.queue.entries = entry :: rest → Serves p entry.talker { p.queue with entries := rest }

end Places

def Input.changesRoster : Input → Bool
  | .add .. | .initialized _ | .leave _ => true
  | .implicitRequest _ | .receive _ | .expire _ | .beginRelease | .finishRelease | .stopTimers =>
    false

/-- How a step changes the roster before it does anything else. -/
inductive Places.Adjusts (p : Places) : Input → Places → Prop
  | came {ssrc : Ssrc} {priority : Priority} {originator : Bool} (proxy : Proxy) :
      p.roster.contains ssrc = false →
      Adjusts p (.add ssrc priority originator) { p with roster := p.roster.insert ssrc proxy }
  | readied {ssrc : Ssrc} : p.roster.contains ssrc = true →
      Adjusts p (.initialized ssrc) { p with
        roster := p.roster.modify ssrc fun proxy => { proxy with ready := true } }
  | left {ssrc : Ssrc} : p.roster.contains ssrc = true → Adjusts p (.leave ssrc) (p.without ssrc)
  | nobody {input : Input} : input.changesRoster = false → Adjusts p input p

/-- One step of the arbitrator, from the places that are left when the roster has been changed, with
the letters that it sends and the places that it leaves. -/
inductive Deed (input : Input) (p : Places) : List Envelope → Places → Prop
  /-- Nobody goes anywhere. -/
  | still {messages : List Envelope} : (∀ e ∈ messages, p.Notes e) → Deed input p messages p
  /-- A party is promised the floor. -/
  | promised {ssrc : Ssrc} : p.state = .initialising →
      Deed input p [] { p with implicitRequest := some ssrc }
  /-- The first party is ready. -/
  | gathering : p.state = .startStop → Deed input p [] { p with state := .initialising }
  /-- Everybody is ready. -/
  | opened : p.state.occupied = false → p.state ≠ .idle →
      Deed input p (lettersExcept p.roster none (.idle p.config.ackRequired))
        { p with state := .idle, implicitRequest := none }
  /-- Everybody is ready, and the party that was promised the floor gets it. -/
  | openedFor {who : Talker} : p.state.occupied = false → p.state ≠ .idle →
      p.implicitRequest = some who.ssrc → MayTalk p.roster who.ssrc →
      Deed input p (lettersExcept p.roster none (.idle p.config.ackRequired) ++ p.grantLetters who)
        { p with holder := some who, state := .taken, implicitRequest := none }
  | granted {who : Talker} : p.state = .idle → MayTalk p.roster who.ssrc →
      Deed input p (p.grantLetters who)
        { p with holder := some who, state := .taken, implicitRequest := none }
  /-- A newcomer gets the second place. -/
  | seconded {who : Talker} {duration : UInt64} {ack : Bool} : p.state = .taken →
      p.second = none → who.ssrc ∉ p.placed → p.roster.contains who.ssrc = true →
      Deed input p
        (letterTo who.ssrc (.granted who.ssrc who.priority duration true ack) ::
          lettersExcept p.roster (some who.ssrc) (.taken who.ssrc true ack))
        { p with second := some who }
  /-- A newcomer preempts the holder, who is told to give way. -/
  | preempted {holder who : Talker} : p.state = .taken → p.holder = some holder →
      p.preemptor = none → who.ssrc ∉ p.placed →
      Deed input p
        (lettersTo p.roster holder.ssrc (.revoke holder.ssrc .preempted p.config.ackRequired))
        { p with preemptor := some who, state := .pendingRevoke }
  /-- A newcomer preempts the holder, who was told to give way before. -/
  | parked {who : Talker} : p.state = .pendingRevoke → p.preemptor = none →
      who.ssrc ∉ p.placed → Deed input p [] { p with preemptor := some who }
  /-- A newcomer takes the place of the preemptor. -/
  | displaced {who former : Talker} {messages : List Envelope} {q : Places} :
      p.state = .pendingRevoke → p.preemptor = some former → who.ssrc ∉ p.placed →
      ({ p with preemptor := some who } : Places).Lines former messages q →
      Deed input p messages q
  /-- A newcomer is to wait. -/
  | lined {who : Talker} {messages : List Envelope} {q : Places} : p.state.occupied = true →
      who.ssrc ∉ p.placed → p.Lines who messages q → Deed input p messages q
  /-- The holder has talked for too long. -/
  | overdue {holder : Talker} : p.state = .taken → p.holder = some holder →
      Deed input p
        (lettersTo p.roster holder.ssrc (.revoke holder.ssrc .maxDuration p.config.ackRequired))
        { p with state := .pendingRevoke }
  /-- The holder gives way to the second talker. -/
  | promoted {holder second : Talker} {messages : List Envelope} {q : Places} :
      p.holder = some holder → p.second = some second →
      (p.promoted second).Judges second messages q →
      Deed input p (p.promotionLetters holder second ++ messages) q
  /-- The holder gives way to whoever is served next. -/
  | succeeded {holder who : Talker} {queue : FloorQueue} : p.holder = some holder →
      p.second = none → p.Serves who queue →
      Deed input p
        (lettersTo p.roster holder.ssrc (.idle p.config.ackRequired) ++ p.grantLetters who)
        { p with holder := some who, preemptor := none, queue := queue, state := .taken }
  /-- The holder gives way, and nobody waits. -/
  | ended {holder : Talker} : p.holder = some holder → p.second = none → p.preemptor = none →
      p.queue.entries = [] →
      Deed input p (lettersExcept p.roster none (.idle p.config.ackRequired))
        { p with holder := none, state := .idle }
  /-- The second talker gives its place back. -/
  | relieved {holder second : Talker} : input = .receive (.release second.ssrc) →
      p.holder = some holder → p.second = some second →
      Deed input p
        (lettersExcept p.roster none (.taken holder.ssrc false p.config.ackRequired))
        { p with second := none }
  /-- A party does not want to wait any longer. -/
  | withdrawn {ssrc : Ssrc} {holder : Talker} : input = .receive (.release ssrc) →
      p.holder = some holder → ssrc ∉ p.talkers →
      Deed input p
        (lettersTo p.roster ssrc (.taken holder.ssrc false p.config.ackRequired))
        { p with
          queue := p.queue.remove ssrc, preemptor := p.preemptor.filter (·.ssrc ≠ ssrc) }
  /-- The second talker has not acknowledged its grant. -/
  | exhausted {second : Talker} {ticket : Ticket} : input = .expire ticket →
      p.second = some second →
      Deed input p
        (lettersTo p.roster second.ssrc (.revoke second.ssrc .noResources p.config.ackRequired))
        { p with second := none }
  /-- The call is taken down. -/
  | closing : input = .beginRelease →
      Deed input p
        ((p.holder.toList ++ p.second.toList).flatMap (fun who =>
            lettersTo p.roster who.ssrc
              (.revoke who.ssrc .callReleased p.config.ackRequired)) ++
          (p.preemptor.toList.map (·.ssrc) ++ p.queue.waiting).flatMap fun ssrc =>
            lettersTo p.roster ssrc (.denied ssrc .callReleased p.config.ackRequired))
        p.emptied
  | closed : input = .finishRelease → p.state = .releasing →
      Deed input p [] { p with state := .startStop, roster := .empty }

namespace Places

variable {p q : Places} {who : Talker} {messages : List Envelope}

/-- Only the queue changes when somebody is to wait. -/
theorem Lines.exists_queue (h : p.Lines who messages q) :
    ∃ queue, q = { p with queue := queue } ∧ p.queue.Steps queue := by
  cases h with
  | waits hqueue => exact ⟨_, rfl, .admitted hqueue⟩
  | denied _ => exact ⟨p.queue, rfl, .kept⟩

/-- The talkers stay when the preemptor is judged again. -/
theorem Judges.exists_places (h : p.Judges who messages q) :
    ∃ state queue preemptor,
      q = { p with state := state, queue := queue, preemptor := preemptor } ∧
        (p.state = .taken → state.occupied = true) ∧ p.queue.Steps queue := by
  cases h with
  | nobody _ => exact ⟨_, _, _, rfl, fun h => by rw [h]; rfl, .kept⟩
  | again _ _ => exact ⟨_, _, _, rfl, fun _ => rfl, .kept⟩
  | yields _ hlines =>
    obtain ⟨queue, rfl, hqueue⟩ := hlines.exists_queue
    exact ⟨_, _, _, rfl, fun h => by rw [h]; rfl, hqueue⟩

theorem Serves.queue_steps {queue : FloorQueue} (h : p.Serves who queue) :
    p.queue.Steps queue := by
  cases h with
  | preemptor _ => exact .kept
  | first _ hentries => exact .served hentries

theorem Adjusts.queue_steps (h : p.Adjusts input q) : p.queue.Steps q.queue := by
  cases h with
  | came _ _ | readied _ | nobody _ => exact .kept
  | left _ => exact .withdrawn _

theorem Adjusts.queue_roomy (h : p.Adjusts input q) (hroomy : p.queue.Roomy) : q.queue.Roomy :=
  h.queue_steps.roomy hroomy

end Places

namespace Deed

variable {p q : Places} {messages : List Envelope}

theorem state_ne_initialising (h : Deed input p messages q) (hoccupied : p.state.occupied = true) :
    q.state ≠ .initialising := by
  have hbefore : p.state ≠ .initialising := by
    rintro hbefore
    simp [hbefore, ArbitratorState.occupied] at hoccupied
  intro hstate
  cases h with
  | still _ | promised _ | parked _ _ _ | seconded _ _ _ _ | relieved _ _ _
  | withdrawn _ _ _ | exhausted _ _ => exact hbefore hstate
  | gathering hbegun => simp [hbegun, ArbitratorState.occupied] at hoccupied
  | opened | openedFor | granted | preempted | overdue | succeeded | ended | closing
  | closed => cases hstate
  | displaced _ _ _ hlines | lined _ _ hlines =>
    obtain ⟨queue, rfl, -⟩ := hlines.exists_queue
    exact hbefore hstate
  | promoted _ _ hjudges =>
    obtain ⟨state, queue, preemptor, rfl, hoccupied, -⟩ := hjudges.exists_places
    have := hoccupied rfl
    simp only at hstate
    simp [hstate, ArbitratorState.occupied] at this

/-- Nobody comes into the roster by a deed. -/
theorem roster_contains (h : Deed input p messages q) {ssrc : Ssrc}
    (hknown : q.roster.contains ssrc = true) : p.roster.contains ssrc = true := by
  cases h with
  | still | promised | gathering | opened | openedFor | granted | seconded | preempted | parked
  | overdue | succeeded | ended | relieved | withdrawn | exhausted | closing => exact hknown
  | displaced _ _ _ hlines | lined _ _ hlines =>
    obtain ⟨queue, rfl, -⟩ := hlines.exists_queue
    exact hknown
  | promoted _ _ hjudges =>
    obtain ⟨state, queue, preemptor, rfl, -⟩ := hjudges.exists_places
    exact hknown
  | closed _ _ => cases hknown

/-- Only the end of the call changes the roster by a deed. -/
theorem roster_eq (h : Deed input p messages q) (hfinish : input ≠ .finishRelease) :
    q.roster = p.roster := by
  cases h with
  | still | promised | gathering | opened | openedFor | granted | seconded | preempted | parked
  | overdue | succeeded | ended | relieved | withdrawn | exhausted | closing => rfl
  | displaced _ _ _ hlines | lined _ _ hlines =>
    obtain ⟨queue, rfl, -⟩ := hlines.exists_queue
    rfl
  | promoted _ _ hjudges =>
    obtain ⟨state, queue, preemptor, rfl, -⟩ := hjudges.exists_places
    rfl
  | closed hinput _ => exact absurd hinput hfinish

/-- The arbitrator talks to the parties of the call only. -/
theorem addressees (h : Deed input p messages q) :
    ∀ e ∈ messages, ∃ ssrc message,
      e = letterTo ssrc message ∧ p.roster.contains ssrc = true := by
  have hto {ssrc : Ssrc} {message : Message} {e : Envelope}
      (he : e ∈ lettersTo p.roster ssrc message) :
      ∃ ssrc message, e = letterTo ssrc message ∧ p.roster.contains ssrc = true :=
    ⟨_, _, (mem_lettersTo.mp he).2, (mem_lettersTo.mp he).1⟩
  have hexcept {except : Option Ssrc} {message : Message} {e : Envelope}
      (he : e ∈ lettersExcept p.roster except message) :
      ∃ ssrc message, e = letterTo ssrc message ∧ p.roster.contains ssrc = true := by
    obtain ⟨ssrc, hknown, -, rfl⟩ := mem_lettersExcept.mp he
    exact ⟨_, _, rfl, hknown⟩
  have hgrant {who : Talker} {e : Envelope} (he : e ∈ p.grantLetters who) :
      ∃ ssrc message, e = letterTo ssrc message ∧ p.roster.contains ssrc = true :=
    (List.mem_append.mp he).elim hto hexcept
  have hlined {before after : Places} {who : Talker} {messages : List Envelope}
      (hlines : before.Lines who messages after) (hroster : before.roster = p.roster) :
      ∀ e ∈ messages, ∃ ssrc message,
        e = letterTo ssrc message ∧ p.roster.contains ssrc = true := by
    cases hlines with
    | waits _ | denied _ => exact fun e he => hto (hroster ▸ he)
  intro e he
  cases h with
  | still hnotes =>
    obtain ⟨ssrc, message, rfl, hknown, -⟩ := hnotes e he
    exact ⟨_, _, rfl, hknown⟩
  | promised | gathering | parked | closed => cases he
  | opened | ended | relieved => exact hexcept he
  | granted => exact hgrant he
  | openedFor => exact (List.mem_append.mp he).elim hexcept hgrant
  | succeeded => exact (List.mem_append.mp he).elim hto hgrant
  | seconded _ _ _ hknown =>
    rcases List.mem_cons.mp he with rfl | he
    · exact ⟨_, _, rfl, hknown⟩
    · exact hexcept he
  | preempted | overdue | withdrawn | exhausted => exact hto he
  | displaced _ _ _ hlines => exact hlined hlines rfl e he
  | lined _ _ hlines => exact hlined hlines rfl e he
  | promoted _ _ hjudges =>
    rcases List.mem_append.mp he with he | he
    · exact (List.mem_append.mp he).elim hto hexcept
    · cases hjudges with
      | nobody => cases he
      | again => exact hto he
      | yields _ hlines => exact hlined hlines rfl e he
  | closing =>
    rcases List.mem_append.mp he with he | he
    · obtain ⟨who, -, he⟩ := List.mem_flatMap.mp he
      exact hto he
    · obtain ⟨ssrc, -, he⟩ := List.mem_flatMap.mp he
      exact hto he

theorem letters (h : Deed input p messages q) :
    ∀ e ∈ messages, ∃ ssrc message, e = letterTo ssrc message := by
  intro e he
  obtain ⟨ssrc, message, rfl, -⟩ := h.addressees e he
  exact ⟨_, _, rfl⟩

/-- A second talker that neither gives its place back nor is waited for any longer keeps it, as long
as the floor stays with its holder. -/
theorem second_stays (h : Deed input p messages q) (horderly : p.Orderly)
    (hrelease : ∀ ssrc, input ≠ .receive (.release ssrc))
    (hexpire : ∀ ticket, input ≠ .expire ticket) (hbegin : input ≠ .beginRelease)
    (hholder : q.holder = p.holder) {who : Talker} (hsecond : p.second = some who) :
    q.second = some who := by
  cases h with
  | still | promised | gathering | opened | openedFor | granted | preempted | parked | overdue
  | closed => exact hsecond
  | seconded _ hvacant _ _ => cases hvacant.symm.trans hsecond
  | displaced _ _ _ hlines | lined _ _ hlines =>
    obtain ⟨queue, rfl, -⟩ := hlines.exists_queue
    exact hsecond
  | @promoted holder second _ _ hheld htalks hjudges =>
    obtain ⟨state, queue, preemptor, rfl, -⟩ := hjudges.exists_places
    have hsame : second = holder := Option.some.inj (hholder.trans hheld)
    exact absurd (congrArg (·.ssrc) hsame.symm) (horderly.holder_ne_second hheld htalks)
  | succeeded _ hvacant _ | ended _ hvacant _ _ => cases hvacant.symm.trans hsecond
  | @relieved _ second hinput _ _ => exact absurd hinput (hrelease _)
  | withdrawn hinput _ _ => exact absurd hinput (hrelease _)
  | exhausted hinput _ => exact absurd hinput (hexpire _)
  | closing hinput => exact absurd hinput hbegin

/-- One thing at most happens to the queue. -/
theorem queue_steps (h : Deed input p messages q) : p.queue.Steps q.queue := by
  cases h with
  | still | promised | gathering | opened | openedFor | granted | seconded | preempted | parked
  | overdue | ended | relieved | exhausted | closed => exact .kept
  | displaced _ _ _ hlines | lined _ _ hlines =>
    obtain ⟨queue, rfl, hqueue⟩ := hlines.exists_queue
    exact hqueue
  | promoted _ _ hjudges =>
    obtain ⟨state, queue, preemptor, rfl, -, hqueue⟩ := hjudges.exists_places
    exact hqueue
  | succeeded _ _ hserves => exact hserves.queue_steps
  | withdrawn _ _ _ => exact .withdrawn _
  | closing _ => exact .cleared

/-- The queue never holds more than it has room for. -/
theorem queue_roomy (h : Deed input p messages q) (hroomy : p.queue.Roomy) : q.queue.Roomy :=
  h.queue_steps.roomy hroomy

end Deed

end Arbitrator
end FloorControl
