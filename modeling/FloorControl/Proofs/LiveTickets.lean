import FloorControl.Proofs.CallTimers

/-!
# Live tickets

A timer that runs has a ticket in the scheduler, and only one, which is due after the delay of its
latest start. The parties of a call may leave and come back, and come back with timers that know
nothing of the tickets that were drawn before: only what was scheduled since a party has joined
counts for it.
-/

namespace FloorControl.Session

def Happening.draws (ticket : Ticket) (e : Happening) : Bool :=
  (e.outboxes.flatMap (·.timers)).any (·.ticket = ticket)

namespace History

def startedAt (ticket : Ticket) (h : History) : Option Nat :=
  (h.find? (·.draws ticket)).map (·.time)

/-- How many events had ever been scheduled when an end of the call joined it last. The arbitrator
is there from the beginning. -/
def enteredAt (o : Endpoint) (h : History) : Nat :=
  ((h.find? (·.entered?.map .participant = some o)).map (·.before.scheduler.seq)).getD 0

variable {h : History} {e : Happening} {o : Endpoint} {ticket : Ticket}

theorem startedAt_cons : startedAt ticket (e :: h) =
    if e.draws ticket then some e.time else startedAt ticket h := by
  simp only [startedAt, List.find?_cons]
  split <;> simp_all

theorem enteredAt_cons : enteredAt o (e :: h) =
    if e.entered?.map .participant = some o then e.before.scheduler.seq else enteredAt o h := by
  simp only [enteredAt, List.find?_cons]
  split <;> simp_all

theorem enteredAt_arbitrator (h : History) : enteredAt .arbitrator h = 0 := by
  have hnever :
      h.find? (·.entered?.map .participant = some (.arbitrator : Endpoint)) = none := by
    rw [List.find?_eq_none]
    intro e _
    cases e.entered? <;> simp
  rw [enteredAt, hnever]
  rfl

theorem enteredAt_of_entered?_eq_none (hnobody : e.entered? = none) :
    enteredAt o (e :: h) = enteredAt o h := by
  simp [enteredAt, hnobody]

/-- Without operations by which parties join, nobody joins. -/
theorem enteredAt_append {later : History} (hstay : ∀ ssrc priority originator,
    .join ssrc priority originator ∉ later.operations) :
    enteredAt o (later ++ h) = enteredAt o h := by
  induction later with
  | nil => rfl
  | cons e later ih =>
    have hnobody : e.entered? = none := by
      simp only [Happening.entered?]
      split
      · next ssrc priority originator hwhat =>
        refine absurd (List.mem_filterMap.mpr ⟨e, List.mem_cons_self, ?_⟩)
          (hstay ssrc priority originator)
        rw [Happening.operation?, hwhat]
      · rfl
    rw [List.cons_append, enteredAt_of_entered?_eq_none hnobody]
    exact ih fun ssrc priority originator hmem => hstay ssrc priority originator
      ((List.sublist_cons_self e later).filterMap _ |>.subset hmem)

end History

/-- A timer with its tickets, of which only those count that were scheduled late enough. -/
structure Wound (since : Nat) (start? : Option Nat) (pending : List (Scheduled SessionEvent))
    (timer : Timer) : Prop where
  old : ∀ x ∈ pending, since < x.seq → ∀ ticket, x.event = .expiry ticket → timer.Owns ticket →
    ticket.generation ≤ timer.generation
  live : timer.running = true → ∃ x start,
    pending.filter (fun x => since < x.seq ∧ x.event = .expiry timer.ticket) = [x] ∧
      start? = some start ∧ x.due = Time.after start timer.delay

namespace Wound

variable {since : Nat} {start? : Option Nat} {timer after : Timer} {s : Session} {m : Machines}
  {outs : List Outbox} {x : Scheduled SessionEvent} {rest : List (Scheduled SessionEvent)}

/-- The next event is handed over. -/
theorem offer (h : Wound since start? (x :: rest) timer) :
    Wound since start? rest (x.event.offer timer) where
  old y hy hseq ticket hevent howns := by
    have hle := h.old y (List.mem_cons_of_mem _ hy) hseq ticket hevent
      ((Timer.owns_congr (x.event.make_offer timer)).mp howns)
    have hsame := congrArg Ticket.generation (x.event.ticket_offer timer)
    exact Nat.le_trans hle (Nat.le_of_eq hsame.symm)
  live hruns := by
    obtain ⟨hsame, hother⟩ := SessionEvent.offer_of_running hruns
    rw [hsame] at hruns ⊢
    obtain ⟨y, start, hfilter, hstart, hdue⟩ := h.live hruns
    rw [List.filter_cons, if_neg (by simp [hother])] at hfilter
    exact ⟨y, start, hfilter, hstart, hdue⟩

/-- A new ticket in the scheduler was drawn by its timer in the step. -/
private theorem mem_of_mem_entries (hx : x ∈ s.scheduler.entries
      (outs.flatMap (wishes s.config.linkDelay.toNat))) {ticket : Ticket}
    (hevent : x.event = .expiry ticket) :
    ∃ armed ∈ outs.flatMap (·.timers), armed.ticket = ticket := by
  obtain ⟨⟨wish, hwish, -, heq⟩, -⟩ := Scheduler.of_mem_entries hx
  have hfound : wish ∈ (outs.flatMap (wishes s.config.linkDelay.toNat)).filter
      (·.2 = .expiry ticket) :=
    List.mem_filter.mpr ⟨hwish, by simpa using heq.symm.trans hevent⟩
  rw [filter_expiry_wishes, List.mem_map] at hfound
  obtain ⟨armed, harmed, -⟩ := hfound
  rw [List.mem_filter] at harmed
  exact ⟨armed, harmed.1, by simpa using harmed.2⟩

/-- What waits for a timer after a step: what waited before, and the tickets that it has drawn. -/
private theorem filter_progressed (m : Machines) (outs : List Outbox) (ticket : Ticket)
    (hsince : since ≤ s.scheduler.seq) :
    ((s.progressed m outs).scheduler.pending.filter
        fun x => since < x.seq ∧ x.event = .expiry ticket).Perm
      (s.scheduler.pending.filter (fun x => since < x.seq ∧ x.event = .expiry ticket) ++
        (s.scheduler.entries (outs.flatMap (wishes s.config.linkDelay.toNat))).filter
          (·.event = .expiry ticket)) := by
  refine ((Scheduler.pending_scheduleEach _ s.scheduler).filter _).trans (.of_eq ?_)
  rw [List.filter_append]
  congr 1
  refine List.filter_congr fun x hx => ?_
  obtain ⟨-, hseq, -⟩ := Scheduler.of_mem_entries hx
  simp [Nat.lt_of_le_of_lt hsince hseq]

/-- A timer that was started in a step and still runs: of its tickets in the scheduler only the new
one is live. -/
private theorem live_of_started (h : Wound since start? s.scheduler.pending timer)
    (hgoes : timer.Goes (outs.flatMap (·.timers)) after) (hsince : since ≤ s.scheduler.seq)
    (hlater : timer.generation < after.generation) (hruns : after.running = true) :
    ∃ x, (s.progressed m outs).scheduler.pending.filter
        (fun x => since < x.seq ∧ x.event = .expiry after.ticket) = [x] ∧
      (outs.flatMap (·.timers)).any (·.ticket = after.ticket) = true ∧
      x.due = Time.after s.now after.delay := by
  have hdrawn := hgoes.live hlater hruns
  have hold : s.scheduler.pending.filter
      (fun x => since < x.seq ∧ x.event = .expiry after.ticket) = [] := by
    rw [List.filter_eq_nil_iff]
    intro x hx hticket
    simp only [decide_eq_true_eq] at hticket
    have hle := h.old x hx hticket.1 _ hticket.2
      ((Timer.owns_congr hgoes.make).mp after.owns_ticket)
    exact absurd hlater (Nat.not_lt.mpr hle)
  have hnew := Scheduler.filter_entries (fun _ event => event = .expiry after.ticket)
    (outs.flatMap (wishes s.config.linkDelay.toNat)) s.scheduler
  rw [filter_expiry_wishes, hdrawn] at hnew
  obtain ⟨x, hx, hpair⟩ := List.map_eq_singleton_iff.mp hnew
  have hwaits := filter_progressed m outs after.ticket hsince
  rw [hold, hx, List.nil_append, List.perm_singleton] at hwaits
  have hmem := List.mem_singleton_self (Armed.mk after.ticket after.delay)
  rw [← hdrawn, List.mem_filter] at hmem
  exact ⟨x, hwaits, List.any_eq_true.mpr ⟨_, hmem.1, hmem.2⟩, congrArg Prod.fst hpair⟩

/-- A timer that was left alone in a step: none of its tickets was drawn. -/
private theorem live_of_still (hgoes : timer.Goes (outs.flatMap (·.timers)) timer)
    (hsince : since ≤ s.scheduler.seq) :
    ((s.progressed m outs).scheduler.pending.filter
        fun x => since < x.seq ∧ x.event = .expiry timer.ticket).Perm
      (s.scheduler.pending.filter fun x => since < x.seq ∧ x.event = .expiry timer.ticket) ∧
    (outs.flatMap (·.timers)).any (·.ticket = timer.ticket) = false := by
  have hnone : ∀ armed ∈ outs.flatMap (·.timers), armed.ticket ≠ timer.ticket := by
    intro armed harmed heq
    have hrecent := (hgoes.recent armed harmed (heq ▸ timer.owns_ticket)).1
    rw [heq] at hrecent
    exact Nat.lt_irrefl _ hrecent
  have hundrawn : (outs.flatMap (·.timers)).filter (·.ticket = timer.ticket) = [] :=
    List.filter_eq_nil_iff.mpr fun armed harmed => by simpa using hnone armed harmed
  have hnew := Scheduler.filter_entries (fun _ event => event = .expiry timer.ticket)
    (outs.flatMap (wishes s.config.linkDelay.toNat)) s.scheduler
  rw [filter_expiry_wishes, hundrawn, List.map_nil, List.map_nil, List.map_eq_nil_iff] at hnew
  have hwaits := filter_progressed m outs timer.ticket hsince
  rw [hnew, List.append_nil] at hwaits
  exact ⟨hwaits, List.any_eq_false.mpr fun armed harmed => by simpa using hnone armed harmed⟩

/-- Some timers were stopped and started, and the tickets that they drew are put into the
scheduler. -/
theorem progressed {h : History} {e : Happening}
    (hwound : Wound since (h.startedAt timer.ticket) s.scheduler.pending timer)
    (hgoes : timer.Goes (outs.flatMap (·.timers)) after) (hsince : since ≤ s.scheduler.seq)
    (houts : e.outboxes = outs) (htime : e.time = s.now) :
    Wound since (History.startedAt after.ticket (e :: h)) (s.progressed m outs).scheduler.pending
      after where
  old x hx hseq ticket hevent howns := by
    have howns := (Timer.owns_congr hgoes.make).mp howns
    rcases List.mem_append.mp
      ((Scheduler.pending_scheduleEach _ s.scheduler).mem_iff.mp hx) with hx | hx
    · exact Nat.le_trans (hwound.old x hx hseq ticket hevent howns) hgoes.grows
    · obtain ⟨armed, harmed, rfl⟩ := mem_of_mem_entries hx hevent
      exact (hgoes.recent armed harmed howns).2
  live hruns := by
    rw [History.startedAt_cons, Happening.draws, houts, htime]
    rcases Nat.lt_or_eq_of_le hgoes.grows with hlater | hsame
    · obtain ⟨x, hfilter, hdraws, hdue⟩ := hwound.live_of_started (m := m) hgoes hsince hlater hruns
      exact ⟨x, s.now, hfilter, if_pos hdraws, hdue⟩
    · obtain rfl := hgoes.still hsame.symm
      obtain ⟨hfilter, hdraws⟩ := live_of_still (m := m) hgoes hsince
      obtain ⟨x, start, hlive, hstart, hdue⟩ := hwound.live hruns
      rw [hlive, List.perm_singleton] at hfilter
      rw [hdraws]
      exact ⟨x, start, hfilter, hstart, hdue⟩

end Wound

variable {config : SessionConfig} {h : History} {s : Session} {o : Endpoint} {timer : Timer}

theorem entered?_join {a : Arbitrator} {ssrc : Ssrc} {priority : Priority} {originator : Bool}
    (hactive : s.active = true)
    (hadded : s.arbitrator.addParticipant ssrc priority originator = .ok a) :
    Happening.entered? ⟨s, .operation (.join ssrc priority originator)⟩ = some ssrc := by
  have hstranger := (Arbitrator.exists_insert_of_addParticipant hadded).1
  simp [Happening.entered?, hactive, hstranger]

/-- Nobody has joined after all that was ever scheduled. -/
theorem Stage.enteredAt_le (hs : Stage config h s) (o : Endpoint) :
    h.enteredAt o ≤ s.scheduler.seq := by
  induction hs with
  | created => exact Nat.le_refl _
  | acted op _ hentered _ ih =>
    rw [History.enteredAt_of_entered?_eq_none hentered, progressed, Scheduler.seq_scheduleEach]
    exact Nat.le_add_right_of_le ih
  | joined _ _ _ ih =>
    rw [History.enteredAt_cons]
    split
    · exact Nat.le_refl _
    · exact ih
  | delivered _ hpop _ ih =>
    obtain ⟨x, rest, -, -, -, rfl⟩ := Scheduler.popDue_eq_some hpop
    rw [History.enteredAt_of_entered?_eq_none rfl, progressed, Scheduler.seq_scheduleEach]
    exact Nat.le_add_right_of_le ih
  | settled _ _ ih => exact ih
  | ended _ hdowned ih => exact Nat.le_trans ih hdowned.seq

/-- A timer that never ran, at an end of the call that nothing was scheduled for. -/
private theorem wound_of_new {since : Nat} {start? : Option Nat}
    {pending : List (Scheduled SessionEvent)} (hnew : ∀ x ∈ pending, x.seq ≤ since)
    (hrests : timer.running = false) : Wound since start? pending timer where
  old x hx hseq := absurd hseq (Nat.not_lt.mpr (hnew x hx))
  live hruns := by
    rw [hrests] at hruns
    cases hruns

/-- As long as the call is not down, every timer has its tickets in the scheduler. -/
theorem Stage.wound (hs : Stage config h s) (hactive : s.active = true)
    (htimer : timer ∈ s.machines.clocks o) :
    Wound (h.enteredAt o) (h.startedAt timer.ticket) s.scheduler.pending timer := by
  induction hs generalizing timer with
  | created callId callType now =>
    refine wound_of_new (by simp [Session.create]) ?_
    cases o with
    | arbitrator =>
      have hrests : ∀ timer ∈ (Arbitrator.create callId callType config.arbitrator).timers,
          timer.running = false := by
        simp [Arbitrator.create, Arbitrator.timers, DualFloor.create]
      exact hrests timer htimer
    | participant ssrc => cases htimer
  | @acted h s m op hs hentered hparts ih =>
    obtain ⟨before, hbefore, hgoes⟩ := (winds_parts hs.made hparts).1.goes hs.made htimer
    rw [History.enteredAt_of_entered?_eq_none hentered]
    exact (ih hactive hbefore).progressed hgoes (hs.enteredAt_le o) rfl rfl
  | @joined h s ssrc priority originator a hs hrunning hadded ih =>
    rw [machines, clocks_insert] at htimer
    rw [History.enteredAt_cons, entered?_join hrunning hadded]
    split at htimer
    · next heq =>
      subst heq
      rw [Option.map_some, if_pos rfl]
      refine wound_of_new (fun x hx => (hs.timely.numbered x hx).2) ?_
      have hrests : ∀ timer ∈ (Participant.create s.callId ssrc s.callType priority originator
          s.config.participant).timers, timer.running = false := by
        simp [Participant.create, Participant.timers]
      exact hrests timer htimer
    · next hne =>
      have hundrawn : Happening.draws timer.ticket
          ⟨s, .operation (.join ssrc priority originator)⟩ = false := by
        simp [Happening.draws, Happening.outboxes, Operation.outboxes]
      rw [if_neg (by simpa using Ne.symm hne), History.startedAt_cons, hundrawn]
      refine ih hactive ?_
      rwa [clocks_of_joined hadded] at htimer
  | @delivered h s m t event scheduler hs hpop hdelivers ih =>
    obtain ⟨offered, hoffered, hgoes⟩ :=
      (winds_delivers hs.made hdelivers).1.goes (hs.made.offered event) htimer
    obtain ⟨before, hbefore, rfl⟩ := List.mem_map.mp hoffered
    have hmoves := Scheduler.now_popDue hpop
    obtain ⟨x, rest, hpending, -, rfl, rfl⟩ := Scheduler.popDue_eq_some hpop
    have hwound := ih hactive hbefore
    rw [hpending, ← x.event.ticket_offer before] at hwound
    rw [History.enteredAt_of_entered?_eq_none rfl]
    exact hwound.offer.progressed hgoes (hs.enteredAt_le o) rfl hmoves.symm
  | settled _ _ ih => exact ih hactive htimer
  | ended _ hdowned _ =>
    rw [hdowned.active] at hactive
    cases hactive

/-- What happened is not ahead of the clock. -/
theorem Stage.time_le (hs : Stage config h s) : ∀ e ∈ h, e.time ≤ s.now := by
  induction hs with
  | created => simp
  | acted op _ _ _ ih =>
    rw [now_progressed]
    exact List.forall_mem_cons.mpr ⟨Nat.le_refl _, ih⟩
  | joined _ _ _ ih => exact List.forall_mem_cons.mpr ⟨Nat.le_refl _, ih⟩
  | delivered _ hpop _ ih =>
    rw [now_progressed]
    exact List.forall_mem_cons.mpr ⟨Nat.le_of_eq (Scheduler.now_popDue hpop).symm,
      fun e he => Nat.le_trans (ih e he) (Scheduler.now_le_popDue hpop)⟩
  | settled _ _ ih => exact fun e he => Nat.le_trans (ih e he) (Nat.le_max_left _ _)
  | ended _ hdowned ih => exact hdowned.now ▸ ih

theorem Stage.startedAt_le (hs : Stage config h s) {ticket : Ticket} {start : Nat}
    (hstart : h.startedAt ticket = some start) : start ≤ s.now := by
  obtain ⟨e, he, rfl⟩ := Option.map_eq_some_iff.mp hstart
  exact hs.time_le e (List.mem_of_find?_eq_some he)

end FloorControl.Session
