import FloorControl.Proofs.Mail

/-!
# What a step puts into the scheduler

Everything that a step wants done later goes into the scheduler when the step is over: its tickets
first, each after its own delay, and then its messages, which are all on their way for the same
time. Nothing that waits already is lost or moved behind something that is due later, and nothing
that waits is ever behind the clock.
-/

namespace FloorControl

namespace Scheduler

variable {ε : Type} {s : Scheduler ε} {pending : List (Scheduled ε)}

theorem place_perm (x : Scheduled ε) (pending : List (Scheduled ε)) :
    (place x pending).Perm (x :: pending) := by
  conv => rhs; rw [← List.takeWhile_append_dropWhile (p := (·.due ≤ x.due)) (l := pending)]
  exact List.perm_middle

def scheduleEach (wishes : List (Nat × ε)) (s : Scheduler ε) : Scheduler ε :=
  wishes.foldl (fun s wish => s.schedule wish.1 wish.2) s

/-- The entries that some events get, which are numbered on from those that came before. -/
def entries : List (Nat × ε) → Scheduler ε → List (Scheduled ε)
  | [], _ => []
  | wish :: wishes, s =>
    ⟨Time.after s.now wish.1, s.seq + 1, wish.2⟩ :: entries wishes (s.schedule wish.1 wish.2)

theorem scheduleEach_append (first later : List (Nat × ε)) (s : Scheduler ε) :
    s.scheduleEach (first ++ later) = (s.scheduleEach first).scheduleEach later :=
  List.foldl_append

@[simp] theorem now_scheduleEach (wishes : List (Nat × ε)) (s : Scheduler ε) :
    (s.scheduleEach wishes).now = s.now := by
  induction wishes generalizing s with
  | nil => rfl
  | cons wish wishes ih => exact ih _

theorem seq_scheduleEach (wishes : List (Nat × ε)) (s : Scheduler ε) :
    (s.scheduleEach wishes).seq = s.seq + wishes.length := by
  induction wishes generalizing s with
  | nil => rfl
  | cons wish wishes ih =>
    have hrest := ih (s.schedule wish.1 wish.2)
    simp only [schedule, List.length_cons] at hrest ⊢
    exact hrest.trans (by omega)

theorem pending_scheduleEach (wishes : List (Nat × ε)) (s : Scheduler ε) :
    (s.scheduleEach wishes).pending.Perm (s.pending ++ s.entries wishes) := by
  induction wishes generalizing s with
  | nil => simp [scheduleEach, entries]
  | cons wish wishes ih =>
    refine (ih _).trans ?_
    rw [entries]
    exact ((place_perm _ _).append_right _).trans List.perm_middle.symm

theorem inOrder_scheduleEach (wishes : List (Nat × ε)) (h : InOrder s.pending) :
    InOrder (s.scheduleEach wishes).pending := by
  induction wishes generalizing s with
  | nil => exact h
  | cons wish wishes ih => exact ih (inOrder_place h)

/-- A new entry is due after the delay of its wish, and its number is a new one. -/
theorem of_mem_entries {wishes : List (Nat × ε)} {x : Scheduled ε} (h : x ∈ s.entries wishes) :
    (∃ wish ∈ wishes, x.due = Time.after s.now wish.1 ∧ x.event = wish.2) ∧ s.seq < x.seq ∧
      x.seq ≤ s.seq + wishes.length := by
  induction wishes generalizing s with
  | nil => cases h
  | cons wish wishes ih =>
    rcases List.mem_cons.mp h with rfl | h
    · exact ⟨⟨wish, List.mem_cons_self, rfl, rfl⟩, by simp, by simp⟩
    · obtain ⟨⟨other, hother, hdue, hevent⟩, hseq, hle⟩ := ih h
      simp only [schedule, List.length_cons] at hdue hseq hle ⊢
      exact ⟨⟨other, List.mem_cons_of_mem _ hother, hdue, hevent⟩, by omega, by omega⟩

/-- The new entries of a kind, which may depend on when they are due. -/
theorem filter_entries (f : Nat → ε → Bool) (wishes : List (Nat × ε)) (s : Scheduler ε) :
    ((s.entries wishes).filter fun x => f x.due x.event).map (fun x => (x.due, x.event)) =
      (wishes.filter fun wish => f (Time.after s.now wish.1) wish.2).map
        fun wish => (Time.after s.now wish.1, wish.2) := by
  induction wishes generalizing s with
  | nil => rfl
  | cons wish wishes ih =>
    rw [entries, List.filter_cons, List.filter_cons]
    split
    · rw [List.map_cons, List.map_cons, ih]
      rfl
    · exact ih _

/-- Whatever comes out of the scheduler was the first that waited. -/
theorem popDue_eq_some {t : Nat} {event : ε} {after : Scheduler ε}
    (h : s.popDue t = some (event, after)) :
    ∃ x rest, s.pending = x :: rest ∧ x.due ≤ t ∧ x.event = event ∧
      after = { s with now := max s.now x.due, pending := rest } := by
  simp only [popDue] at h
  split at h
  · cases h
  · next x rest hpending =>
    split at h
    · next hdue =>
      cases h
      exact ⟨x, rest, hpending, hdue, rfl, rfl⟩
    · cases h

/-- When nothing comes out of the scheduler, nothing that waits is due. -/
theorem lt_due_of_popDue_eq_none {t : Nat} (hordered : InOrder s.pending)
    (h : s.popDue t = none) : ∀ x ∈ s.pending, t < x.due := by
  simp only [popDue] at h
  split at h
  · next hpending => simp [hpending]
  · next x rest hpending =>
    split at h
    · cases h
    · next hlate =>
      intro y hy
      rw [hpending, InOrder, List.pairwise_cons] at hordered
      rw [hpending] at hy
      rcases List.mem_cons.mp hy with rfl | hy
      · omega
      · have := hordered.1 y hy
        omega

def nextTime (s : Scheduler ε) : Nat := max s.now (s.nextDue?.getD s.now)

theorem now_popDue {t : Nat} {event : ε} {after : Scheduler ε}
    (h : s.popDue t = some (event, after)) : after.now = s.nextTime := by
  obtain ⟨x, rest, hpending, -, -, rfl⟩ := popDue_eq_some h
  simp [nextTime, nextDue?, hpending]

/-- What waits is in order, is numbered, and is not behind the clock. Deadlines beyond the last
moment fall on it. -/
structure Timely (s : Scheduler ε) : Prop where
  inOrder : InOrder s.pending
  ahead : ∀ x ∈ s.pending, min s.now Time.last ≤ x.due
  numbered : ∀ x ∈ s.pending, 0 < x.seq ∧ x.seq ≤ s.seq

theorem Timely.of_pending_eq_nil (h : s.pending = []) : s.Timely where
  inOrder := by simp [h, InOrder]
  ahead := by simp [h]
  numbered := by simp [h]

theorem timely_scheduleEach (wishes : List (Nat × ε)) (h : s.Timely) :
    (s.scheduleEach wishes).Timely where
  inOrder := inOrder_scheduleEach wishes h.inOrder
  ahead x hx := by
    rw [now_scheduleEach]
    rcases List.mem_append.mp ((pending_scheduleEach wishes s).mem_iff.mp hx) with hx | hx
    · exact h.ahead x hx
    · obtain ⟨⟨wish, -, hdue, -⟩, -⟩ := of_mem_entries hx
      rw [hdue, Time.after]
      omega
  numbered x hx := by
    rw [seq_scheduleEach]
    rcases List.mem_append.mp ((pending_scheduleEach wishes s).mem_iff.mp hx) with hx | hx
    · have := h.numbered x hx
      omega
    · obtain ⟨-, hseq, hle⟩ := of_mem_entries hx
      omega

theorem timely_popDue {t : Nat} {event : ε} {after : Scheduler ε} (h : s.Timely)
    (hpop : s.popDue t = some (event, after)) : after.Timely := by
  obtain ⟨x, rest, hpending, -, -, rfl⟩ := popDue_eq_some hpop
  have hordered := h.inOrder
  rw [hpending, InOrder, List.pairwise_cons] at hordered
  refine ⟨hordered.2, fun y hy => ?_, fun y hy => h.numbered y ?_⟩
  · have hahead := h.ahead y (by rw [hpending]; exact List.mem_cons_of_mem _ hy)
    have hbehind := hordered.1 y hy
    simp only
    omega
  · rw [hpending]
    exact List.mem_cons_of_mem _ hy

theorem timely_settle {t : Nat} (h : s.Timely) (hnone : s.popDue t = none) :
    (s.settle t).Timely where
  inOrder := h.inOrder
  ahead x hx := by
    have hlate := lt_due_of_popDue_eq_none h.inOrder hnone x hx
    have hahead := h.ahead x hx
    rw [now_settle]
    omega
  numbered := h.numbered

/-- As long as the clock is in range, the next event comes out at the very time that it is due. -/
theorem Timely.now_popDue {t : Nat} {event : ε} {after : Scheduler ε} {x : Scheduled ε}
    {rest : List (Scheduled ε)} (h : s.Timely) (hclock : s.now ≤ Time.last)
    (hpending : s.pending = x :: rest) (hpop : s.popDue t = some (event, after)) :
    after.now = x.due := by
  obtain ⟨y, others, hpending', -, -, rfl⟩ := popDue_eq_some hpop
  rw [hpending] at hpending'
  cases hpending'
  have hahead := h.ahead x (by rw [hpending]; exact List.mem_cons_self)
  simp only
  omega

end Scheduler

namespace Session

open Scheduler

def wishes (delay : Nat) (out : Outbox) : List (Nat × SessionEvent) :=
  out.timers.map (fun armed => (armed.delay, .expiry armed.ticket)) ++
    out.messages.map fun e => (delay, e.arrival)

/-- The messages among what the end of some steps puts into the scheduler. -/
theorem filter_wishes (delay : Nat) (outs : List Outbox) :
    (outs.flatMap (wishes delay)).filter (·.2.isLetter) =
      (outs.flatMap (·.messages)).map fun e => (delay, e.arrival) := by
  induction outs with
  | nil => rfl
  | cons out outs ih =>
    rw [List.flatMap_cons, List.filter_append, ih, List.flatMap_cons, List.map_append, wishes,
      List.filter_append]
    congr 1
    have htickets :
        (out.timers.map fun armed => (armed.delay, SessionEvent.expiry armed.ticket)).filter
          (·.2.isLetter) = [] := by
      simp [List.filter_map, Function.comp_def, SessionEvent.isLetter]
    rw [htickets, List.nil_append, List.filter_eq_self]
    intro wish hwish
    obtain ⟨e, -, rfl⟩ := List.mem_map.mp hwish
    exact e.isLetter_arrival

/-- Where a ticket comes among what the end of some steps puts into the scheduler. -/
theorem filter_expiry_wishes (delay : Nat) (outs : List Outbox) (ticket : Ticket) :
    (outs.flatMap (wishes delay)).filter (·.2 = .expiry ticket) =
      ((outs.flatMap (·.timers)).filter (·.ticket = ticket)).map fun armed =>
        (armed.delay, .expiry armed.ticket) := by
  induction outs with
  | nil => rfl
  | cons out outs ih =>
    rw [List.flatMap_cons, List.filter_append, ih, List.flatMap_cons, List.filter_append,
      List.map_append, wishes, List.filter_append]
    congr 1
    have hletters : (out.messages.map fun e => (delay, e.arrival)).filter
        (·.2 = .expiry ticket) = [] := by
      rw [List.filter_eq_nil_iff]
      intro wish hwish hevent
      obtain ⟨e, -, rfl⟩ := List.mem_map.mp hwish
      have harrives : e.arrival = .expiry ticket := of_decide_eq_true hevent
      have hletter := e.isLetter_arrival
      rw [harrives] at hletter
      cases hletter
    rw [hletters, List.append_nil, List.filter_map]
    simp [Function.comp_def]

private theorem state_timers (timers : List Armed) (r : Run) :
    (timers.foldl (fun r armed => schedule armed.delay (.expiry armed.ticket) r) r).state =
      { r.state with
        scheduler := r.state.scheduler.scheduleEach
          (timers.map fun armed => (armed.delay, .expiry armed.ticket)) } := by
  induction timers generalizing r with
  | nil => rfl
  | cons armed timers ih =>
    rw [List.foldl_cons, ih]
    rfl

private theorem state_letters (letters : List Envelope) (r : Run) :
    (letters.foldl (fun r e => sendOff e r) r).state =
      { r.state with
        scheduler := r.state.scheduler.scheduleEach
          (letters.map fun e => (r.state.config.linkDelay.toNat, e.arrival)) } := by
  induction letters generalizing r with
  | nil => rfl
  | cons e letters ih =>
    rw [List.foldl_cons, ih]
    rfl

private theorem state_told (events : List FloorEvent) (r : Run) :
    (events.foldl (fun r event => tell event r) r).state = r.state := by
  induction events generalizing r with
  | nil => rfl
  | cons event events ih =>
    rw [List.foldl_cons, ih]
    rfl

/-- The end of a step changes the scheduler and nothing else. -/
theorem state_dispatch (out : Outbox) (r : Run) :
    (dispatch out r).state =
      { r.state with
        scheduler := r.state.scheduler.scheduleEach
          (wishes r.state.config.linkDelay.toNat out) } := by
  simp only [dispatch, state_told, state_letters, state_timers, wishes, scheduleEach_append]

end Session
end FloorControl
