import FloorControl.Proofs.QueueOrder

/-!
# The life of a queue

A queue starts empty and changes only when a party is admitted or leaves, when the next one is
served, or when it is emptied. Whatever comes of it in whatever order, those who wait stand by
priority and, among equals, by the number of their arrival; none of them waits twice, there are no
more of them than the queue has room for, and no number is ever given out a second time.
-/

namespace FloorControl
namespace FloorQueue

variable {q queue : FloorQueue} {who : Talker} {ssrc : Ssrc} {position capacity : Nat}
variable {log : List QueueEntry}

inductive Act
  | enqueue (who : Talker)
  | dequeue
  | remove (ssrc : Ssrc)
  | clear
  /-- Empty the queue and hand over those who waited. -/
  | drain
  deriving DecidableEq, Repr

def after (q : FloorQueue) : Act → FloorQueue
  | .enqueue who =>
    match q.enqueue who with
    | .ok (queue, _) => queue
    | .error _ => q
  | .dequeue =>
    match q.dequeue? with
    | some (_, queue) => queue
    | none => q
  | .remove ssrc => q.remove ssrc
  | .clear => q.clear
  | .drain => q.clear

def run (q : FloorQueue) (acts : List Act) : FloorQueue := acts.foldl after q

def fresh (capacity : Nat) : FloorQueue := { capacity := capacity }

def newcomers (q queue : FloorQueue) : List QueueEntry := queue.entries.filter (· ∉ q.entries)

/-- All who come to wait in the course of some acts, in the order in which they come. -/
def admissions (q : FloorQueue) : List Act → List QueueEntry
  | [] => []
  | act :: acts => q.newcomers (q.after act) ++ (q.after act).admissions acts

/-- What holds of a queue at all times, with all who have ever come to wait in it. -/
structure Kept (capacity : Nat) (log : List QueueEntry) (q : FloorQueue) : Prop where
  room : q.capacity = capacity
  sorted : q.entries.Pairwise QueueEntry.Before
  distinct : (q.entries.map (·.ssrc)).Nodup
  length : q.entries.length ≤ capacity
  /-- The numbers of the arrivals are one, two, three and so on: none comes back. -/
  numbered : log.map (·.arrival) = List.range' 1 q.arrivals
  known : q.entries ⊆ log

theorem kept_fresh (capacity : Nat) : (fresh capacity).Kept capacity [] where
  room := rfl
  sorted := .nil
  distinct := .nil
  length := Nat.zero_le _
  numbered := rfl
  known := List.nil_subset _

theorem Kept.ordered (h : q.Kept capacity log) : q.Ordered where
  sorted := h.sorted
  numbered e he := by
    have hgiven := List.mem_map_of_mem (f := (·.arrival)) (h.known he)
    rw [h.numbered, List.mem_range'_1] at hgiven
    omega

/-- Those who are left when some go are kept as they were. -/
theorem Kept.of_sublist (h : q.Kept capacity log) {entries : List QueueEntry}
    (hsub : entries.Sublist q.entries) :
    ({ q with entries := entries } : FloorQueue).Kept capacity log where
  room := h.room
  sorted := h.sorted.sublist hsub
  distinct := h.distinct.sublist (hsub.map _)
  length := Nat.le_trans hsub.length_le h.length
  numbered := h.numbered
  known := fun _ he => h.known (hsub.subset he)

theorem filter_not_mem_of_subset {entries known : List QueueEntry} (h : entries ⊆ known) :
    entries.filter (· ∉ known) = [] := by
  rw [List.filter_eq_nil_iff]
  intro e he
  simpa using h he

/-- Whoever is admitted is the one newcomer. -/
theorem newcomers_enqueue (h : q.enqueue who = .ok (queue, position)) :
    q.newcomers queue = [⟨who.ssrc, who.priority, who.indicator, q.arrivals + 1⟩] := by
  obtain ⟨hnew, -, rfl, -⟩ := enqueue_eq_ok h
  have hentry : (⟨who.ssrc, who.priority, who.indicator, q.arrivals + 1⟩ : QueueEntry) ∉
      q.entries := fun hmem => hnew _ hmem rfl
  have hahead := filter_not_mem_of_subset (ahead_subset who.priority q.entries)
  have hbehind := filter_not_mem_of_subset (behind_subset who.priority q.entries)
  rw [newcomers, List.filter_append, List.filter_cons_of_pos (by simpa using hentry), hahead,
    hbehind, List.nil_append]

/-- An admission adds one entry to those that are there. -/
theorem perm_enqueue (h : q.enqueue who = .ok (queue, position)) :
    queue.entries.Perm
      (⟨who.ssrc, who.priority, who.indicator, q.arrivals + 1⟩ :: q.entries) := by
  obtain ⟨-, -, rfl, -⟩ := enqueue_eq_ok h
  conv => rhs; rw [← ahead_append_behind who.priority q.entries]
  exact List.perm_middle

theorem Kept.enqueue (h : q.Kept capacity log) (hqueue : q.enqueue who = .ok (queue, position)) :
    queue.Kept capacity (log ++ q.newcomers queue) := by
  have hordered := h.ordered.enqueue hqueue
  have hperm := perm_enqueue hqueue
  rw [newcomers_enqueue hqueue]
  obtain ⟨hnew, hroom, rfl, -⟩ := enqueue_eq_ok hqueue
  refine ⟨h.room, hordered.sorted, ?_, ?_, ?_, fun e he => ?_⟩
  · rw [(hperm.map _).nodup_iff, List.map_cons, List.nodup_cons]
    refine ⟨fun hwaits => ?_, h.distinct⟩
    obtain ⟨e, he, hssrc⟩ := List.mem_map.mp hwaits
    exact hnew e he hssrc
  · have hcapacity := h.room
    rw [hperm.length_eq, List.length_cons]
    omega
  · rw [List.map_append, h.numbered, List.range'_concat]
    simp [Nat.add_comm]
  · rcases List.mem_cons.mp (hperm.mem_iff.mp he) with rfl | he
    · simp
    · exact List.mem_append_left _ (h.known he)

/-- One act keeps the queue, and whoever it admits joins those who have come before. -/
theorem Kept.after (h : q.Kept capacity log) (act : Act) :
    (q.after act).Kept capacity (log ++ q.newcomers (q.after act)) := by
  have hleaves : ∀ entries, entries.Sublist q.entries →
      ({ q with entries := entries } : FloorQueue).Kept capacity
        (log ++ q.newcomers { q with entries := entries }) := by
    intro entries hsub
    rw [newcomers, filter_not_mem_of_subset hsub.subset, List.append_nil]
    exact h.of_sublist hsub
  cases act with
  | enqueue who =>
    simp only [FloorQueue.after]
    split
    · next queue position hqueue => exact h.enqueue hqueue
    · exact hleaves q.entries (List.Sublist.refl _)
  | dequeue =>
    simp only [FloorQueue.after, dequeue?]
    cases hentries : q.entries with
    | nil => exact hleaves q.entries (List.Sublist.refl _)
    | cons e rest => exact hleaves rest (hentries ▸ List.sublist_cons_self _ _)
  | remove ssrc => exact hleaves _ List.filter_sublist
  | clear => exact hleaves [] (List.nil_sublist _)
  | drain => exact hleaves [] (List.nil_sublist _)

theorem Kept.run (h : q.Kept capacity log) (acts : List Act) :
    (q.run acts).Kept capacity (log ++ q.admissions acts) := by
  induction acts generalizing q log with
  | nil => simpa [FloorQueue.run, admissions] using h
  | cons act acts ih =>
    have hrest := ih (h.after act)
    rw [List.append_assoc] at hrest
    exact hrest

/-- What it means that a party is admitted: it waits at the place that it is told, behind all of
its own priority or a higher one, and nothing changes for the others. -/
structure Admits (q : FloorQueue) (who : Talker) (queue : FloorQueue) (position : Nat) :
    Prop where
  place : position = 1 + q.entries.countP (who.priority ≤ ·.priority)
  told : queue.position? who.ssrc = some position
  entry : queue.get? who.ssrc = some ⟨who.ssrc, who.priority, who.indicator, q.arrivals + 1⟩
  others : queue.entries.filter (·.ssrc ≠ who.ssrc) = q.entries
  capacity : queue.capacity = q.capacity
  arrivals : queue.arrivals = q.arrivals + 1

structure Answers (q : FloorQueue) (who : Talker) : Prop where
  admitted_iff : (∃ queue position, q.enqueue who = .ok (queue, position)) ↔
    (∀ e ∈ q.entries, e.ssrc ≠ who.ssrc) ∧ q.entries.length < q.capacity
  admitted : ∀ queue position, q.enqueue who = .ok (queue, position) →
    q.Admits who queue position ∧ q.after (.enqueue who) = queue
  /-- A party that waits already is told so, be there room or not. -/
  waiting : (∃ e ∈ q.entries, e.ssrc = who.ssrc) →
    q.enqueue who = .error (.alreadyQueued who.ssrc)
  full : (∀ e ∈ q.entries, e.ssrc ≠ who.ssrc) → q.entries.length = q.capacity →
    q.enqueue who = .error (.queueFull q.capacity)
  refused : ∀ error, q.enqueue who = .error error → q.after (.enqueue who) = q

/-- In an ordered queue, those who are served before a newcomer are all of its own priority or a
higher one. -/
theorem length_ahead {priority : Priority} {entries : List QueueEntry}
    (hsorted : entries.Pairwise QueueEntry.Before) :
    (ahead priority entries).length = entries.countP (priority ≤ ·.priority) := by
  have hahead : (ahead priority entries).countP (priority ≤ ·.priority) =
      (ahead priority entries).length :=
    List.countP_eq_length.mpr fun e he => by simpa using List.mem_takeWhile_imp he
  have hbehind : (behind priority entries).countP (priority ≤ ·.priority) = 0 :=
    List.countP_eq_zero.mpr fun e he => by
      simpa using lt_of_mem_behind hsorted e he
  conv => rhs; rw [← ahead_append_behind priority entries, List.countP_append, hahead, hbehind]
  rfl

theorem admits_of_enqueue (hordered : q.Ordered) (h : q.enqueue who = .ok (queue, position)) :
    q.Admits who queue position := by
  have htold := (position?_enqueue h).1
  obtain ⟨hnew, -, rfl, rfl⟩ := enqueue_eq_ok h
  have hkept : ∀ entries, entries ⊆ q.entries → entries.filter (·.ssrc ≠ who.ssrc) = entries :=
    fun entries hsub => List.filter_eq_self.mpr fun e he => by simpa using hnew e (hsub he)
  refine ⟨?_, htold, ?_, ?_, rfl, rfl⟩
  · rw [length_ahead hordered.sorted, Nat.add_comm]
  · rw [get?, List.find?_append, List.find?_eq_none.mpr, Option.none_or]
    · simp
    · intro e he
      simpa using hnew e (ahead_subset _ _ he)
  · rw [List.filter_append, hkept _ (ahead_subset _ _), List.filter_cons_of_neg (by simp),
      hkept _ (behind_subset _ _), ahead_append_behind]

/-- A party that waits already is refused, a new one is refused when there is no room, and any
other one is admitted. -/
theorem enqueue_cases (q : FloorQueue) (who : Talker) :
    ((∃ e ∈ q.entries, e.ssrc = who.ssrc) ∧
      q.enqueue who = .error (.alreadyQueued who.ssrc)) ∨
    ((∀ e ∈ q.entries, e.ssrc ≠ who.ssrc) ∧ q.capacity ≤ q.entries.length ∧
      q.enqueue who = .error (.queueFull q.capacity)) ∨
    ((∀ e ∈ q.entries, e.ssrc ≠ who.ssrc) ∧ q.entries.length < q.capacity ∧
      ∃ queue position, q.enqueue who = .ok (queue, position)) := by
  by_cases hwaits : q.contains who.ssrc = true
  · exact .inl ⟨(contains_iff _ _).mp hwaits, by rw [enqueue, if_pos hwaits]⟩
  have hnew : ∀ e ∈ q.entries, e.ssrc ≠ who.ssrc := by simpa [contains_iff] using hwaits
  by_cases hfull : q.capacity ≤ q.length
  · exact .inr (.inl ⟨hnew, hfull, by rw [enqueue, if_neg hwaits, if_pos hfull]⟩)
  · exact .inr (.inr ⟨hnew, Nat.lt_of_not_le hfull, _, _,
      by rw [enqueue, if_neg hwaits, if_neg hfull]⟩)

theorem Ordered.answers (hordered : q.Ordered) (who : Talker) : q.Answers who where
  admitted_iff := by
    constructor
    · rintro ⟨queue, position, h⟩
      obtain ⟨hnew, hroom, -⟩ := enqueue_eq_ok h
      exact ⟨hnew, hroom⟩
    · rintro ⟨hnew, hroom⟩
      rcases q.enqueue_cases who with ⟨⟨e, he, hssrc⟩, -⟩ | ⟨-, hfull, -⟩ | ⟨-, -, hadmitted⟩
      · exact absurd hssrc (hnew e he)
      · omega
      · exact hadmitted
  admitted := fun queue position h =>
    ⟨admits_of_enqueue hordered h, by rw [FloorQueue.after, h]⟩
  waiting := by
    rintro ⟨e, he, hssrc⟩
    rcases q.enqueue_cases who with ⟨-, hrefused⟩ | ⟨hnew, -⟩ | ⟨hnew, -⟩
    · exact hrefused
    · exact absurd hssrc (hnew e he)
    · exact absurd hssrc (hnew e he)
  full := fun hnew hfull => by
    rcases q.enqueue_cases who with ⟨⟨e, he, hssrc⟩, -⟩ | ⟨-, -, hrefused⟩ | ⟨-, hroom, -⟩
    · exact absurd hssrc (hnew e he)
    · exact hrefused
    · omega
  refused := fun error h => by rw [FloorQueue.after, h]

structure ServesForemost (q : FloorQueue) : Prop where
  none_iff : q.dequeue? = none ↔ q.entries = []
  some : ∀ entry queue, q.dequeue? = some (entry, queue) →
    q.Foremost entry ∧ q.entries = entry :: queue.entries ∧
      queue = { q with entries := queue.entries } ∧ q.after .dequeue = queue

theorem Ordered.servesForemost (hordered : q.Ordered) : q.ServesForemost where
  none_iff := by
    cases hentries : q.entries <;> simp [dequeue?, hentries]
  some := fun entry queue h => by
    have hafter : q.after .dequeue = queue := by rw [FloorQueue.after, h]
    cases hentries : q.entries with
    | nil => simp [dequeue?, hentries] at h
    | cons first rest =>
      simp only [dequeue?, hentries, Option.some.injEq, Prod.mk.injEq] at h
      obtain ⟨rfl, rfl⟩ := h
      exact ⟨hordered.foremost hentries, rfl, rfl, hafter⟩

/-- Only the party that is named leaves, and the others keep their order. -/
structure LetsGo (q : FloorQueue) (ssrc : Ssrc) : Prop where
  waiting : ∀ before entry behind, q.entries = before ++ entry :: behind → entry.ssrc = ssrc →
    q.remove ssrc = { q with entries := before ++ behind }
  absent : (∀ e ∈ q.entries, e.ssrc ≠ ssrc) → q.remove ssrc = q

theorem letsGo (hdistinct : (q.entries.map (·.ssrc)).Nodup) (ssrc : Ssrc) : q.LetsGo ssrc where
  waiting := by
    rintro before entry behind hentries rfl
    rw [hentries, (List.perm_middle.map _).nodup_iff, List.map_cons, List.nodup_cons] at hdistinct
    have hothers : (before ++ behind).filter (·.ssrc ≠ entry.ssrc) = before ++ behind := by
      refine List.filter_eq_self.mpr fun e he => ?_
      have hne : e.ssrc ≠ entry.ssrc :=
        fun heq => hdistinct.1 (heq ▸ List.mem_map_of_mem (f := (·.ssrc)) he)
      simpa using hne
    rw [remove, hentries, List.filter_append, List.filter_cons_of_neg (by simp),
      ← List.filter_append, hothers]
  absent := fun hnew => by
    rw [remove, List.filter_eq_self.mpr fun e he => by simpa using hnew e he]

/-- A queue is a stable priority queue, whatever has been done with it. -/
theorem stable_run (capacity : Nat) (acts : List Act) :
    ((fresh capacity).run acts).Kept capacity ((fresh capacity).admissions acts) ∧
      (∀ who, ((fresh capacity).run acts).Answers who) ∧
      ((fresh capacity).run acts).ServesForemost ∧
      ∀ ssrc, ((fresh capacity).run acts).LetsGo ssrc := by
  have hkept := (kept_fresh capacity).run acts
  rw [List.nil_append] at hkept
  exact ⟨hkept, hkept.ordered.answers, hkept.ordered.servesForemost, letsGo hkept.distinct⟩

/-- A party that comes back gets a new number and waits behind its equals. -/
example : (((fresh 2).run [.enqueue ⟨1, 5, .normal⟩, .enqueue ⟨2, 5, .normal⟩, .remove 1,
    .enqueue ⟨1, 5, .normal⟩]).entries.map fun e => (e.ssrc, e.arrival)) = [(2, 2), (1, 3)] := by
  decide

end FloorQueue
end FloorControl
