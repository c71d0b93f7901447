import FloorControl.Queue
import Mathlib.Data.List.TakeWhile
import Mathlib.Tactic.Set

/-!
# The order of the queue

A queue only ever admits a party, serves the first one, lets one go or is emptied. None of that
takes it beyond its capacity or out of its order, so the party that is served next has the highest
priority and, among equals, has waited longest.
-/

namespace FloorControl

def QueueEntry.Before (e f : QueueEntry) : Prop :=
  f.priority < e.priority ∨ f.priority = e.priority ∧ e.arrival < f.arrival

theorem QueueEntry.Before.priority_le {e f : QueueEntry} (h : e.Before f) :
    f.priority ≤ e.priority := by
  rcases h with hlt | ⟨heq, -⟩
  · exact UInt8.le_of_lt hlt
  · exact UInt8.le_of_eq heq

namespace FloorQueue

variable {q queue : FloorQueue} {ssrc : Ssrc} {who : Talker} {position : Nat}

/-- A party that is admitted has not waited before, finds room, and is put behind all of its own
priority or a higher one. -/
theorem enqueue_eq_ok (h : q.enqueue who = .ok (queue, position)) :
    (∀ e ∈ q.entries, e.ssrc ≠ who.ssrc) ∧ q.entries.length < q.capacity ∧
      queue = { q with
        entries := ahead who.priority q.entries ++
          ⟨who.ssrc, who.priority, who.indicator, q.arrivals + 1⟩ :: behind who.priority q.entries
        arrivals := q.arrivals + 1 } ∧
      position = (ahead who.priority q.entries).length + 1 := by
  simp only [enqueue] at h
  split at h
  · cases h
  next hnew =>
  split at h
  · cases h
  next hroom =>
  cases h
  simp only [contains_iff, not_exists, not_and] at hnew
  exact ⟨hnew, Nat.lt_of_not_le hroom, rfl, rfl⟩

inductive Steps (q : FloorQueue) : FloorQueue → Prop
  | kept : Steps q q
  | admitted {who : Talker} {queue : FloorQueue} {position : Nat} :
      q.enqueue who = .ok (queue, position) → Steps q queue
  | served {entry : QueueEntry} {rest : List QueueEntry} : q.entries = entry :: rest →
      Steps q { q with entries := rest }
  | withdrawn (ssrc : Ssrc) : Steps q (q.remove ssrc)
  | cleared : Steps q q.clear

/-- A queue that holds no more than it has room for, and whose places can be told. -/
structure Roomy (q : FloorQueue) : Prop where
  length : q.entries.length ≤ q.capacity
  capacity : q.capacity < UInt64.size

theorem Roomy.of_sublist (h : q.Roomy) {entries : List QueueEntry}
    (hsub : entries.Sublist q.entries) : ({ q with entries := entries } : FloorQueue).Roomy :=
  ⟨Nat.le_trans hsub.length_le h.length, h.capacity⟩

theorem Roomy.enqueue (hroomy : q.Roomy) (h : q.enqueue who = .ok (queue, position)) :
    queue.Roomy := by
  obtain ⟨-, hroom, rfl, -⟩ := enqueue_eq_ok h
  have hsplit := congrArg List.length (ahead_append_behind who.priority q.entries)
  simp only [List.length_append] at hsplit
  refine ⟨?_, hroomy.capacity⟩
  simp only [List.length_append, List.length_cons]
  omega

theorem Steps.roomy (h : q.Steps queue) (hroomy : q.Roomy) : queue.Roomy := by
  cases h with
  | kept => exact hroomy
  | admitted hqueue => exact hroomy.enqueue hqueue
  | served hentries => exact hroomy.of_sublist (hentries ▸ List.sublist_cons_self _ _)
  | withdrawn ssrc => exact hroomy.of_sublist List.filter_sublist
  | cleared => exact hroomy.of_sublist (List.nil_sublist _)

/-- The entries stand in the order in which they are served, and their numbers have been given
out. -/
structure Ordered (q : FloorQueue) : Prop where
  sorted : q.entries.Pairwise QueueEntry.Before
  numbered : ∀ e ∈ q.entries, e.arrival ≤ q.arrivals

structure Foremost (q : FloorQueue) (entry : QueueEntry) : Prop where
  mem : entry ∈ q.entries
  before : ∀ e ∈ q.entries, e ≠ entry → entry.Before e

theorem Ordered.of_sublist (h : q.Ordered) {entries : List QueueEntry}
    (hsub : entries.Sublist q.entries) : ({ q with entries := entries } : FloorQueue).Ordered :=
  ⟨h.sorted.sublist hsub, fun e he => h.numbered e (hsub.subset he)⟩

/-- In an ordered queue a newcomer overtakes only those of a lower priority. -/
theorem lt_of_mem_behind {priority : Priority} {entries : List QueueEntry}
    (hsorted : entries.Pairwise QueueEntry.Before) :
    ∀ e ∈ behind priority entries, e.priority < priority := by
  induction entries with
  | nil => simp [behind]
  | cons first rest ih =>
    obtain ⟨hfirst, hrest⟩ := List.pairwise_cons.mp hsorted
    by_cases hahead : priority ≤ first.priority
    · simpa [behind, hahead] using ih hrest
    · have hlow : first.priority < priority := UInt8.not_le.mp hahead
      intro e he
      simp only [behind, List.dropWhile_cons, hahead, decide_false, Bool.false_eq_true,
        if_false] at he
      rcases List.mem_cons.mp he with rfl | he
      · exact hlow
      · exact UInt8.lt_of_le_of_lt (hfirst e he).priority_le hlow

theorem Ordered.enqueue (hordered : q.Ordered) (h : q.enqueue who = .ok (queue, position)) :
    queue.Ordered := by
  obtain ⟨-, -, rfl, -⟩ := enqueue_eq_ok h
  set entry : QueueEntry := ⟨who.ssrc, who.priority, who.indicator, q.arrivals + 1⟩
  have hsplit := ahead_append_behind who.priority q.entries
  have hsorted := hordered.sorted
  rw [← hsplit, List.pairwise_append] at hsorted
  obtain ⟨hahead, hbehind, hacross⟩ := hsorted
  have hin : ∀ e, e ∈ ahead who.priority q.entries ∨ e ∈ behind who.priority q.entries →
      e ∈ q.entries := fun e he => by rw [← hsplit, List.mem_append]; exact he
  have hovertaken : ∀ e ∈ behind who.priority q.entries, entry.Before e :=
    fun e he => .inl (lt_of_mem_behind hordered.sorted e he)
  have hfollows : ∀ e ∈ ahead who.priority q.entries, e.Before entry := by
    intro e he
    have hle : who.priority ≤ e.priority := by
      simpa using List.mem_takeWhile_imp he
    rcases UInt8.lt_or_eq_of_le hle with hlt | heq
    · exact .inl hlt
    · exact .inr ⟨heq, Nat.lt_succ_of_le (hordered.numbered e (hin e (.inl he)))⟩
  constructor
  · rw [List.pairwise_append]
    refine ⟨hahead, List.pairwise_cons.mpr ⟨hovertaken, hbehind⟩, fun e he f hf => ?_⟩
    rcases List.mem_cons.mp hf with rfl | hf
    · exact hfollows e he
    · exact hacross e he f hf
  · intro e he
    rcases List.mem_append.mp he with he | he
    · exact Nat.le_succ_of_le (hordered.numbered e (hin e (.inl he)))
    · rcases List.mem_cons.mp he with rfl | he
      · exact Nat.le_refl _
      · exact Nat.le_succ_of_le (hordered.numbered e (hin e (.inr he)))

theorem Steps.ordered (h : q.Steps queue) (hordered : q.Ordered) : queue.Ordered := by
  cases h with
  | kept => exact hordered
  | admitted hqueue => exact hordered.enqueue hqueue
  | served hentries => exact hordered.of_sublist (hentries ▸ List.sublist_cons_self _ _)
  | withdrawn ssrc => exact hordered.of_sublist List.filter_sublist
  | cleared => exact hordered.of_sublist (List.nil_sublist _)

/-- The first entry of an ordered queue is the one that is served first. -/
theorem Ordered.foremost (hordered : q.Ordered) {entry : QueueEntry} {rest : List QueueEntry}
    (hentries : q.entries = entry :: rest) : q.Foremost entry := by
  have hsorted := hordered.sorted
  rw [hentries, List.pairwise_cons] at hsorted
  refine ⟨by simp [hentries], fun e he hne => ?_⟩
  rw [hentries] at he
  exact hsorted.1 e ((List.mem_cons.mp he).resolve_left hne)

/-- The place of a party that waits, as the messages tell it. -/
def Tells (q : FloorQueue) (ssrc : Ssrc) (position : UInt64) (priority : Priority) : Prop :=
  q.position? ssrc = some position.toNat ∧ (q.get? ssrc).map (·.priority) = some priority

theorem tells_of_position? (hroomy : q.Roomy) (h : q.position? ssrc = some position) :
    q.Tells ssrc (UInt64.ofNat position) (((q.get? ssrc).map (·.priority)).getD 0) := by
  obtain ⟨index, hindex, rfl⟩ := Option.map_eq_some_iff.mp h
  obtain ⟨hlt, hat, -⟩ := List.findIdx?_eq_some_iff_getElem.mp hindex
  have hfits : index + 1 < UInt64.size :=
    Nat.lt_of_le_of_lt (Nat.succ_le_of_lt hlt) (Nat.lt_of_le_of_lt hroomy.length hroomy.capacity)
  refine ⟨by rw [h, UInt64.toNat_ofNat_of_lt' hfits], ?_⟩
  have hsome : (q.get? ssrc).isSome = true := by
    rw [get?, List.find?_isSome]
    exact ⟨_, List.getElem_mem hlt, hat⟩
  obtain ⟨entry, hentry⟩ := Option.isSome_iff_exists.mp hsome
  simp [hentry]

/-- A party that is admitted waits at the place that it is told. -/
theorem position?_enqueue (h : q.enqueue who = .ok (queue, position)) :
    queue.position? who.ssrc = some position ∧
      (queue.get? who.ssrc).map (·.priority) = some who.priority := by
  obtain ⟨hnew, -, rfl, rfl⟩ := enqueue_eq_ok h
  have hother : ∀ e ∈ ahead who.priority q.entries, decide (e.ssrc = who.ssrc) = false :=
    fun e he => decide_eq_false (hnew e (ahead_subset _ _ he))
  constructor
  · simp only [position?, List.findIdx?_append]
    rw [List.findIdx?_eq_none_iff.mpr hother, List.findIdx?_cons]
    simp
  · simp only [get?, List.find?_append]
    rw [List.find?_eq_none.mpr (by simpa using hother)]
    simp

end FloorQueue
end FloorControl
