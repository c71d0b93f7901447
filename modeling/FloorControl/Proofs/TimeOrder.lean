import FloorControl.Proofs.Scheduling

/-!
# The life of a scheduler

A scheduler starts empty and is driven by its owner: events are scheduled, taken out one by one up
to some limit, and dropped all together, and the clock is moved. An account of all that is kept
beside it. Nothing is lost, nothing comes out twice, and whatever comes out was the first of all
that waited: by deadline and, for equal deadlines, in the order of scheduling.
-/

namespace FloorControl

def Scheduled.Earlier {ε : Type} (x y : Scheduled ε) : Prop :=
  x.due < y.due ∨ x.due = y.due ∧ x.seq < y.seq

theorem Scheduled.Earlier.due_le {ε : Type} {x y : Scheduled ε} (h : x.Earlier y) :
    x.due ≤ y.due := by
  rcases h with hlt | ⟨heq, -⟩
  · exact Nat.le_of_lt hlt
  · exact Nat.le_of_eq heq

namespace Scheduler

variable {ε : Type} {s : Scheduler ε} {limit : Nat}

/-- Pending entries that come out one after the other. -/
def Sorted (pending : List (Scheduled ε)) : Prop := pending.Pairwise Scheduled.Earlier

theorem Sorted.inOrder {pending : List (Scheduled ε)} (h : Sorted pending) : InOrder pending :=
  h.imp Scheduled.Earlier.due_le

/-- An entry that is scheduled after all others goes behind those that are due no later. -/
theorem sorted_place {x : Scheduled ε} {pending : List (Scheduled ε)} (h : Sorted pending)
    (hlast : ∀ y ∈ pending, y.seq < x.seq) : Sorted (place x pending) := by
  refine pairwise_place h (fun y hy hdue => ?_) fun y hy =>
    .inl (lt_of_mem_dropWhile h.inOrder hy)
  rcases Nat.lt_or_eq_of_le hdue with hlt | heq
  · exact .inl hlt
  · exact .inr ⟨heq, hlast y hy⟩

/-- What comes out is the first of all that wait, if it is due, and the clock moves to its
deadline. -/
structure PopsFirst (s : Scheduler ε) (limit : Nat) : Prop where
  none_iff : s.popDue limit = none ↔ ∀ x ∈ s.pending, limit < x.due
  some : ∀ event s', s.popDue limit = some (event, s') → ∃ x, x.event = event ∧ x.due ≤ limit ∧
    s.pending.Perm (x :: s'.pending) ∧ (∀ y ∈ s'.pending, x.Earlier y) ∧
    s'.now = max s.now x.due

theorem Sorted.popsFirst (h : Sorted s.pending) (limit : Nat) : s.PopsFirst limit where
  none_iff := by
    refine ⟨lt_due_of_popDue_eq_none h.inOrder, fun hlate => ?_⟩
    cases hpop : s.popDue limit with
    | none => rfl
    | some popped =>
      obtain ⟨x, rest, hpending, hdue, -⟩ := popDue_eq_some hpop
      have := hlate x (hpending ▸ List.mem_cons_self)
      omega
  some := fun event s' hpop => by
    obtain ⟨x, rest, hpending, hdue, hevent, rfl⟩ := popDue_eq_some hpop
    rw [hpending, Sorted, List.pairwise_cons] at h
    exact ⟨x, hevent, hdue, hpending ▸ .refl _, h.1, rfl⟩

inductive Act (ε : Type)
  | schedule (delay : UInt64) (event : ε)
  | popDue (limit : UInt64)
  | settle (t : UInt64)
  | clear
  deriving DecidableEq, Repr

/-- A scheduler with the account of all that has been done with it. -/
structure History (ε : Type) where
  scheduler : Scheduler ε := {}
  /-- Every event that has been scheduled, with the deadline that it should have and a number of
  its own. -/
  scheduled : List (Scheduled ε) := []
  /-- The events that have come out, in the order in which they have. -/
  popped : List ε := []
  /-- What was pending whenever the scheduler was cleared. -/
  dropped : List (Scheduled ε) := []
  deriving DecidableEq, Repr

namespace History

variable {h : History ε}

def after (h : History ε) : Act ε → History ε
  | .schedule delay event =>
    { h with
      scheduler := h.scheduler.schedule delay.toNat event
      scheduled := h.scheduled ++
        [⟨min (h.scheduler.now + delay.toNat) Time.last, h.scheduled.length + 1, event⟩] }
  | .popDue limit =>
    match h.scheduler.popDue limit.toNat with
    | some (event, scheduler) => { h with scheduler := scheduler, popped := h.popped ++ [event] }
    | none => h
  | .settle t => { h with scheduler := h.scheduler.settle t.toNat }
  | .clear =>
    { h with
      scheduler := h.scheduler.clear
      dropped := h.dropped ++ h.scheduler.pending }

def run (h : History ε) (acts : List (Act ε)) : History ε := acts.foldl after h

/-- What holds at all times of a scheduler and the account of its life. -/
structure Kept (h : History ε) : Prop where
  sorted : Sorted h.scheduler.pending
  /-- The numbers are one, two, three and so on: no two events share one. -/
  numbered : h.scheduled.map (·.seq) = List.range' 1 h.scheduler.seq
  /-- Each scheduled event has come out, is pending or has been dropped, and only one of these. -/
  accounted : ∃ out : List (Scheduled ε), out.map (·.event) = h.popped ∧
    (out ++ h.scheduler.pending ++ h.dropped).Perm h.scheduled
  saturated : ∀ x ∈ h.scheduled, x.due ≤ Time.last
  clock : h.scheduler.now ≤ Time.last

theorem kept_start : ({} : History ε).Kept where
  sorted := .nil
  numbered := rfl
  accounted := ⟨[], rfl, .refl _⟩
  saturated := by simp
  clock := Nat.zero_le _

theorem Kept.mem_scheduled (hkept : h.Kept) {x : Scheduled ε} (hx : x ∈ h.scheduler.pending) :
    x ∈ h.scheduled := by
  obtain ⟨out, -, hperm⟩ := hkept.accounted
  exact hperm.subset (List.mem_append_left _ (List.mem_append_right _ hx))

theorem Kept.length_scheduled (hkept : h.Kept) : h.scheduled.length = h.scheduler.seq := by
  have hlength := congrArg List.length hkept.numbered
  rwa [List.length_map, List.length_range'] at hlength

theorem Kept.seq_le (hkept : h.Kept) {x : Scheduled ε} (hx : x ∈ h.scheduler.pending) :
    x.seq ≤ h.scheduler.seq := by
  have hgiven := List.mem_map_of_mem (f := (·.seq)) (hkept.mem_scheduled hx)
  rw [hkept.numbered, List.mem_range'_1] at hgiven
  omega

theorem Kept.schedule (hkept : h.Kept) (delay : UInt64) (event : ε) :
    (h.after (.schedule delay event)).Kept where
  sorted := sorted_place hkept.sorted fun _ hy => Nat.lt_succ_of_le (hkept.seq_le hy)
  numbered := by
    have hlength := hkept.length_scheduled
    simp only [after, Scheduler.schedule, List.map_append, hkept.numbered, List.range'_concat]
    simp [hlength, Nat.add_comm]
  accounted := by
    obtain ⟨out, hout, hperm⟩ := hkept.accounted
    refine ⟨out, hout, ?_⟩
    simp only [after, Scheduler.schedule, hkept.length_scheduled]
    have hplaced := ((place_perm
      ⟨Time.after h.scheduler.now delay.toNat, h.scheduler.seq + 1, event⟩
      h.scheduler.pending).append_left out).append_right h.dropped
    have hfront := (hplaced.trans (List.perm_middle.append_right _)).trans (hperm.cons _)
    exact hfront.trans (List.perm_append_singleton _ _).symm
  saturated := by
    intro x hx
    rcases List.mem_append.mp hx with hx | hx
    · exact hkept.saturated x hx
    · rw [List.mem_singleton.mp hx]
      exact Nat.min_le_right _ _
  clock := hkept.clock

theorem Kept.popDue (hkept : h.Kept) (limit : UInt64) : (h.after (.popDue limit)).Kept := by
  simp only [after]
  split
  · next event s' hpop =>
    obtain ⟨x, rest, hpending, hdue, hevent, rfl⟩ := popDue_eq_some hpop
    have hsorted := hkept.sorted
    rw [hpending, Sorted, List.pairwise_cons] at hsorted
    obtain ⟨out, hout, hperm⟩ := hkept.accounted
    have hlast := hkept.saturated x (hkept.mem_scheduled (hpending ▸ List.mem_cons_self))
    refine ⟨hsorted.2, hkept.numbered, ⟨out ++ [x], ?_, ?_⟩, hkept.saturated,
      Nat.max_le.mpr ⟨hkept.clock, hlast⟩⟩
    · rw [List.map_append, hout, List.map_singleton, hevent]
    · simpa [hpending] using hperm
  · exact hkept

theorem Kept.settle (hkept : h.Kept) (t : UInt64) : (h.after (.settle t)).Kept :=
  ⟨hkept.sorted, hkept.numbered, hkept.accounted, hkept.saturated,
    Nat.max_le.mpr ⟨hkept.clock, Nat.le_pred_of_lt t.toNat_lt⟩⟩

theorem Kept.clear (hkept : h.Kept) : (h.after .clear).Kept where
  sorted := .nil
  numbered := hkept.numbered
  accounted := by
    obtain ⟨out, hout, hperm⟩ := hkept.accounted
    refine ⟨out, hout, List.Perm.trans ?_ hperm⟩
    simpa [History.after, Scheduler.clear] using List.perm_append_comm.append_left out
  saturated := hkept.saturated
  clock := hkept.clock

/-- One act keeps the account. -/
theorem Kept.after (hkept : h.Kept) (act : Act ε) : (h.after act).Kept := by
  cases act with
  | schedule delay event => exact hkept.schedule delay event
  | popDue limit => exact hkept.popDue limit
  | settle t => exact hkept.settle t
  | clear => exact hkept.clear

theorem Kept.run (hkept : h.Kept) (acts : List (Act ε)) : (h.run acts).Kept := by
  induction acts generalizing h with
  | nil => exact hkept
  | cons act acts ih => exact ih (hkept.after act)

theorem now_le_after (h : History ε) (act : Act ε) :
    h.scheduler.now ≤ (h.after act).scheduler.now := by
  cases act with
  | schedule delay event => exact Nat.le_refl _
  | popDue limit =>
    simp only [History.after]
    split
    · next hpop => exact now_le_popDue hpop
    · exact Nat.le_refl _
  | settle t => exact Nat.le_max_left _ _
  | clear => exact Nat.le_refl _

theorem now_le_run (h : History ε) (acts : List (Act ε)) :
    h.scheduler.now ≤ (h.run acts).scheduler.now := by
  induction acts generalizing h with
  | nil => exact Nat.le_refl _
  | cons act acts ih => exact Nat.le_trans (h.now_le_after act) (ih _)

/-- Taking events out again and again, up to one limit, gives all that are due, each before the
later ones, and then no more. -/
def DrainsInOrder (h : History ε) (limit : UInt64) : Prop :=
  ∃ due : List (Scheduled ε), due.Pairwise Scheduled.Earlier ∧
    due.Perm (h.scheduler.pending.filter (·.due ≤ limit.toNat)) ∧
    ∀ n, (h.run (List.replicate n (.popDue limit))).popped =
        h.popped ++ (due.take n).map (·.event) ∧
      (h.run (List.replicate n (.popDue limit))).scheduler.pending.Perm
        (due.drop n ++ h.scheduler.pending.filter (limit.toNat < ·.due))

theorem run_replicate_popDue (hsorted : Sorted h.scheduler.pending) (limit : UInt64) (n : Nat) :
    (h.run (List.replicate n (.popDue limit))).popped = h.popped ++
        ((h.scheduler.pending.filter (·.due ≤ limit.toNat)).take n).map (·.event) ∧
      (h.run (List.replicate n (.popDue limit))).scheduler.pending.Perm
        ((h.scheduler.pending.filter (·.due ≤ limit.toNat)).drop n ++
          h.scheduler.pending.filter (limit.toNat < ·.due)) := by
  induction n generalizing h with
  | zero =>
    refine ⟨by simp [run], ?_⟩
    have hsplit := List.filter_append_perm (fun x : Scheduled ε => decide (x.due ≤ limit.toNat))
      h.scheduler.pending
    simpa [run, ← decide_not, Nat.not_le] using hsplit.symm
  | succ n ih =>
    have hrun : h.run (List.replicate (n + 1) (.popDue limit)) =
        (h.after (.popDue limit)).run (List.replicate n (.popDue limit)) := rfl
    rw [hrun]
    cases hpop : h.scheduler.popDue limit.toNat with
    | none =>
      have hafter : h.after (.popDue limit) = h := by simp only [after, hpop]
      have hnone : h.scheduler.pending.filter (·.due ≤ limit.toNat) = [] := by
        rw [List.filter_eq_nil_iff]
        intro x hx
        have := lt_due_of_popDue_eq_none hsorted.inOrder hpop x hx
        simpa using this
      have hrest := ih hsorted
      rw [hafter]
      simpa [hnone] using hrest
    | some popped =>
      obtain ⟨event, s'⟩ := popped
      obtain ⟨x, rest, hpending, hdue, rfl, rfl⟩ := popDue_eq_some hpop
      have hafter : h.after (.popDue limit) =
          { h with
            scheduler := { h.scheduler with now := max h.scheduler.now x.due, pending := rest }
            popped := h.popped ++ [x.event] } := by simp only [after, hpop]
      rw [hpending, Sorted, List.pairwise_cons] at hsorted
      have hrest := ih (h := h.after (.popDue limit)) (by rw [hafter]; exact hsorted.2)
      have hlate : ¬ limit.toNat < x.due := Nat.not_lt.mpr hdue
      rw [hafter] at hrest ⊢
      simpa [hpending, hdue, hlate] using hrest

theorem drainsInOrder (hsorted : Sorted h.scheduler.pending) (limit : UInt64) :
    h.DrainsInOrder limit :=
  ⟨_, hsorted.sublist List.filter_sublist, .refl _, run_replicate_popDue hsorted limit⟩

/-- A scheduler is a stable queue in order of time, whatever has been done with it. -/
theorem time_ordered (acts : List (Act ε)) :
    (({} : History ε).run acts).Kept ∧
      (∀ limit, (({} : History ε).run acts).scheduler.PopsFirst limit) ∧
      (∀ more, (({} : History ε).run acts).scheduler.now ≤
        (({} : History ε).run (acts ++ more)).scheduler.now) ∧
      ∀ limit, (({} : History ε).run acts).DrainsInOrder limit := by
  have hkept := kept_start.run acts
  refine ⟨hkept, hkept.sorted.popsFirst, fun more => ?_, drainsInOrder hkept.sorted⟩
  have hmore := now_le_run (({} : History ε).run acts) more
  rwa [run, run, ← List.foldl_append] at hmore

/-- Deadlines that fall on the last moment are kept apart by the order of scheduling. -/
example : (({} : History Nat).run [.settle 5, .schedule (-1) 1, .schedule (-2) 2, .schedule 7 3,
    .popDue (-1), .popDue (-1), .popDue (-1)]).popped = [3, 1, 2] := by decide

end History
end Scheduler
end FloorControl
