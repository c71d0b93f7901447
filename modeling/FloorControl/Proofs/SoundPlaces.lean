import FloorControl.Proofs.Places
import FloorControl.Proofs.QueueOrder
import Mathlib.Data.List.Perm.Subperm

/-!
# Sound places

What holds of the places of the floor between any two steps: each place is taken only in the states
that provide for it, nobody is in two places, and only parties that may talk are in any. Moving
parties out of places or between them keeps all that concerns parties; so does putting one that has
no place yet into one.
-/

namespace FloorControl

def FloorQueue.waiting (q : FloorQueue) : List Ssrc := q.entries.map (·.ssrc)

namespace FloorQueue

variable {q queue : FloorQueue} {ssrc : Ssrc}

theorem mem_waiting : ssrc ∈ q.waiting ↔ ∃ e ∈ q.entries, e.ssrc = ssrc := by
  simp [waiting]

@[simp] theorem waiting_clear : q.clear.waiting = [] := rfl

theorem waiting_remove (removed : Ssrc) :
    (q.remove removed).waiting = q.waiting.filter (· ≠ removed) := by
  simp [waiting, remove, List.filter_map, Function.comp_def]

theorem remove_of_not_mem (h : ssrc ∉ q.waiting) : q.remove ssrc = q := by
  have hkeep : q.entries.filter (·.ssrc ≠ ssrc) = q.entries := by
    rw [List.filter_eq_self]
    intro e he
    simpa using fun heq => h (mem_waiting.mpr ⟨e, he, heq⟩)
  simp only [remove, hkeep]

theorem waiting_eq_nil : q.waiting = [] ↔ q.entries = [] := by
  simp [waiting]

theorem position?_eq_none : q.position? ssrc = none ↔ ssrc ∉ q.waiting := by
  simp [position?, mem_waiting]

theorem waiting_enqueue {who : Talker} {position : Nat}
    (h : q.enqueue who = .ok (queue, position)) :
    queue.waiting.Perm (who.ssrc :: q.waiting) := by
  obtain ⟨-, -, rfl, -⟩ := enqueue_eq_ok h
  have hsplit := congrArg (List.map (·.ssrc)) (ahead_append_behind who.priority q.entries)
  simp only [List.map_append] at hsplit
  simp only [waiting, List.map_append, List.map_cons]
  rw [← hsplit]
  exact List.perm_middle

end FloorQueue

namespace Arbitrator.Places

def talkers (p : Places) : List Ssrc := (p.holder.toList ++ p.second.toList).map (·.ssrc)

def placed (p : Places) : List Ssrc := p.talkers ++ p.preemptor.toList.map (·.ssrc) ++ p.queue.waiting

/-- The parties that wait for the floor, as the preemptor or in the queue. -/
def awaiting (p : Places) : List Ssrc := p.preemptor.toList.map (·.ssrc) ++ p.queue.waiting

/-- The places fit the state and each other. -/
structure Orderly (p : Places) : Prop where
  holder_occupied : p.holder.isSome = p.state.occupied
  second_holder : p.second.isSome = true → p.holder.isSome = true
  second_supported : p.second.isSome = true → p.config.dualFloorSupported = true
  preemptor_pending : p.preemptor.isSome = true → p.state = .pendingRevoke
  preemptor_preempts : ∀ w ∈ p.preemptor, ∀ h ∈ p.holder, w.preempts h = true
  waiting_occupied : p.queue.waiting ≠ [] → p.state.occupied = true
  implicit_initialising : p.implicitRequest.isSome = true → p.state = .initialising
  distinct : p.placed.Nodup

/-- The places are orderly, and only parties of the roster that may talk are in any. -/
structure Sound (p : Places) : Prop extends p.Orderly where
  entitled : ∀ ssrc ∈ p.placed, MayTalk p.roster ssrc
  implicit_known : ∀ ssrc ∈ p.implicitRequest, p.roster.contains ssrc = true

variable {p q : Places}

theorem mem_talkers {ssrc : Ssrc} :
    ssrc ∈ p.talkers ↔ (∃ h ∈ p.holder, h.ssrc = ssrc) ∨ ∃ s ∈ p.second, s.ssrc = ssrc := by
  simp only [talkers, List.mem_map, List.mem_append, Option.mem_toList, Option.mem_def,
    or_and_right, exists_or]

theorem talkers_subset_placed : p.talkers ⊆ p.placed := by
  intro ssrc h
  simp [placed, h]

theorem mem_awaiting :
    ssrc ∈ p.awaiting ↔ (∃ w ∈ p.preemptor, w.ssrc = ssrc) ∨ ssrc ∈ p.queue.waiting := by
  simp only [awaiting, List.mem_append, List.mem_map, Option.mem_toList, Option.mem_def]

theorem mem_placed : ssrc ∈ p.placed ↔ ssrc ∈ p.talkers ∨ ssrc ∈ p.awaiting := by
  rw [placed, List.append_assoc, List.mem_append]
  rfl

/-- The preemptor has no other place. -/
theorem preemptor_only {who : Talker} (hdistinct : p.placed.Nodup)
    (hpreemptor : p.preemptor = some who) :
    who.ssrc ∉ p.talkers ∧ who.ssrc ∉ p.queue.waiting := by
  have hsplit : p.placed = p.talkers ++ who.ssrc :: p.queue.waiting := by
    simp [placed, hpreemptor]
  rw [hsplit, List.perm_middle.nodup_iff, List.nodup_cons, List.mem_append, not_or] at hdistinct
  exact hdistinct.1

/-- The second talker has no other place. -/
theorem second_only {second : Talker} (hdistinct : p.placed.Nodup)
    (hsecond : p.second = some second) :
    second.ssrc ∉ ({ p with second := none } : Places).placed := by
  have hsplit : p.placed = p.holder.toList.map (·.ssrc) ++ second.ssrc :: p.awaiting := by
    simp [placed, talkers, awaiting, hsecond]
  have hrest : ({ p with second := none } : Places).placed =
      p.holder.toList.map (·.ssrc) ++ p.awaiting := by
    simp [placed, talkers, awaiting]
  rw [hsplit, List.perm_middle.nodup_iff, List.nodup_cons] at hdistinct
  rw [hrest]
  exact hdistinct.1

namespace Orderly

theorem holder_eq_none (h : p.Orderly) (hstate : p.state.occupied = false) : p.holder = none := by
  simpa [hstate] using h.holder_occupied

theorem second_eq_none (h : p.Orderly) (hstate : p.state.occupied = false) : p.second = none := by
  have hholder := h.holder_eq_none hstate
  have hsecond := h.second_holder
  cases hs : p.second with
  | none => rfl
  | some s => simp [hs, hholder] at hsecond

theorem preemptor_eq_none (h : p.Orderly) (hstate : p.state ≠ .pendingRevoke) :
    p.preemptor = none := by
  cases hw : p.preemptor with
  | none => rfl
  | some w => exact absurd (h.preemptor_pending (by simp [hw])) hstate

theorem waiting_eq_nil (h : p.Orderly) (hstate : p.state.occupied = false) :
    p.queue.waiting = [] := by
  by_contra hne
  simpa [hstate] using h.waiting_occupied hne

theorem implicit_eq_none (h : p.Orderly) (hstate : p.state ≠ .initialising) :
    p.implicitRequest = none := by
  cases hi : p.implicitRequest with
  | none => rfl
  | some ssrc => exact absurd (h.implicit_initialising (by simp [hi])) hstate

/-- While the floor is not occupied, nobody is in any place. -/
theorem placed_eq_nil (h : p.Orderly) (hstate : p.state.occupied = false) : p.placed = [] := by
  have hw : p.state ≠ .pendingRevoke := by rintro hp; simp [hp, ArbitratorState.occupied] at hstate
  simp [placed, talkers, h.holder_eq_none hstate, h.second_eq_none hstate,
    h.preemptor_eq_none hw, h.waiting_eq_nil hstate]

theorem exists_holder (h : p.Orderly) (hstate : p.state.occupied = true) :
    ∃ who, p.holder = some who := by
  have := h.holder_occupied
  rw [hstate] at this
  exact Option.isSome_iff_exists.mp this

theorem holder_ne_second (h : p.Orderly) {holder second : Talker} (hholder : p.holder = some holder)
    (hsecond : p.second = some second) : holder.ssrc ≠ second.ssrc := by
  have hdistinct := h.distinct
  simp only [placed, talkers, hholder, hsecond] at hdistinct
  rintro heq
  simp [heq] at hdistinct

/-- Who waits for the floor does not have it. -/
theorem not_talkers_of_awaiting (h : p.Orderly) {ssrc : Ssrc} (hwaits : ssrc ∈ p.awaiting) :
    ssrc ∉ p.talkers := by
  have hdistinct := h.distinct
  rw [placed, List.append_assoc] at hdistinct
  exact fun htalks => (List.nodup_append.mp hdistinct).2.2 _ htalks _ hwaits rfl

end Orderly

/-- The holder with whoever is in the other places. -/
theorem Sound.of_holder {who : Talker} (hstate : p.state.occupied = true)
    (hholder : p.holder = some who)
    (hsecond : p.second.isSome = true → p.config.dualFloorSupported = true)
    (hpreemptor : ∀ w ∈ p.preemptor, p.state = .pendingRevoke ∧ w.preempts who = true)
    (himplicit : p.implicitRequest = none) (hdistinct : p.placed.Nodup)
    (hentitled : ∀ ssrc ∈ p.placed, MayTalk p.roster ssrc) : p.Sound where
  holder_occupied := by simp [hholder, hstate]
  second_holder := by simp [hholder]
  second_supported := hsecond
  preemptor_pending := by
    intro h
    obtain ⟨w, hw⟩ := Option.isSome_iff_exists.mp h
    exact (hpreemptor w hw).1
  preemptor_preempts := by
    intro w hw h hh
    rw [hholder] at hh
    cases hh
    exact (hpreemptor w hw).2
  waiting_occupied := fun _ => hstate
  implicit_initialising := by simp [himplicit]
  distinct := hdistinct
  entitled := hentitled
  implicit_known := by simp [himplicit]

theorem Sound.of_empty (hstate : p.state.occupied = false) (hplaced : p.placed = [])
    (himplicit : p.implicitRequest = none) : p.Sound := by
  have hempty := hplaced
  simp only [placed, talkers, List.append_eq_nil_iff, List.map_eq_nil_iff,
    Option.toList_eq_nil_iff] at hempty
  obtain ⟨⟨⟨hholder, hsecond⟩, hpreemptor⟩, hwaiting⟩ := hempty
  exact {
    holder_occupied := by simp [hholder, hstate]
    second_holder := by simp [hsecond]
    second_supported := by simp [hsecond]
    preemptor_pending := by simp [hpreemptor]
    preemptor_preempts := by simp [hpreemptor]
    waiting_occupied := fun h => absurd hwaiting h
    implicit_initialising := by simp [himplicit]
    distinct := by simp [hplaced]
    entitled := by simp [hplaced]
    implicit_known := by simp [himplicit] }

end Arbitrator.Places

namespace Arbitrator

variable {a : Arbitrator}

theorem mem_talkers_places {ssrc : Ssrc} :
    ssrc ∈ a.places.talkers ↔ (a.isHolder ssrc || a.dual.isTalker ssrc) = true := by
  rw [Places.mem_talkers, Bool.or_eq_true, isHolder, DualFloor.isTalker, Option.any_eq_true,
    Option.any_eq_true]
  simp only [decide_eq_true_eq]
  rfl

theorem Placeless.not_mem_placed {ssrc : Ssrc} (h : Placeless a ssrc) :
    ssrc ∉ a.places.placed := by
  rw [Places.mem_placed, Places.mem_talkers, Places.mem_awaiting]
  rintro ((⟨who, hwho, hsame⟩ | ⟨who, hwho, hsame⟩) | ⟨who, hwho, hsame⟩ | hwaits)
  · exact h.holder who hwho hsame
  · exact h.second who hwho hsame
  · exact h.preemptor who hwho hsame
  · exact FloorQueue.position?_eq_none.mp h.queue hwaits

/-- Who has no place has neither of the talkers'. -/
theorem not_talks_of_not_placed {ssrc : Ssrc} (h : ssrc ∉ a.places.placed) :
    a.isHolder ssrc = false ∧ a.dual.isTalker ssrc = false := by
  rw [← Bool.or_eq_false_iff, Bool.eq_false_iff]
  exact fun htalks => h (Places.talkers_subset_placed (mem_talkers_places.mpr htalks))

/-- The speech of the talkers is passed on, and nobody else's. -/
theorem passesMedia_iff (hsound : a.places.Sound) {ssrc : Ssrc} :
    a.passesMedia ssrc = true ↔ ssrc ∈ a.places.talkers := by
  rw [passesMedia, Bool.and_eq_true, mem_talkers_places, and_iff_right_iff_imp]
  intro htalks
  by_contra hfree
  have hplaced := hsound.placed_eq_nil (Bool.not_eq_true _ ▸ hfree)
  have hmem := Places.talkers_subset_placed (mem_talkers_places.mpr htalks)
  rw [hplaced] at hmem
  cases hmem

end Arbitrator
end FloorControl
