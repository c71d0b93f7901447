import FloorControl.Identity

/-!
# Rosters

What is known of each party of a call, in ascending order of SSRC. A roster holds every party at
most once; looking up, adding, changing and removing a party are pinned down by `get?` alone.
-/

namespace FloorControl

structure Roster (α : Type) where
  entries : List (Ssrc × α)
  ascending : (entries.map Prod.fst).Pairwise (· < ·)

namespace Roster

variable {α : Type}

def empty : Roster α := ⟨[], .nil⟩

/-- Put a party at its place, over an older entry of it. -/
def place (ssrc : Ssrc) (a : α) : List (Ssrc × α) → List (Ssrc × α)
  | [] => [(ssrc, a)]
  | (other, b) :: rest =>
    if ssrc < other then (ssrc, a) :: (other, b) :: rest
    else if ssrc = other then (ssrc, a) :: rest
    else (other, b) :: place ssrc a rest

theorem fst_mem_place {ssrc other : Ssrc} {a : α} {entries : List (Ssrc × α)}
    (h : other ∈ (place ssrc a entries).map Prod.fst) :
    other = ssrc ∨ other ∈ entries.map Prod.fst := by
  induction entries with
  | nil => simpa [place] using h
  | cons entry rest ih =>
    obtain ⟨key, b⟩ := entry
    simp only [place] at h
    split at h
    · simpa using h
    · split at h
      · next heq => subst heq; simpa using h
      · simp only [List.map_cons, List.mem_cons] at h ⊢
        rcases h with h | h
        · exact .inr (.inl h)
        · exact (ih h).imp_right .inr

theorem ascending_place (ssrc : Ssrc) (a : α) {entries : List (Ssrc × α)}
    (h : (entries.map Prod.fst).Pairwise (· < ·)) :
    ((place ssrc a entries).map Prod.fst).Pairwise (· < ·) := by
  induction entries with
  | nil => simp [place]
  | cons entry rest ih =>
    obtain ⟨key, b⟩ := entry
    simp only [List.map_cons, List.pairwise_cons] at h
    simp only [place]
    split
    · next hlt =>
      simp only [List.map_cons, List.pairwise_cons, List.mem_cons]
      refine ⟨?_, h.1, h.2⟩
      rintro other (rfl | hmem)
      · exact hlt
      · exact UInt32.lt_trans hlt (h.1 other hmem)
    · split
      · next heq => subst heq; simpa using h
      · next hnlt hne =>
        simp only [List.map_cons, List.pairwise_cons]
        refine ⟨?_, ih h.2⟩
        intro other hmem
        rcases fst_mem_place hmem with rfl | hmem
        · exact UInt32.lt_of_le_of_ne (UInt32.not_lt.mp hnlt) (Ne.symm hne)
        · exact h.1 other hmem

/-- The parties, in ascending order. -/
def ssrcs (r : Roster α) : List Ssrc := r.entries.map Prod.fst

def values (r : Roster α) : List α := r.entries.map Prod.snd

def get? (r : Roster α) (ssrc : Ssrc) : Option α :=
  (r.entries.find? (·.1 = ssrc)).map Prod.snd

def contains (r : Roster α) (ssrc : Ssrc) : Bool := r.entries.any (·.1 = ssrc)

def insert (ssrc : Ssrc) (a : α) (r : Roster α) : Roster α :=
  ⟨place ssrc a r.entries, ascending_place ssrc a r.ascending⟩

def erase (ssrc : Ssrc) (r : Roster α) : Roster α :=
  ⟨r.entries.filter (·.1 ≠ ssrc), r.ascending.sublist (List.filter_sublist.map Prod.fst)⟩

def mapWith (f : Ssrc → α → α) (r : Roster α) : Roster α :=
  ⟨r.entries.map fun e => (e.1, f e.1 e.2), by
    simpa [List.map_map, Function.comp_def] using r.ascending⟩

def modify (ssrc : Ssrc) (f : α → α) (r : Roster α) : Roster α :=
  r.mapWith fun other a => if other = ssrc then f a else a

theorem contains_iff_mem (r : Roster α) (ssrc : Ssrc) :
    r.contains ssrc = true ↔ ssrc ∈ r.ssrcs := by
  simp [contains, ssrcs]

theorem contains_eq_isSome_get? (r : Roster α) (ssrc : Ssrc) :
    r.contains ssrc = (r.get? ssrc).isSome := by
  rw [Bool.eq_iff_iff]
  simp [contains, get?, List.find?_isSome]

theorem get?_insert (r : Roster α) (ssrc other : Ssrc) (a : α) :
    (r.insert ssrc a).get? other = if other = ssrc then some a else r.get? other := by
  simp only [get?, insert]
  have hasc := r.ascending
  generalize r.entries = entries at hasc
  induction entries with
  | nil => by_cases h : ssrc = other <;> simp [place, h, eq_comm]
  | cons entry rest ih =>
    obtain ⟨key, b⟩ := entry
    simp only [List.map_cons, List.pairwise_cons] at hasc
    simp only [place]
    split
    · by_cases h : ssrc = other
      · simp [h]
      · simp [h, Ne.symm h, List.find?_cons]
    · split
      · next heq =>
        subst heq
        by_cases h : ssrc = other <;> simp [h, eq_comm]
      · next hne =>
        by_cases h : key = other
        · subst h; simp [Ne.symm hne]
        · simpa [List.find?_cons, h] using ih hasc.2

theorem get?_erase (r : Roster α) (ssrc other : Ssrc) :
    (r.erase ssrc).get? other = if other = ssrc then none else r.get? other := by
  simp only [get?, erase, List.find?_filter]
  split
  · next h => subst h; simp
  · next h =>
    congr 2
    funext e
    by_cases he : e.1 = other
    · simp [he, h]
    · simp [he]

theorem get?_mapWith (r : Roster α) (f : Ssrc → α → α) (ssrc : Ssrc) :
    (r.mapWith f).get? ssrc = (r.get? ssrc).map (f ssrc) := by
  simp only [get?, mapWith, List.find?_map, Option.map_map]
  have heq : ((fun e : Ssrc × α => decide (e.1 = ssrc)) ∘ fun e : Ssrc × α => (e.1, f e.1 e.2)) =
      fun e => decide (e.1 = ssrc) := rfl
  rw [heq]
  cases h : r.entries.find? (fun e => decide (e.1 = ssrc)) with
  | none => rfl
  | some e =>
    have := List.find?_some h
    simp only [decide_eq_true_eq] at this
    simp [this]

theorem get?_modify (r : Roster α) (ssrc other : Ssrc) (f : α → α) :
    (r.modify ssrc f).get? other = if other = ssrc then (r.get? other).map f else r.get? other := by
  rw [modify, get?_mapWith]
  by_cases h : other = ssrc <;> simp [h]

@[simp] theorem ssrcs_mapWith (r : Roster α) (f : Ssrc → α → α) :
    (r.mapWith f).ssrcs = r.ssrcs := by
  simp [ssrcs, mapWith, List.map_map, Function.comp_def]

@[simp] theorem ssrcs_modify (r : Roster α) (ssrc : Ssrc) (f : α → α) :
    (r.modify ssrc f).ssrcs = r.ssrcs := ssrcs_mapWith _ _

end Roster
end FloorControl
