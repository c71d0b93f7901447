/-!
# Names in a call

A party is known by its SSRC, a call by its call id, and a party's standing by its priority. The
widths are those of the wire, so a value out of range cannot be written down. Words of a
vocabulary, used for every enumeration that has a written form, are kept here too.
-/

namespace FloorControl

/-- The address of a party inside a call. -/
abbrev Ssrc := UInt32

abbrev CallId := UInt16

/-- A party's standing; the greater number goes first. -/
abbrev Priority := UInt8

/-- A finite type whose values are written as words, each its own. -/
class Vocabulary (α : Type) where
  all : List α
  word : α → String
  mem_all : ∀ a, a ∈ all
  word_injective : ∀ a b, word a = word b → a = b

namespace Vocabulary

variable {α : Type} [Vocabulary α]

def ofWord? (s : String) : Option α := (all (α := α)).find? (fun a => word a = s)

@[simp] theorem ofWord?_word (a : α) : ofWord? (word a) = some a := by
  rw [ofWord?, List.find?_eq_some_iff_append]
  refine ⟨by simp, ?_⟩
  obtain ⟨before, after, hall, hnot⟩ := List.eq_append_cons_of_mem (mem_all a)
  refine ⟨before, after, hall, fun b hb => ?_⟩
  simp only [Bool.not_eq_eq_eq_not, Bool.not_true, decide_eq_false_iff_not]
  intro h
  exact hnot (word_injective b a h ▸ hb)

theorem word_of_ofWord? {s : String} {a : α} (h : ofWord? s = some a) : word a = s := by
  have := List.find?_some h
  simpa using this

end Vocabulary
end FloorControl
