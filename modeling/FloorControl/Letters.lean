import FloorControl.Indicator

/-!
# Case folding

Names that a user types are compared in lower case. Among the characters outside ASCII only the
Kelvin sign has an ASCII letter for its lower case, so for comparison with an ASCII word every
other one may stay as it is.
-/

namespace FloorControl

/-- The lower case of a character, as far as a comparison with ASCII words can tell. -/
def foldCase (c : Char) : Char := if c = '\u212a' then 'k' else c.toLower

def foldedText (s : String) : String := s.map foldCase

/-- The call type of a name typed by a user: case does not matter, a hyphen may stand for an
underscore, and an unknown name is a basic call. -/
def CallType.ofName (name : String) : CallType :=
  let folded := (foldedText name).map fun c => if c = '-' then '_' else c
  (Vocabulary.ofWord? folded).getD .basic

end FloorControl
