import FloorControl.Error

/-!
# Call ids

Calls are numbered through a fixed range, first to last. A number is handed out once and never
again, also not when its call is over.
-/

namespace FloorControl

structure CallIds where
  first : CallId := 1
  last : CallId := 65535
  allocated : Nat := 0
  deriving DecidableEq, Repr

namespace CallIds

def allocate (ids : CallIds) : Except FloorError (CallId × CallIds) :=
  let next := ids.first.toNat + ids.allocated
  if next ≤ ids.last.toNat then
    .ok (UInt16.ofNat next, { ids with allocated := ids.allocated + 1 })
  else .error (.callIdOutOfRange ids.last)

def isAllocated (ids : CallIds) (id : CallId) : Bool :=
  ids.first ≤ id && id.toNat < ids.first.toNat + ids.allocated

/-- Hand out several ids; the answer is the last one's. -/
def allocateMany : (times : Nat) → CallIds → Option (Except FloorError CallId) × CallIds
  | 0, ids => (none, ids)
  | times + 1, ids =>
    let (answer, ids) :=
      match ids.allocate with
      | .ok (id, ids) => (Except.ok id, ids)
      | .error e => (.error e, ids)
    match allocateMany times ids with
    | (none, ids) => (some answer, ids)
    | (some answer, ids) => (some answer, ids)

end CallIds
end FloorControl
