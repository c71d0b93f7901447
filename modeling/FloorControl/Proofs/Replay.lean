import FloorControl.Outbox

/-!
# Changes of state, as they are told

Which state may come next for each of the two machines, what it means that the changes which were
told lead from one state to another, and what the observers are told when a participant enters a
state. A list of changes is replayed by going along it: every change has to come from the state that
is there and go to one that may come next.
-/

namespace FloorControl

def replay {σ : Type} [DecidableEq σ] (next : σ → List σ) : σ → List (σ × σ) → Option σ
  | s, [] => some s
  | s, (before, after) :: changes =>
    if before = s ∧ after ∈ next s then replay next after changes else none

section

variable {σ : Type} [DecidableEq σ] {next : σ → List σ} {a b : σ} {changes : List (σ × σ)}

theorem replay_append (first later : List (σ × σ)) :
    replay next a (first ++ later) = (replay next a first).bind (replay next · later) := by
  induction first generalizing a with
  | nil => rfl
  | cons change rest ih =>
    simp only [List.cons_append, replay]
    split
    · exact ih
    · rfl

theorem replay_trans {c : σ} {first later : List (σ × σ)} (h : replay next a first = some b)
    (h' : replay next b later = some c) : replay next a (first ++ later) = some c := by
  rw [replay_append, h]
  exact h'

end

/-- The changes of the arbitrator by which the floor goes from one to the next. -/
def ArbitratorState.turnover : ArbitratorState → List ArbitratorState
  | .idle => [.taken]
  | .taken => [.idle, .pendingRevoke]
  | .pendingRevoke => [.taken, .idle]
  | .startStop | .initialising | .releasing => []

def ArbitratorState.next : ArbitratorState → List ArbitratorState
  | .startStop => [.initialising, .releasing]
  | .initialising => [.idle, .releasing]
  | .idle => [.taken, .releasing]
  | .taken => [.idle, .pendingRevoke, .releasing]
  | .pendingRevoke => [.taken, .idle, .releasing]
  | .releasing => [.startStop]

/-- The changes of a participant while the call is set up at it. -/
def ParticipantState.turnover : ParticipantState → List ParticipantState
  | .startStop => []
  | .idle => [.pendingRequest, .hasPermission, .pendingRelease]
  | .pendingRequest => [.hasPermission, .queued, .idle, .pendingRelease]
  | .queued => [.hasPermission, .idle, .pendingRelease]
  | .hasPermission => [.pendingRelease, .idle]
  | .pendingRelease => [.idle]

def ParticipantState.next : ParticipantState → List ParticipantState
  | .startStop => [.idle]
  | .idle => [.pendingRequest, .hasPermission, .pendingRelease, .startStop]
  | .pendingRequest => [.hasPermission, .queued, .idle, .pendingRelease, .startStop]
  | .queued => [.hasPermission, .idle, .pendingRelease, .startStop]
  | .hasPermission => [.pendingRelease, .idle, .startStop]
  | .pendingRelease => [.idle, .startStop]

theorem ArbitratorState.turnover_subset (s : ArbitratorState) : s.turnover ⊆ s.next := by
  cases s <;> decide

theorem ParticipantState.turnover_subset (s : ParticipantState) : s.turnover ⊆ s.next := by
  cases s <;> decide

/-- Nobody is said to enter the state that it is in. -/
theorem ParticipantState.not_mem_next (s : ParticipantState) : s ∉ s.next := by
  cases s <;> decide

/-- Changes by which the floor goes from one to the next lead nowhere, or from a state in which it
can to another. -/
theorem replay_turnover {a b : ArbitratorState} {changes : List (ArbitratorState × ArbitratorState)}
    (h : replay ArbitratorState.turnover a changes = some b) :
    b = a ∨ a.turnover ≠ [] ∧ b.turnover ≠ [] := by
  induction changes generalizing a with
  | nil => exact .inl (Option.some.inj h).symm
  | cons change rest ih =>
    obtain ⟨before, after⟩ := change
    simp only [replay] at h
    split at h
    · next hstep =>
      have hset : a.turnover ≠ [] ∧ after.turnover ≠ [] := by
        have hafter := hstep.2
        revert hafter
        cases a <;> cases after <;> decide
      rcases ih h with rfl | hlast
      · exact .inr hset
      · exact .inr ⟨hset.1, hlast.2⟩
    · cases h

namespace FloorEvent

def arbitratorChange? : FloorEvent → Option (ArbitratorState × ArbitratorState)
  | .arbitratorMoved _ _ before after => some (before, after)
  | _ => none

def participantChange? (x : Ssrc) : FloorEvent → Option (ParticipantState × ParticipantState)
  | .participantMoved _ ssrc before after => if ssrc = x then some (before, after) else none
  | _ => none

def concerns (x : Ssrc) : FloorEvent → Bool
  | .participantMoved _ ssrc .. | .floorGranted _ ssrc => ssrc = x
  | _ => false

def noteworthy : FloorEvent → Bool
  | .arbitratorMoved .. | .participantMoved .. | .floorGranted .. => true
  | _ => false

end FloorEvent

/-- The events that tell of changes of state, and that somebody may talk. -/
def notices (events : List FloorEvent) : List FloorEvent := events.filter FloorEvent.noteworthy

@[simp] theorem notices_append (first later : List FloorEvent) :
    notices (first ++ later) = notices first ++ notices later := List.filter_append ..

@[simp] theorem notices_nil : notices [] = [] := rfl

@[simp] theorem notices_cons (e : FloorEvent) (rest : List FloorEvent) :
    notices (e :: rest) = (if e.noteworthy then [e] else []) ++ notices rest := by
  by_cases h : e.noteworthy = true <;> simp [notices, h]

def announce (call : CallId) (x : Ssrc) (before after : ParticipantState) : List FloorEvent :=
  if before = after then []
  else .participantMoved call x before after ::
    if after = .hasPermission then [.floorGranted call x] else []

@[simp] theorem announce_self (call : CallId) (x : Ssrc) (state : ParticipantState) :
    announce call x state state = [] := if_pos rfl

end FloorControl
