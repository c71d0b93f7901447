import FloorControl.Session

/-!
# The pace of a call

Moving the clock of a call to a moment in one go, or to some moments on the way first, comes to the
same: a stop on the way moves the clock, but whatever is handed over later moves it further before
anybody looks at it. Nor does anybody look at what was told before, so an advance can be followed
with an empty log.
-/

namespace FloorControl

namespace Scheduler

variable {ε : Type} {s : Scheduler ε} {early late : Nat}

/-- What is due early comes out just so when more is asked for. -/
theorem popDue_mono {next : ε × Scheduler ε} (hle : early ≤ late)
    (h : s.popDue early = some next) : s.popDue late = some next := by
  simp only [popDue] at h ⊢
  split at h
  · cases h
  · split at h
    · next hdue =>
      rw [if_pos (Nat.le_trans hdue hle)]
      exact h
    · cases h

/-- Whoever comes out after the clock was moved on is due after that, so it does not matter that the
clock was moved. -/
theorem popDue_settle (h : s.popDue early = none) :
    (s.settle early).popDue late = s.popDue late := by
  simp only [popDue, settle] at h ⊢
  split at h
  · rfl
  · next x rest hpending =>
    split at h
    · cases h
    · next hlate =>
      have hnow : max (max s.now early) x.due = max s.now x.due := by omega
      simp only [hnow]

end Scheduler

namespace Session

variable {r mid last : Run} {early late t : Nat}

theorem settle_settle (early late : Nat) (r : Run) :
    settle late (settle early r) = settle (max early late) r := by
  simp only [settle, Scheduler.settle, Nat.max_assoc]

theorem deliverNext?_mono {next : Run} (hle : early ≤ late) (h : deliverNext? early r = some next) :
    deliverNext? late r = some next := by
  simp only [deliverNext?, Option.map_eq_some_iff] at h ⊢
  obtain ⟨popped, hpop, rfl⟩ := h
  exact ⟨popped, Scheduler.popDue_mono hle hpop, rfl⟩

theorem deliverNext?_settle (h : deliverNext? early r = none) :
    deliverNext? late (settle early r) = deliverNext? late r := by
  rw [deliverNext?, Option.map_eq_none_iff] at h
  simp only [deliverNext?, settle, Scheduler.popDue_settle h]

/-- With as many steps as the long advance may take, both short ones come to an end. -/
theorem advance?_split {steps : Nat} (hle : early ≤ late) (h : advance? steps late r = some last) :
    ∃ mid, advance? steps early r = some mid ∧ advance? steps late mid = some last := by
  induction steps generalizing r with
  | zero => cases h
  | succ steps ih =>
    rw [advance?] at h
    cases hearly : deliverNext? early r with
    | none =>
      refine ⟨settle early r, by rw [advance?, hearly], ?_⟩
      rw [advance?, deliverNext?_settle hearly, settle_settle, Nat.max_eq_right hle]
      exact h
    | some next =>
      simp only [deliverNext?_mono hle hearly] at h
      obtain ⟨mid, hmid, hlast⟩ := ih h
      exact ⟨mid, by rw [advance?, hearly]; exact hmid, advance?_mono hlast (Nat.le_succ _)⟩

/-- An advance is made up of an advance to any time on the way and one from there. -/
theorem advances_iff (hle : early ≤ late) :
    Advances late r last ↔ ∃ mid, Advances early r mid ∧ Advances late mid last := by
  constructor
  · intro h
    obtain ⟨steps, hsteps⟩ := h.exists_advance?
    obtain ⟨mid, hmid, hlast⟩ := advance?_split hle hsteps
    exact ⟨mid, .of_advance? hmid, .of_advance? hlast⟩
  · rintro ⟨mid, hmid, hlast⟩
    induction hmid with
    | settled hnone =>
      cases hlast with
      | settled hlate =>
        rw [deliverNext?_settle hnone] at hlate
        rw [settle_settle, Nat.max_eq_right hle]
        exact .settled hlate
      | delivered hnext hrest =>
        rw [deliverNext?_settle hnone] at hnext
        exact .delivered hnext hrest
    | delivered hnext _ ih => exact .delivered (deliverNext?_mono hle hnext) (ih hlast)

/-- The clock of a call that comes to a stop can be stopped on the way. -/
theorem advanceTo_advanceTo (hle : early ≤ late) (h : advance? stepLimit late r = some last) :
    advanceTo late (advanceTo early r) = advanceTo late r := by
  obtain ⟨mid, hmid, hlast⟩ := advance?_split hle h
  rw [advanceTo_eq hmid (Nat.le_refl _), advanceTo_eq hlast (Nat.le_refl _),
    advanceTo_eq h (Nat.le_refl _)]

end Session

def Observed.onto {σ : Type} (earlier : List TraceEvent) (r : Observed σ) : Observed σ :=
  { r with log := r.log ++ earlier }

namespace Session

variable {earlier : List TraceEvent} {r last : Run} {t : Nat}

private theorem foldl_onto {α : Type} {f : Run → α → Run}
    (hf : ∀ r x, f (r.onto earlier) x = (f r x).onto earlier) (xs : List α) (r : Run) :
    xs.foldl f (r.onto earlier) = (xs.foldl f r).onto earlier := by
  induction xs generalizing r with
  | nil => rfl
  | cons x xs ih => rw [List.foldl_cons, hf, ih, List.foldl_cons]

theorem dispatch_onto (out : Outbox) (r : Run) :
    dispatch out (r.onto earlier) = (dispatch out r).onto earlier := by
  simp only [dispatch]
  rw [foldl_onto fun _ _ => rfl, foldl_onto fun _ _ => rfl, foldl_onto fun _ _ => rfl]

private theorem onParticipant_onto (ssrc : Ssrc) (f : Turn Participant → Turn Participant)
    (r : Run) : onParticipant ssrc f (r.onto earlier) = (onParticipant ssrc f r).onto earlier := by
  have hstate : (r.onto earlier).state = r.state := rfl
  simp only [onParticipant, hstate]
  split
  · rfl
  · exact dispatch_onto _ (setParticipant ssrc _ r)

private theorem onArbitrator_onto (f : Turn Arbitrator → Turn Arbitrator) (r : Run) :
    onArbitrator f (r.onto earlier) = (onArbitrator f r).onto earlier :=
  dispatch_onto _ (setArbitrator _ r)

/-- Nobody looks at what was told before. -/
theorem deliver_onto (event : SessionEvent) (r : Run) :
    deliver event (r.onto earlier) = (deliver event r).onto earlier := by
  cases event with
  | expiry ticket =>
    simp only [deliver]
    split
    · exact onArbitrator_onto _ _
    · exact onParticipant_onto _ _ _
  | toArbitrator message => exact onArbitrator_onto _ _
  | toParticipant ssrc message => exact onParticipant_onto _ _ _

theorem deliverNext?_onto (t : Nat) (r : Run) :
    deliverNext? t (r.onto earlier) = (deliverNext? t r).map (·.onto earlier) := by
  have hstate : (r.onto earlier).state = r.state := rfl
  simp only [deliverNext?, hstate, Option.map_map]
  congr 1
  funext ⟨event, scheduler⟩
  exact deliver_onto event { r with state := { r.state with scheduler := scheduler } }

theorem advance?_onto (earlier : List TraceEvent) (steps t : Nat) (r : Run) :
    advance? steps t (r.onto earlier) = (advance? steps t r).map (·.onto earlier) := by
  induction steps generalizing r with
  | zero => rfl
  | succ steps ih =>
    simp only [advance?, deliverNext?_onto]
    cases deliverNext? t r with
    | none => rfl
    | some next => exact ih next

theorem Advances.onto (earlier : List TraceEvent) (h : Advances t r last) :
    Advances t (r.onto earlier) (last.onto earlier) := by
  obtain ⟨steps, hsteps⟩ := h.exists_advance?
  exact .of_advance? (by rw [advance?_onto, hsteps]; rfl)

end Session
end FloorControl
