import Mathlib.Data.Nat.Notation

/-!
# Messages that are sent again and again

Some messages are sent again whenever a timer runs out, until they have been sent often enough; then
the sender gives up. Here only the counting is looked at. A step of a run rests, repeats the
message, or gives up, and it says so by three numbers and by the count that it leaves behind. From
that it follows how often the message was repeated in a whole run, and that the sender gives up
once.
-/

namespace FloorControl

variable {σ ι : Type}

def tally (step : ι → σ → σ) (f : ι → σ → ℕ) : List ι → σ → ℕ
  | [], _ => 0
  | input :: inputs, s => f input s + tally step f inputs (step input s)

def Throughout (step : ι → σ → σ) (P : ι → σ → Prop) : List ι → σ → Prop
  | [], _ => True
  | input :: inputs, s => P input s ∧ Throughout step P inputs (step input s)

section Throughout

variable {step : ι → σ → σ} {P : ι → σ → Prop}

instance Throughout.decidable [∀ input s, Decidable (P input s)] :
    (inputs : List ι) → (s : σ) → Decidable (Throughout step P inputs s)
  | [], _ => .isTrue trivial
  | input :: inputs, s =>
    have : Decidable (Throughout step P inputs (step input s)) :=
      decidable inputs (step input s)
    inferInstanceAs (Decidable (P input s ∧ Throughout step P inputs (step input s)))

theorem throughout_append {first rest : List ι} {s : σ} :
    Throughout step P (first ++ rest) s ↔
      Throughout step P first s ∧
        Throughout step P rest (first.foldl (fun s input => step input s) s) := by
  induction first generalizing s with
  | nil => simp [Throughout]
  | cons input first ih => simp [Throughout, ih, and_assoc]

theorem throughout_of_take {inputs : List ι} {s : σ}
    (h : ∀ k (_ : k < inputs.length),
      P inputs[k] ((inputs.take k).foldl (fun s input => step input s) s)) :
    Throughout step P inputs s := by
  induction inputs generalizing s with
  | nil => trivial
  | cons input inputs ih => exact ⟨h 0 (by simp), ih fun k hk => h (k + 1) (by simpa using hk)⟩

end Throughout

/-- What is counted along the runs of a machine that repeats a message. -/
structure Repetition (σ ι : Type) where
  /-- The sender gives up at this count. -/
  limit : ℕ
  /-- Whether the message may still have to be repeated. -/
  goes : σ → Prop
  /-- What holds after the sender has given up. -/
  finished : σ → Prop
  count : σ → ℕ
  /-- How often the timer runs out in a step. -/
  expiries : ι → σ → ℕ
  repeats : ι → σ → ℕ
  failures : ι → σ → ℕ

namespace Repetition

variable {step : ι → σ → σ} {r : Repetition σ ι} {s : σ} {input : ι} {inputs : List ι}

/-- What a step from `s` to `next` may do. -/
inductive Beat (r : Repetition σ ι) (input : ι) (s next : σ) : Prop
  /-- Nothing. A repetition that goes on has gone on before, with the same count. -/
  | rests : r.expiries input s = 0 → r.repeats input s = 0 → r.failures input s = 0 →
      (r.goes next → r.goes s ∧ r.count next = r.count s) → (r.finished s → r.finished next) →
      Beat r input s next
  /-- The timer has run out, and the message is sent again. -/
  | again : r.goes s → r.goes next → r.count s + 1 ≠ r.limit →
      (r.count s < r.limit → r.count next = r.count s + 1) →
      r.expiries input s = 1 → r.repeats input s = 1 → r.failures input s = 0 →
      Beat r input s next
  /-- The timer has run out, and the sender gives up. -/
  | ends : r.goes s → ¬ r.goes next → r.finished next → r.count s + 1 = r.limit →
      r.expiries input s = 1 → r.repeats input s = 0 → r.failures input s = 1 →
      Beat r input s next

def Beats (r : Repetition σ ι) (step : ι → σ → σ) (inputs : List ι) (s : σ) : Prop :=
  Throughout step (fun input s => r.Beat input s (step input s)) inputs s

theorem Beats.head (h : r.Beats step (input :: inputs) s) : r.Beat input s (step input s) := h.1

theorem Beats.tail (h : r.Beats step (input :: inputs) s) : r.Beats step inputs (step input s) :=
  h.2

/-- A repetition that has ended does not begin anew. -/
theorem Beats.not_goes (h : r.Beats step inputs s) (hended : ¬ r.goes s) :
    ¬ r.goes (inputs.foldl (fun s input => step input s) s) := by
  induction inputs generalizing s with
  | nil => exact hended
  | cons input inputs ih =>
    refine ih h.tail ?_
    cases h.head with
    | rests _ _ _ hgoes => exact fun hnext => hended (hgoes hnext).1
    | again hgoes => exact absurd hgoes hended
    | ends hgoes => exact absurd hgoes hended

/-- Where the repetition has ended, nothing comes of it any more. -/
theorem Beats.ended (h : r.Beats step inputs s) (hended : ¬ r.goes s) :
    tally step r.expiries inputs s = 0 ∧ tally step r.repeats inputs s = 0 ∧
      tally step r.failures inputs s = 0 ∧
      (r.finished s → r.finished (inputs.foldl (fun s input => step input s) s)) := by
  induction inputs generalizing s with
  | nil => exact ⟨rfl, rfl, rfl, id⟩
  | cons input inputs ih =>
    cases h.head with
    | rests hexpiries hrepeats hfailures hgoes hfinished =>
      obtain ⟨h1, h2, h3, h4⟩ := ih h.tail fun hnext => hended (hgoes hnext).1
      exact ⟨by simp [tally, hexpiries, h1], by simp [tally, hrepeats, h2],
        by simp [tally, hfailures, h3], fun h => h4 (hfinished h)⟩
    | again hgoes => exact absurd hgoes hended
    | ends hgoes => exact absurd hgoes hended

/-- The account of a run from `s` to `last` in which the timer runs out `k` times. -/
structure Account (r : Repetition σ ι) (s last : σ) (k repeats failures : ℕ) : Prop where
  within : r.count s + k ≤ r.limit
  /-- The timer runs out for a repetition, or for the last time. -/
  balance : repeats + failures = k
  once : failures = if r.count s + k = r.limit then 1 else 0
  finished : r.count s + k = r.limit → r.finished last

/-- The message is repeated as often as the timer runs out, except that the sender gives up, once,
when the limit is reached. -/
theorem Beats.account (h : r.Beats step inputs s) (hroom : r.count s < r.limit) :
    r.Account s (inputs.foldl (fun s input => step input s) s) (tally step r.expiries inputs s)
      (tally step r.repeats inputs s) (tally step r.failures inputs s) := by
  induction inputs generalizing s with
  | nil =>
    have hbelow : r.count s ≠ r.limit := Nat.ne_of_lt hroom
    exact ⟨Nat.le_of_lt hroom, rfl, by simp [tally, hbelow], fun heq => absurd heq hbelow⟩
  | cons input inputs ih =>
    cases h.head with
    | rests hexpiries hrepeats hfailures hgoes =>
      simp only [tally, hexpiries, hrepeats, hfailures, Nat.zero_add, List.foldl_cons]
      by_cases hnext : r.goes (step input s)
      · obtain ⟨-, hcount⟩ := hgoes hnext
        obtain ⟨hwithin, hbalance, honce, hfinished⟩ := ih h.tail (by omega)
        rw [hcount] at hwithin honce hfinished
        exact ⟨hwithin, hbalance, honce, hfinished⟩
      · obtain ⟨h1, h2, h3, -⟩ := h.tail.ended hnext
        have hbelow : r.count s ≠ r.limit := Nat.ne_of_lt hroom
        rw [h1, h2, h3]
        exact ⟨Nat.le_of_lt hroom, rfl, by simp [hbelow], fun heq => absurd heq hbelow⟩
    | again _ _ hbelow hcounts hexpiries hrepeats hfailures =>
      have hcount := hcounts hroom
      obtain ⟨hwithin, hbalance, honce, hfinished⟩ := ih h.tail (by omega)
      simp only [tally, hexpiries, hrepeats, hfailures, Nat.zero_add, List.foldl_cons]
      rw [hcount, Nat.add_assoc] at hwithin honce hfinished
      exact ⟨hwithin, by omega, honce, hfinished⟩
    | ends _ hnext hfinished hlast hexpiries hrepeats hfailures =>
      obtain ⟨h1, h2, h3, h4⟩ := h.tail.ended hnext
      simp only [tally, hexpiries, hrepeats, hfailures, List.foldl_cons, h1, h2, h3]
      exact ⟨Nat.le_of_eq hlast, rfl, by simp [hlast], fun _ => h4 hfinished⟩

/-- From the beginning of a repetition on, the message is repeated each time but the last. -/
theorem Beats.afresh (h : r.Beats step inputs s) (hlimit : 1 ≤ r.limit)
    (hfresh : r.goes s → r.count s = 0) :
    tally step r.expiries inputs s ≤ r.limit ∧
      tally step r.repeats inputs s = min (tally step r.expiries inputs s) (r.limit - 1) ∧
      tally step r.failures inputs s =
        (if tally step r.expiries inputs s = r.limit then 1 else 0) ∧
      (tally step r.expiries inputs s = r.limit →
        r.finished (inputs.foldl (fun s input => step input s) s)) := by
  by_cases hgoes : r.goes s
  · have hcount := hfresh hgoes
    obtain ⟨hwithin, hbalance, honce, hfinished⟩ := h.account (by omega)
    rw [hcount, Nat.zero_add] at hwithin honce hfinished
    refine ⟨hwithin, ?_, honce, hfinished⟩
    split at honce
    · omega
    · omega
  · obtain ⟨hexpiries, hrepeats, hfailures, -⟩ := h.ended hgoes
    have hbelow : 0 ≠ r.limit := Nat.ne_of_lt hlimit
    rw [hexpiries, hrepeats, hfailures]
    exact ⟨Nat.zero_le _, by simp, by simp [hbelow], fun heq => absurd heq hbelow⟩

end Repetition
end FloorControl
