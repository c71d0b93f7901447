import FloorControl.Proofs.Parking

/-!
# What a party that waits can count on

As long as a party waits, what it waits for is on its way to it, or will be sent when the message
that asks for it arrives. The exception is a preemptor, which hears nothing for the time being: it
is told its place when it asks again, and until then it is not forgotten. All of this is in time,
and stays so with whatever arrives and whatever is sent.
-/

namespace FloorControl.Session

open Arbitrator (Places Replies Attends letterTo)
open Participant (Wait)

variable {w : Wait} {x : Ssrc} {delay last count now due : Nat} {p q : Places}
  {letters rest more : List (Nat × SessionEvent)} {messages : List Envelope} {message : Message}

def Answered (w : Wait) (x : Ssrc) (last : Nat) (letters : List (Nat × SessionEvent)) : Prop :=
  ∃ due message, (due, .toParticipant x message) ∈ letters ∧ w.endsBy message = true ∧ due < last

def Called (w : Wait) (x : Ssrc) (delay last : Nat) (letters : List (Nat × SessionEvent)) : Prop :=
  ∃ due message, (due, .toArbitrator message) ∈ letters ∧ w.calls x message = true ∧
    due + delay < last

/-- The party has not given its request back. It asks again in time, or has not done so yet. -/
structure Settled (x : Ssrc) (delay last count : Nat) (letters : List (Nat × SessionEvent)) :
    Prop where
  keeps : ∀ due, (due, .toArbitrator (.release x)) ∉ letters
  calls : count = 0 ∨ Called .answer x delay last letters

/-- What a party can count on that has sent its message again as often as the count says. -/
inductive Pledge (x : Ssrc) (delay last count : Nat) (p : Places)
    (letters : List (Nat × SessionEvent)) : Wait → Prop
  | answered {w : Wait} : Answered w x last letters → Pledge x delay last count p letters w
  | returned : Called .confirmation x delay last letters →
      Pledge x delay last count p letters .confirmation
  | asked {before after : List (Nat × SessionEvent)} {due : Nat} {r : Request} :
      letters = before ++ (due, .toArbitrator (.request r)) :: after → r.ssrc = x →
      due + delay < last → Settled x delay last count after →
      Pledge x delay last count p letters .answer
  | parked : p.Parks x → Settled x delay last count letters →
      Pledge x delay last count p letters .answer

/-- All that a party needs of the arbitrator is to stay the preemptor. -/
theorem Pledge.of_parks (h : Pledge x delay last count p letters w)
    (hparks : p.Parks x → q.Parks x) : Pledge x delay last count q letters w := by
  cases h with
  | answered h => exact .answered h
  | returned h => exact .returned h
  | asked heq hsame htime hsettled => exact .asked heq hsame htime hsettled
  | parked hbefore hsettled => exact .parked (hparks hbefore) hsettled

def Keeping (x : Ssrc) (letters : List (Nat × SessionEvent)) : Prop :=
  ∀ letter ∈ letters, letter.2 ≠ .toArbitrator (.release x)

theorem Answered.append (h : Answered w x last letters) : Answered w x last (letters ++ more) := by
  obtain ⟨due, message, hletter, hends, htime⟩ := h
  exact ⟨due, message, List.mem_append_left _ hletter, hends, htime⟩

theorem Called.append (h : Called w x delay last letters) :
    Called w x delay last (letters ++ more) := by
  obtain ⟨due, message, hletter, hcalls, htime⟩ := h
  exact ⟨due, message, List.mem_append_left _ hletter, hcalls, htime⟩

theorem Settled.append (h : Settled x delay last count letters) (hmore : Keeping x more) :
    Settled x delay last count (letters ++ more) := by
  constructor
  · intro due hletter
    rcases List.mem_append.mp hletter with hletter | hletter
    · exact h.keeps due hletter
    · exact hmore _ hletter rfl
  · exact h.calls.imp_right Called.append

theorem Pledge.append (h : Pledge x delay last count p letters w) (hmore : Keeping x more) :
    Pledge x delay last count p (letters ++ more) w := by
  cases h with
  | answered h => exact .answered h.append
  | returned h => exact .returned h.append
  | @asked before after due r heq hsame htime hsettled =>
    have hsplit : letters ++ more =
        before ++ (due, .toArbitrator (.request r)) :: (after ++ more) := by
      rw [heq, List.append_assoc, List.cons_append]
    exact .asked hsplit hsame htime (hsettled.append hmore)
  | parked hparks hsettled => exact .parked hparks (hsettled.append hmore)

theorem keeping_of_answers {w : Wait} {message : Message} (hcalls : w.calls x message = true)
    (hwait : w = .answer) : Keeping x [(due, .toArbitrator message)] := by
  subst hwait
  intro letter hletter heq
  rw [List.mem_singleton.mp hletter] at heq
  cases heq
  cases hcalls

/-- A party that sends its message again can count on an answer to that as well. -/
theorem Pledge.again (h : Pledge x delay last count p letters w)
    (hcalls : w.calls x message = true)
    (htime : w = .answer → count = 0 → due + delay < last) :
    Pledge x delay last (count + 1) p (letters ++ [(due, .toArbitrator message)]) w := by
  have hsettles {letters : List (Nat × SessionEvent)} (hwait : w = .answer)
      (hsettled : Settled x delay last count letters) :
      Settled x delay last (count + 1) (letters ++ [(due, .toArbitrator message)]) := by
    constructor
    · exact (hsettled.append (keeping_of_answers hcalls hwait)).keeps
    · right
      rcases hsettled.calls with hfirst | hcalled
      · exact ⟨due, message, by simp, hwait ▸ hcalls, htime hwait hfirst⟩
      · exact hcalled.append
  cases h with
  | answered h => exact .answered h.append
  | returned h => exact .returned h.append
  | @asked before after asked r heq hsame hsoon hsettled =>
    have hsplit : letters ++ [(due, .toArbitrator message)] =
        before ++ (asked, .toArbitrator (.request r)) ::
          (after ++ [(due, .toArbitrator message)]) := by
      rw [heq, List.append_assoc, List.cons_append]
    exact .asked hsplit hsame hsoon (hsettles rfl hsettled)
  | parked hparks hsettled => exact .parked hparks (hsettles rfl hsettled)

/-- A party that has just sent its message can count on an answer. -/
theorem pledge_begins (hcalls : w.calls x message = true) (htime : due + delay < last) :
    Pledge x delay last 0 p (letters ++ [(due, .toArbitrator message)]) w := by
  cases w with
  | confirmation => exact .returned ⟨due, message, by simp, hcalls, htime⟩
  | answer =>
    cases message with
    | request r =>
      have hsame : r.ssrc = x := by simpa [Wait.calls] using hcalls
      exact .asked rfl hsame htime ⟨by simp, .inl rfl⟩
    | _ => cases hcalls

/-- The event neither comes to the arbitrator nor ends the wait of the party. -/
def Passing (w : Wait) (x : Ssrc) (event : SessionEvent) : Prop :=
  (∀ message, event ≠ .toArbitrator message) ∧
    ∀ message, event = .toParticipant x message → w.endsBy message = false

theorem Called.of_cons {letter : Nat × SessionEvent} (h : Called w x delay last (letter :: rest))
    (hother : ∀ message, letter.2 = .toArbitrator message → w.calls x message = false) :
    Called w x delay last rest := by
  obtain ⟨due, message, hletter, hcalls, htime⟩ := h
  rcases List.mem_cons.mp hletter with rfl | hletter
  · rw [hother message rfl] at hcalls
    cases hcalls
  · exact ⟨due, message, hletter, hcalls, htime⟩

theorem Answered.of_cons {letter : Nat × SessionEvent} (h : Answered w x last (letter :: rest))
    (hother : ∀ message, letter.2 = .toParticipant x message → w.endsBy message = false) :
    Answered w x last rest := by
  obtain ⟨due, message, hletter, hends, htime⟩ := h
  rcases List.mem_cons.mp hletter with rfl | hletter
  · rw [hother message rfl] at hends
    cases hends
  · exact ⟨due, message, hletter, hends, htime⟩

theorem Settled.of_cons {letter : Nat × SessionEvent}
    (h : Settled x delay last count (letter :: rest))
    (hother : ∀ message, letter.2 = .toArbitrator message → Wait.answer.calls x message = false) :
    Settled x delay last count rest :=
  ⟨fun due hletter => h.keeps due (List.mem_cons_of_mem _ hletter),
    h.calls.imp_right fun hcalled => hcalled.of_cons hother⟩

private theorem Pledge.of_cons {letter : Nat × SessionEvent}
    (h : Pledge x delay last count p (letter :: rest) w) (hpasses : Passing w x letter.2) :
    Pledge x delay last count p rest w := by
  have hother {w : Wait} : ∀ message, letter.2 = .toArbitrator message →
      w.calls x message = false := fun message heq => absurd heq (hpasses.1 message)
  cases h with
  | answered h => exact .answered (h.of_cons hpasses.2)
  | returned h => exact .returned (h.of_cons hother)
  | @asked before after due r heq hsame htime hsettled =>
    cases before with
    | nil =>
      cases heq
      exact absurd rfl (hpasses.1 (.request r))
    | cons first before =>
      cases heq
      exact .asked rfl hsame htime hsettled
  | parked hparks hsettled => exact .parked hparks (hsettled.of_cons hother)

/-- What arrives elsewhere leaves the party what it counts on. -/
theorem Pledge.arrives {event? : Option SessionEvent}
    (h : Pledge x delay last count p letters w)
    (hletters : letters = (Scene.arriving event?).map (now, ·) ++ rest)
    (hpasses : ∀ event ∈ event?, Passing w x event) : Pledge x delay last count p rest w := by
  subst hletters
  cases event? with
  | none => exact h
  | some event =>
    simp only [Scene.arriving, Option.toList_some, List.filter_cons, List.filter_nil] at h
    split at h
    · exact h.of_cons (hpasses event rfl)
    · exact h

/-- An answer to a settled request comes in time. -/
theorem Settled.soon (h : Settled x delay last count letters)
    (hnow : ∀ letter ∈ letters, now ≤ letter.1) (hfirst : count = 0 → now + delay < last) :
    now + delay < last := by
  rcases h.calls with hcount | ⟨due, message, hletter, -, htime⟩
  · exact hfirst hcount
  · have hle := hnow _ hletter
    exact Nat.lt_of_le_of_lt (Nat.add_le_add_right hle delay) htime

theorem answered_of_replies (h : Replies w x messages) (htime : due < last) :
    Answered w x last (letters ++ messages.map fun e => (due, e.arrival)) := by
  obtain ⟨message, hletter, hends⟩ := h
  refine ⟨due, message, List.mem_append_right _ ?_, hends, htime⟩
  exact List.mem_map.mpr ⟨_, hletter, rfl⟩

/-- The arbitrator takes nothing back. -/
theorem keeping_of_letters (h : ∀ e ∈ messages, ∃ ssrc message, e = letterTo ssrc message) :
    Keeping x (messages.map fun e => (due, e.arrival)) := by
  intro letter hletter
  obtain ⟨e, he, rfl⟩ := List.mem_map.mp hletter
  obtain ⟨ssrc, message, rfl⟩ := h e he
  simp [letterTo, Envelope.arrival]

/-- What the arbitrator does of its own leaves the party something to count on. -/
theorem Pledge.acts (h : Pledge x delay last count p letters w)
    (hletters : ∀ e ∈ messages, ∃ ssrc message, e = letterTo ssrc message)
    (hparks : p.Parks x → q.Parks x ∨ Replies .answer x messages)
    (hnow : ∀ letter ∈ letters, now ≤ letter.1)
    (hfirst : w = .answer → count = 0 → now + delay < last) :
    Pledge x delay last count q (letters ++ messages.map fun e => (now + delay, e.arrival)) w := by
  have hkeeping : Keeping x (messages.map fun e => (now + delay, e.arrival)) :=
    keeping_of_letters hletters
  cases h with
  | answered h => exact .answered h.append
  | returned h => exact .returned h.append
  | asked heq hsame htime hsettled =>
    have hasked : Pledge x delay last count q letters .answer := .asked heq hsame htime hsettled
    exact hasked.append hkeeping
  | parked hbefore hsettled =>
    rcases hparks hbefore with hafter | hreplies
    · exact .parked hafter (hsettled.append hkeeping)
    · exact .answered (answered_of_replies hreplies (hsettled.soon hnow (hfirst rfl)))

/-- A message that the arbitrator gets leaves the party something to count on. -/
theorem Pledge.hears (h : Pledge x delay last count p ((now, .toArbitrator message) :: rest) w)
    (hattends : Attends x message p messages q) (hnow : ∀ letter ∈ rest, now ≤ letter.1)
    (hfirst : w = .answer → count = 0 → now + delay < last) :
    Pledge x delay last count q (rest ++ messages.map fun e => (now + delay, e.arrival)) w := by
  have hkeeping : Keeping x (messages.map fun e => (now + delay, e.arrival)) :=
    keeping_of_letters hattends.letters
  cases h with
  | answered h => exact .answered (h.of_cons (by simp)).append
  | returned h =>
    by_cases hcalls : Wait.confirmation.calls x message = true
    · obtain rfl : message = .release x := by
        cases message with
        | release ssrc => exact congrArg _ (by simpa [Wait.calls] using hcalls)
        | _ => cases hcalls
      have hsoon : now + delay < last := by
        obtain ⟨due, _, hletter, -, htime⟩ := h
        rcases List.mem_cons.mp hletter with heq | hletter
        · cases heq
          exact htime
        · exact Nat.lt_of_le_of_lt (Nat.add_le_add_right (hnow _ hletter) delay) htime
      exact .answered (answered_of_replies (hattends.release rfl) hsoon)
    · refine .returned (h.of_cons ?_).append
      rintro _ ⟨⟩
      exact Bool.eq_false_iff.mpr hcalls
  | @asked before after due r heq hsame htime hsettled =>
    cases before with
    | nil =>
      cases heq
      rcases hattends.request r rfl hsame with hreplies | hparked
      · exact .answered (answered_of_replies hreplies htime)
      · exact .parked hparked.2 (hsettled.append hkeeping)
    | cons first before =>
      cases heq
      have hasked : Pledge x delay last count q
          (before ++ (due, .toArbitrator (.request r)) :: after) .answer :=
        .asked rfl hsame htime hsettled
      exact hasked.append hkeeping
  | parked hparks hsettled =>
    have hsoon : now + delay < last := by
      apply hsettled.soon _ (hfirst rfl)
      intro letter hletter
      rcases List.mem_cons.mp hletter with rfl | hletter
      · exact Nat.le_refl _
      · exact hnow letter hletter
    have hrelease : message ≠ .release x := by
      rintro rfl
      exact hsettled.keeps now List.mem_cons_self
    by_cases hcalls : Wait.answer.calls x message = true
    · cases message with
      | request r =>
        have hsame : r.ssrc = x := by simpa [Wait.calls] using hcalls
        rcases hattends.request r rfl hsame with hreplies | hparked
        · exact .answered (answered_of_replies hreplies hsoon)
        · exact absurd hparks hparked.1
      | _ => cases hcalls
    · rcases hattends.parks hparks hrelease with hstays | hreplies
      · refine .parked hstays ((hsettled.of_cons ?_).append hkeeping)
        rintro _ ⟨⟩
        exact Bool.eq_false_iff.mpr hcalls
      · exact .answered (answered_of_replies hreplies hsoon)

/-- A party that has something to count on does not wait until the given time. -/
theorem Pledge.now_lt (h : Pledge x delay last count p letters w)
    (hnow : ∀ letter ∈ letters, now ≤ letter.1)
    (hfirst : w = .answer → count = 0 → now < last) : now < last := by
  cases h with
  | answered h =>
    obtain ⟨due, _, hletter, -, htime⟩ := h
    exact Nat.lt_of_le_of_lt (hnow _ hletter) htime
  | returned h =>
    obtain ⟨due, _, hletter, -, htime⟩ := h
    have hle := hnow _ hletter
    simp only at hle
    omega
  | asked heq _ htime _ =>
    subst heq
    have hle := hnow _ (List.mem_append_right _ List.mem_cons_self)
    simp only at hle
    omega
  | parked _ hsettled =>
    rcases hsettled.calls with hcount | ⟨due, _, hletter, -, htime⟩
    · exact hfirst rfl hcount
    · have hle := hnow _ hletter
      simp only at hle
      omega

end FloorControl.Session
