import FloorControl.Session
import Mathlib.Data.List.TakeWhile

/-!
# Messages on their way

The messages of a call that have been sent and have not arrived, in the order in which they arrive.
All of them are on their way for the same time, so one that is sent now arrives after every other,
and what arrives next is the one that was sent first. Tickets of timers come in between and do not
change that order.
-/

namespace FloorControl

namespace Scheduler

variable {ε : Type} {x : Scheduled ε} {pending : List (Scheduled ε)}

def InOrder (pending : List (Scheduled ε)) : Prop := pending.Pairwise fun a b => a.due ≤ b.due

theorem lt_of_mem_dropWhile {t : Nat} {y : Scheduled ε} (h : InOrder pending)
    (hy : y ∈ pending.dropWhile (·.due ≤ t)) : t < y.due := by
  induction pending with
  | nil => simp at hy
  | cons z rest ih =>
    obtain ⟨hz, hrest⟩ := List.pairwise_cons.mp h
    rw [List.dropWhile_cons] at hy
    split at hy
    · exact ih hrest hy
    · next hlate =>
      have hlate : t < z.due := by simpa using hlate
      rcases List.mem_cons.mp hy with rfl | hy
      · exact hlate
      · exact Nat.lt_of_lt_of_le hlate (hz y hy)

/-- Placing keeps an order, if the new event is in order with those before it and after it. -/
theorem pairwise_place {R : Scheduled ε → Scheduled ε → Prop} (h : pending.Pairwise R)
    (hbefore : ∀ y ∈ pending, y.due ≤ x.due → R y x)
    (hafter : ∀ y ∈ pending.dropWhile (·.due ≤ x.due), R x y) : (place x pending).Pairwise R := by
  have hsplit := List.takeWhile_append_dropWhile (p := (·.due ≤ x.due)) (l := pending)
  have hparts := h
  rw [← hsplit, List.pairwise_append] at hparts
  obtain ⟨hearly, hlate, hbetween⟩ := hparts
  rw [place, List.pairwise_append, List.pairwise_cons]
  refine ⟨hearly, ⟨hafter, hlate⟩, ?_⟩
  intro y hy z hz
  rcases List.mem_cons.mp hz with rfl | hz
  · exact hbefore y ((List.takeWhile_prefix _).subset hy) (by simpa using List.mem_takeWhile_imp hy)
  · exact hbetween y hy z hz

theorem inOrder_place (h : InOrder pending) : InOrder (place x pending) :=
  pairwise_place h (fun _ _ hdue => hdue) fun _ hy => Nat.le_of_lt (lt_of_mem_dropWhile h hy)

/-- An event that is due no earlier than all of a kind comes after all of that kind. -/
theorem filter_place {f : Scheduled ε → Bool} (h : InOrder pending)
    (hlast : ∀ y ∈ pending, f y = true → y.due ≤ x.due) :
    (place x pending).filter f = pending.filter f ++ [x].filter f := by
  have hlate : (pending.dropWhile (·.due ≤ x.due)).filter f = [] := by
    rw [List.filter_eq_nil_iff]
    intro y hy hf
    have hlt := lt_of_mem_dropWhile h hy
    have hle := hlast y ((List.dropWhile_sublist _).subset hy) hf
    omega
  conv => rhs; rw [← List.takeWhile_append_dropWhile (p := (·.due ≤ x.due)) (l := pending)]
  rw [place, List.filter_append, List.filter_cons, List.filter_append, hlate, List.append_nil,
    List.filter_cons, List.filter_nil]

/-- An event of another kind does not move those of a kind. -/
theorem filter_place_of_not {f : Scheduled ε → Bool} (hf : f x = false) :
    (place x pending).filter f = pending.filter f := by
  conv => rhs; rw [← List.takeWhile_append_dropWhile (p := (·.due ≤ x.due)) (l := pending)]
  rw [place, List.filter_append, List.filter_cons, hf, List.filter_append]
  rfl

end Scheduler

def SessionEvent.isLetter : SessionEvent → Bool
  | .expiry _ => false
  | .toArbitrator _ | .toParticipant .. => true

theorem Envelope.isLetter_arrival (e : Envelope) : e.arrival.isLetter = true := by
  simp only [Envelope.arrival]
  split <;> rfl

namespace Session

open Scheduler

def mail (s : Session) : List SessionEvent :=
  (s.scheduler.pending.filter (·.event.isLetter)).map (·.event)

/-- What waits is in order, and a message that is sent now arrives after all others. -/
structure Punctual (s : Session) : Prop where
  inOrder : InOrder s.scheduler.pending
  letters : ∀ x ∈ s.scheduler.pending, x.event.isLetter = true →
    x.due ≤ Time.after s.now s.config.linkDelay.toNat

variable {s : Session} {r : Run}

theorem Punctual.of_pending_eq_nil (h : s.scheduler.pending = []) : s.Punctual where
  inOrder := by simp [h, InOrder]
  letters := by simp [h]

private theorem punctual_schedule {delay : Nat} {event : SessionEvent} (h : r.state.Punctual)
    (hdelay : event.isLetter = true → delay = r.state.config.linkDelay.toNat) :
    (schedule delay event r).state.Punctual where
  inOrder := inOrder_place h.inOrder
  letters x hx hletter := by
    rcases (mem_place _ x _).mp hx with rfl | hx
    · rw [hdelay hletter]
      exact Nat.le_refl _
    · exact h.letters x hx hletter

private theorem mail_schedule_ticket {delay : Nat} {ticket : Ticket} :
    (schedule delay (.expiry ticket) r).state.mail = r.state.mail := by
  rw [mail, mail]
  exact congrArg _ (filter_place_of_not rfl)

private theorem mail_schedule_letter {event : SessionEvent} (h : r.state.Punctual)
    (hletter : event.isLetter = true) :
    (schedule r.state.config.linkDelay.toNat event r).state.mail = r.state.mail ++ [event] := by
  rw [mail, mail]
  have hplace := filter_place (f := fun y => y.event.isLetter) h.inOrder h.letters
    (x := ⟨Time.after r.state.now r.state.config.linkDelay.toNat, r.state.scheduler.seq + 1, event⟩)
  refine (congrArg (List.map _) hplace).trans ?_
  simp [hletter]

/-- What the end of a step keeps of a call. -/
structure Dispatched (s s' : Session) : Prop where
  arbitrator : s'.arbitrator = s.arbitrator
  participants : s'.participants = s.participants
  active : s'.active = s.active
  config : s'.config = s.config
  callType : s'.callType = s.callType
  now : s'.now = s.now

theorem Dispatched.refl (s : Session) : Dispatched s s := ⟨rfl, rfl, rfl, rfl, rfl, rfl⟩

theorem Dispatched.trans {s₁ s₂ s₃ : Session} (h : Dispatched s₁ s₂) (h' : Dispatched s₂ s₃) :
    Dispatched s₁ s₃ where
  arbitrator := h'.arbitrator.trans h.arbitrator
  participants := h'.participants.trans h.participants
  active := h'.active.trans h.active
  config := h'.config.trans h.config
  callType := h'.callType.trans h.callType
  now := h'.now.trans h.now

private theorem dispatched_timers (timers : List Armed) (r : Run) :
    Dispatched r.state
      (timers.foldl (fun r armed => schedule armed.delay (.expiry armed.ticket) r) r).state := by
  induction timers generalizing r with
  | nil => exact .refl _
  | cons armed timers ih =>
    rw [List.foldl_cons]
    have hnext : Dispatched r.state (schedule armed.delay (.expiry armed.ticket) r).state :=
      ⟨rfl, rfl, rfl, rfl, rfl, rfl⟩
    exact hnext.trans (ih _)

private theorem dispatched_letters (letters : List Envelope) (r : Run) :
    Dispatched r.state (letters.foldl (fun r e => sendOff e r) r).state := by
  induction letters generalizing r with
  | nil => exact .refl _
  | cons e letters ih =>
    rw [List.foldl_cons]
    have hnext : Dispatched r.state (sendOff e r).state := ⟨rfl, rfl, rfl, rfl, rfl, rfl⟩
    exact hnext.trans (ih _)

private theorem state_tellEach (events : List FloorEvent) (r : Run) :
    (events.foldl (fun r event => tell event r) r).state = r.state := by
  induction events generalizing r with
  | nil => rfl
  | cons event events ih => rw [List.foldl_cons, ih]; rfl

/-- The end of a step changes nothing but what waits. -/
theorem dispatched_dispatch (out : Outbox) (r : Run) :
    Dispatched r.state (dispatch out r).state := by
  simp only [dispatch, state_tellEach]
  exact (dispatched_timers _ _).trans (dispatched_letters _ _)

private theorem mail_timers (timers : List Armed) (h : r.state.Punctual) :
    let r' := timers.foldl (fun r armed => schedule armed.delay (.expiry armed.ticket) r) r
    r'.state.Punctual ∧ r'.state.mail = r.state.mail := by
  induction timers generalizing r with
  | nil => exact ⟨h, rfl⟩
  | cons armed timers ih =>
    have hnext : (schedule armed.delay (.expiry armed.ticket) r).state.Punctual :=
      punctual_schedule h (by simp [SessionEvent.isLetter])
    obtain ⟨hpunctual, hmail⟩ := ih hnext
    exact ⟨hpunctual, hmail.trans mail_schedule_ticket⟩

private theorem mail_letters (letters : List Envelope) (h : r.state.Punctual) :
    let r' := letters.foldl (fun r e => sendOff e r) r
    r'.state.Punctual ∧ r'.state.mail = r.state.mail ++ letters.map (·.arrival) := by
  induction letters generalizing r with
  | nil => exact ⟨h, by simp⟩
  | cons e letters ih =>
    have htold : (tell (.messageSent r.state.callId e.sender e.receiver e.message) r).state =
        r.state := rfl
    have hnext : (sendOff e r).state.Punctual := punctual_schedule h fun _ => rfl
    have hmail : (sendOff e r).state.mail = r.state.mail ++ [e.arrival] :=
      mail_schedule_letter (htold ▸ h) e.isLetter_arrival
    obtain ⟨hpunctual, hrest⟩ := ih hnext
    refine ⟨hpunctual, hrest.trans ?_⟩
    rw [hmail, List.map_cons, List.append_assoc, List.singleton_append]

/-- The messages of a step are on their way behind all others when the step is over. -/
theorem mail_dispatch (out : Outbox) (h : r.state.Punctual) :
    (dispatch out r).state.Punctual ∧
      (dispatch out r).state.mail = r.state.mail ++ out.messages.map (·.arrival) := by
  obtain ⟨htimers, hmail⟩ := mail_timers out.timers h
  obtain ⟨hletters, hmail'⟩ := mail_letters out.messages htimers
  simp only [dispatch, mail, state_tellEach] at hmail hmail' ⊢
  exact ⟨hletters, hmail'.trans (by rw [hmail])⟩

/-- What is taken out of the scheduler next is a ticket, or the message that was sent first. -/
theorem mail_popDue {t : Nat} {event : SessionEvent} {scheduler : Scheduler SessionEvent}
    (h : s.Punctual) (hpop : s.scheduler.popDue t = some (event, scheduler)) :
    Punctual { s with scheduler := scheduler } ∧
      s.mail = [event].filter (·.isLetter) ++ mail { s with scheduler := scheduler } := by
  simp only [popDue] at hpop
  cases hpending : s.scheduler.pending with
  | nil => simp [hpending] at hpop
  | cons x rest =>
    simp only [hpending] at hpop
    split at hpop
    case isFalse => cases hpop
    cases hpop
    have hordered := h.inOrder
    rw [hpending, InOrder, List.pairwise_cons] at hordered
    refine ⟨⟨hordered.2, ?_⟩, ?_⟩
    · intro y hy hletter
      have hbefore := h.letters y (by rw [hpending]; exact List.mem_cons_of_mem _ hy) hletter
      exact Nat.le_trans hbefore (Time.after_mono _ (Nat.le_max_left _ _))
    · simp only [mail, hpending, List.filter_cons]
      cases x.event.isLetter <;> rfl

theorem punctual_settle (t : Nat) (h : r.state.Punctual) : (settle t r).state.Punctual where
  inOrder := h.inOrder
  letters x hx hletter :=
    Nat.le_trans (h.letters x hx hletter) (Time.after_mono _ (Nat.le_max_left _ _))

end Session
end FloorControl
