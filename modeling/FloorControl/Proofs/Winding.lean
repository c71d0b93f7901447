import FloorControl.Outbox
import Mathlib.Data.List.Nodup
import Mathlib.Logic.Relation

/-!
# Timers through a turn

What a turn can do to the timers of a machine: stop them and start them, in any order and as often
as it likes, and every start draws a ticket. However a turn goes, a timer is left alone or moves on
to a generation of its own, and one that runs in a new generation has drawn exactly one ticket of
it. The tickets of a generation that it has left behind are worth nothing to it for good.
-/

namespace FloorControl

namespace Timer

def make (t : Timer) : Endpoint × TimerId × Nat := (t.owner, t.id, t.delay)

@[simp] theorem make_start (t : Timer) : t.start.make = t.make := rfl

@[simp] theorem make_stop (t : Timer) : t.stop.make = t.make := by
  simp only [stop]
  split <;> rfl

@[simp] theorem stop_stop (t : Timer) : t.stop.stop = t.stop := by
  by_cases h : t.running = true <;> simp [stop, h]

@[simp] theorem make_offer (ticket : Ticket) (t : Timer) : (t.offer ticket).make = t.make := by
  simp only [offer]
  split <;> rfl

@[simp] theorem generation_offer (ticket : Ticket) (t : Timer) :
    (t.offer ticket).generation = t.generation := by
  simp only [offer]
  split <;> rfl

theorem offer_of_accepts {ticket : Ticket} {t : Timer} (h : t.accepts ticket = true) :
    t.offer ticket = t.rest := by
  simp [offer, h]

theorem offer_of_not_accepts {ticket : Ticket} {t : Timer} (h : t.accepts ticket = false) :
    t.offer ticket = t := by
  simp [offer, h]

@[simp] theorem ticket_offer (ticket : Ticket) (t : Timer) :
    (t.offer ticket).ticket = t.ticket := by
  simp only [offer]
  split <;> rfl

def Owns (t : Timer) (ticket : Ticket) : Prop := ticket.owner = t.owner ∧ ticket.id = t.id

theorem owns_ticket (t : Timer) : t.Owns t.ticket := ⟨rfl, rfl⟩

/-- A timer does not accept the ticket of another one. -/
theorem offer_of_not_owns {ticket : Ticket} {t : Timer} (h : ¬ t.Owns ticket) :
    t.offer ticket = t := by
  refine offer_of_not_accepts (Bool.eq_false_iff.mpr fun haccepts => ?_)
  obtain ⟨-, rfl⟩ := (accepts_iff t ticket).mp haccepts
  exact h t.owns_ticket

theorem offer_of_id_ne {ticket : Ticket} {t : Timer} (h : ticket.id ≠ t.id) :
    t.offer ticket = t :=
  offer_of_not_owns fun howns => h howns.2

theorem owns_congr {t u : Timer} (h : u.make = t.make) {ticket : Ticket} :
    u.Owns ticket ↔ t.Owns ticket := by
  simp only [make, Prod.mk.injEq] at h
  rw [Owns, Owns, h.1, h.2.1]

/-- How a timer goes through a turn in which the given tickets are drawn. -/
structure Goes (before : Timer) (drawn : List Armed) (after : Timer) : Prop where
  make : after.make = before.make
  grows : before.generation ≤ after.generation
  still : after.generation = before.generation → after = before
  recent : ∀ armed ∈ drawn, before.Owns armed.ticket →
    before.generation < armed.ticket.generation ∧ armed.ticket.generation ≤ after.generation
  live : before.generation < after.generation → after.running = true →
    drawn.filter (·.ticket = after.ticket) = [⟨after.ticket, after.delay⟩]

variable {before after : Timer} {drawn : List Armed}

theorem Goes.refl (t : Timer) : t.Goes [] t where
  make := rfl
  grows := Nat.le_refl _
  still := fun _ => rfl
  recent := by simp
  live := fun h => absurd h (Nat.lt_irrefl _)

theorem Goes.stop (h : before.Goes drawn after) : before.Goes drawn after.stop := by
  by_cases hrunning : after.running = true
  · have hgeneration : after.stop.generation = after.generation + 1 := by
      simp [Timer.stop, hrunning]
    have hgrows := h.grows
    exact {
      make := (make_stop after).trans h.make
      grows := by omega
      still := fun _ => by omega
      recent := fun armed harmed howns => by
        have := h.recent armed harmed howns
        omega
      live := by simp }
  · have hstill : after.stop = after := by simp [Timer.stop, hrunning]
    rwa [hstill]

theorem Goes.start (h : before.Goes drawn after) :
    before.Goes (drawn ++ [⟨after.start.ticket, after.start.delay⟩]) after.start where
  make := h.make
  grows := Nat.le_succ_of_le h.grows
  still := fun heq => absurd h.grows (by simp only [Timer.start] at heq; omega)
  recent := fun armed harmed howns => by
    have hgrows := h.grows
    rcases List.mem_append.mp harmed with harmed | harmed
    · have := h.recent armed harmed howns
      simp only [Timer.start]
      omega
    · rw [List.mem_singleton.mp harmed]
      simp only [Timer.start, Timer.ticket]
      omega
  live := fun _ _ => by
    have hnone : drawn.filter (·.ticket = after.start.ticket) = [] := by
      rw [List.filter_eq_nil_iff]
      intro armed harmed heq
      have heq : armed.ticket = after.start.ticket := by simpa using heq
      have hle := (h.recent armed harmed
        (heq ▸ (owns_congr (h.make : after.start.make = _)).mp (owns_ticket _))).2
      rw [heq] at hle
      exact Nat.lt_irrefl _ (Nat.lt_of_succ_le hle)
    rw [List.filter_append, hnone]
    simp

/-- A ticket that some other timer draws is nothing to a timer. -/
theorem Goes.pass {armed : Armed} (h : before.Goes drawn after)
    (hother : ¬ before.Owns armed.ticket) : before.Goes (drawn ++ [armed]) after where
  make := h.make
  grows := h.grows
  still := h.still
  recent := fun x hx howns => by
    rcases List.mem_append.mp hx with hx | hx
    · exact h.recent x hx howns
    · exact absurd (List.mem_singleton.mp hx ▸ howns) hother
  live := fun hlt hrunning => by
    have hne : armed.ticket ≠ after.ticket := fun heq =>
      hother (heq ▸ (owns_congr h.make).mp (owns_ticket after))
    rw [List.filter_append, h.live hlt hrunning]
    simp [hne]

/-- Only the tickets of a timer count for how it goes. -/
theorem Goes.of_filter {p : Armed → Bool} (h : before.Goes (drawn.filter p) after)
    (hown : ∀ armed ∈ drawn, before.Owns armed.ticket → p armed = true) :
    before.Goes drawn after where
  make := h.make
  grows := h.grows
  still := h.still
  recent := fun armed harmed howns =>
    h.recent armed (List.mem_filter.mpr ⟨harmed, hown armed harmed howns⟩) howns
  live := fun hlt hrunning => by
    rw [← h.live hlt hrunning, List.filter_filter]
    refine List.filter_congr fun armed harmed => ?_
    by_cases heq : armed.ticket = after.ticket
    · have howns : before.Owns armed.ticket := heq ▸ (owns_congr h.make).mp (owns_ticket after)
      simp [heq, hown armed harmed howns]
    · simp [heq]

/-- The timer accepts no ticket up to the given generation, now or later. -/
structure Retires (timer : Timer) (generation : Nat) : Prop where
  reached : generation ≤ timer.generation
  later : timer.running = true → generation < timer.generation

theorem retires_of_stopped {timer : Timer} (h : timer.running = false) :
    timer.Retires timer.generation :=
  ⟨Nat.le_refl _, by simp [h]⟩

theorem retires_start (t : Timer) : t.start.Retires t.generation :=
  ⟨Nat.le_succ _, fun _ => Nat.lt_succ_self _⟩

theorem retires_stop (t : Timer) : t.stop.Retires t.generation :=
  ⟨generation_le_stop t, by simp⟩

theorem Retires.offer {timer : Timer} {generation : Nat} (h : timer.Retires generation)
    (ticket : Ticket) : (timer.offer ticket).Retires generation := by
  simp only [Timer.offer]
  split
  · exact ⟨h.reached, by simp⟩
  · exact h

theorem Retires.goes {before after : Timer} {drawn : List Armed} {generation : Nat}
    (h : before.Retires generation) (hgoes : before.Goes drawn after) :
    after.Retires generation := by
  refine ⟨Nat.le_trans h.reached hgoes.grows, fun hruns => ?_⟩
  rcases Nat.lt_or_eq_of_le hgoes.grows with hlt | heq
  · exact Nat.lt_of_le_of_lt h.reached hlt
  · rw [← heq]
    exact h.later (hgoes.still heq.symm ▸ hruns)

theorem Retires.refuses {timer : Timer} {ticket : Ticket} {generation : Nat}
    (h : timer.Retires generation) (hold : ticket.generation ≤ generation) :
    timer.accepts ticket = false := by
  rw [Bool.eq_false_iff]
  intro haccepts
  obtain ⟨hruns, rfl⟩ := (Timer.accepts_iff _ _).mp haccepts
  exact absurd (h.later hruns) (Nat.not_lt.mpr hold)

end Timer

/-- The timers of a machine in the middle of a turn, and the tickets that were drawn in it. -/
structure Winding where
  timers : List Timer
  drawn : List Armed

namespace Winding

inductive Act : Winding → Winding → Prop where
  | stopped {timers : List Timer} {drawn : List Armed} (i : Nat) :
      Act ⟨timers, drawn⟩ ⟨timers.modify i Timer.stop, drawn⟩
  | started {timers : List Timer} {drawn : List Armed} {i : Nat} {timer : Timer} :
      timers[i]? = some timer →
      Act ⟨timers, drawn⟩
        ⟨timers.set i timer.start, drawn ++ [⟨timer.start.ticket, timer.start.delay⟩]⟩

abbrev Acts : Winding → Winding → Prop := Relation.ReflTransGen Act

variable {v w : Winding}

theorem Acts.of_eq (h : v = w) : Acts v w := h ▸ .refl

theorem Acts.stop {timers after : List Timer} {drawn : List Armed} (i : Nat)
    (h : timers.modify i Timer.stop = after) : Acts ⟨timers, drawn⟩ ⟨after, drawn⟩ := by
  subst h
  exact .single (.stopped i)

theorem Acts.start {timers after : List Timer} {drawn : List Armed} {timer : Timer} (i : Nat)
    (hi : timers[i]? = some timer) (h : timers.set i timer.start = after) :
    Acts ⟨timers, drawn⟩ ⟨after, drawn ++ [⟨timer.start.ticket, timer.start.delay⟩]⟩ := by
  subst h
  exact .single (.started hi)

private theorem acts_stopEach (stopped timers : List Timer) (drawn : List Armed) :
    Acts ⟨stopped ++ timers, drawn⟩ ⟨stopped ++ timers.map Timer.stop, drawn⟩ := by
  induction timers generalizing stopped with
  | nil => exact .refl
  | cons t timers ih =>
    have hfirst : Acts ⟨stopped ++ t :: timers, drawn⟩ ⟨(stopped ++ [t.stop]) ++ timers, drawn⟩ :=
      Acts.stop stopped.length (by rw [List.modify_eq_take_cons_drop (by simp)]; simp)
    refine hfirst.trans ?_
    simpa only [List.append_assoc, List.singleton_append, List.map_cons] using
      ih (stopped ++ [t.stop])

/-- All timers are stopped. -/
theorem Acts.stopAll (timers : List Timer) (drawn : List Armed) :
    Acts ⟨timers, drawn⟩ ⟨timers.map Timer.stop, drawn⟩ :=
  acts_stopEach [] timers drawn

private theorem map_make_of_act (h : Act v w) :
    w.timers.map Timer.make = v.timers.map Timer.make := by
  refine List.ext_getElem? fun j => ?_
  cases h with
  | stopped i =>
    rw [List.getElem?_map, List.getElem?_map, List.getElem?_modify, Option.map_eq_map,
      Option.map_map]
    refine congrArg (Option.map · _) (funext fun T => ?_)
    by_cases hij : i = j <;> simp [hij]
  | @started timers drawn i timer hi =>
    rw [List.getElem?_map, List.getElem?_map, List.getElem?_set]
    split
    · next hij =>
      subst hij
      have hlt := (List.getElem?_eq_some_iff.mp hi).1
      rw [if_pos hlt, hi, Option.map_some, Option.map_some, Timer.make_start]
    · rfl

/-- A turn makes no timer anew. -/
theorem Acts.map_make (h : Acts v w) : w.timers.map Timer.make = v.timers.map Timer.make := by
  induction h with
  | refl => rfl
  | tail _ hact ih => exact (map_make_of_act hact).trans ih

/-- What was drawn before a turn stays in front of what is drawn in it. -/
theorem Acts.prepend {timers after : List Timer} {drawn : List Armed} (before : List Armed)
    (h : Acts ⟨timers, []⟩ ⟨after, drawn⟩) : Acts ⟨timers, before⟩ ⟨after, before ++ drawn⟩ := by
  generalize hw : (⟨after, drawn⟩ : Winding) = w at h
  induction h generalizing after drawn with
  | refl =>
    cases hw
    rw [List.append_nil]
  | tail _ hact ih =>
    subst hw
    cases hact with
    | stopped i => exact (ih rfl).tail (.stopped i)
    | started hi =>
      rw [← List.append_assoc]
      exact (ih rfl).tail (.started hi)

/-- Every ticket is drawn by one of the timers, for its delay. -/
theorem Acts.of_mem_drawn (h : Acts v w) {armed : Armed} (harmed : armed ∈ w.drawn) :
    armed ∈ v.drawn ∨ ∃ timer ∈ v.timers, timer.Owns armed.ticket ∧ armed.delay = timer.delay := by
  induction h with
  | refl => exact .inl harmed
  | tail hacts hact ih =>
    cases hact with
    | stopped => exact ih harmed
    | @started timers drawn i timer hi =>
      rcases List.mem_append.mp harmed with harmed | harmed
      · exact ih harmed
      · have hmake : timer.make ∈ v.timers.map Timer.make := by
          rw [← Acts.map_make hacts]
          exact List.mem_map_of_mem (List.mem_of_getElem? hi)
        obtain ⟨origin, horigin, heq⟩ := List.mem_map.mp hmake
        simp only [Timer.make, Prod.mk.injEq] at heq
        rw [List.mem_singleton.mp harmed]
        exact .inr ⟨origin, horigin, ⟨heq.1.symm, heq.2.1.symm⟩, heq.2.2.symm⟩

def Distinct (timers : List Timer) : Prop := (timers.map (·.id)).Nodup

section Distinct

variable {timers : List Timer} {i j : Nat} {t u : Timer} {ticket : Ticket}

theorem Distinct.of_map_make {make : List (Endpoint × TimerId × Nat)}
    (h : timers.map Timer.make = make) (hmake : (make.map (·.2.1)).Nodup) : Distinct timers := by
  rw [← h, List.map_map] at hmake
  exact hmake

theorem Distinct.id_ne (h : Distinct timers) (hi : timers[i]? = some t) (hj : timers[j]? = some u)
    (hij : i ≠ j) : t.id ≠ u.id := by
  intro hid
  obtain ⟨hlt, -⟩ := List.getElem?_eq_some_iff.mp hi
  refine hij ((List.getElem?_inj (by simpa using hlt) h).mp ?_)
  rw [List.getElem?_map, List.getElem?_map, hi, hj, Option.map_some, Option.map_some, hid]

/-- Only the timer that a ticket names can accept it. -/
theorem Distinct.map_offer (h : Distinct timers) (hi : timers[i]? = some t)
    (hid : ticket.id = t.id) : timers.map (Timer.offer ticket) = timers.set i (t.offer ticket) := by
  refine List.ext_getElem? fun j => ?_
  rw [List.getElem?_map, List.getElem?_set]
  split
  · next hij =>
    subst hij
    rw [if_pos (List.getElem?_eq_some_iff.mp hi).1, hi, Option.map_some]
  · next hij =>
    cases hj : timers[j]? with
    | none => rfl
    | some u =>
      rw [Option.map_some, Timer.offer_of_id_ne (hid ▸ h.id_ne hi hj hij)]

/-- A turn that begins with a ticket goes on only if the timer that it names accepts it. -/
theorem Acts.offer {drawn : List Armed} (h : Distinct timers) (hi : timers[i]? = some t)
    (hid : ticket.id = t.id) (hacts : t.accepts ticket = true → Acts v w)
    (hrest : ⟨timers.set i t.rest, drawn⟩ = v) :
    Acts ⟨timers.map (Timer.offer ticket), drawn⟩
      (if t.accepts ticket then w else ⟨timers, drawn⟩) := by
  rw [h.map_offer hi hid]
  subst hrest
  split
  · next haccepts =>
    rw [Timer.offer_of_accepts haccepts]
    exact hacts haccepts
  · next hrefuses =>
    rw [Timer.offer_of_not_accepts (Bool.not_eq_true _ ▸ hrefuses)]
    refine .of_eq (congrArg (Winding.mk · drawn) ?_)
    obtain ⟨hlt, rfl⟩ := List.getElem?_eq_some_iff.mp hi
    exact List.set_getElem_self hlt

/-- A ticket that no timer goes by is nothing to a machine. -/
theorem map_offer_of_not_mem (h : ticket.id ∉ timers.map (·.id)) :
    timers.map (Timer.offer ticket) = timers := by
  refine (List.map_congr_left fun t ht => ?_).trans timers.map_id
  exact Timer.offer_of_id_ne fun hid => h (hid ▸ List.mem_map_of_mem ht)

end Distinct

/-- How each timer goes through a turn. -/
theorem Acts.goes {timers : List Timer} (hdistinct : Distinct timers) (h : Acts ⟨timers, []⟩ w)
    {i : Nat} {after : Timer} (hafter : w.timers[i]? = some after) :
    ∃ before, timers[i]? = some before ∧ before.Goes w.drawn after := by
  induction h generalizing i after with
  | refl => exact ⟨after, hafter, .refl _⟩
  | tail _ hact ih =>
    cases hact with
    | @stopped current drawn j =>
      simp only [List.getElem?_modify] at hafter
      obtain ⟨T, hT, rfl⟩ := Option.map_eq_some_iff.mp hafter
      obtain ⟨before, hbefore, hgoes⟩ := ih hT
      refine ⟨before, hbefore, ?_⟩
      split
      · exact hgoes.stop
      · exact hgoes
    | @started current drawn j timer hj =>
      obtain ⟨origin, horigin, hmoved⟩ := ih hj
      simp only [List.getElem?_set] at hafter
      split at hafter
      · next hij =>
        subst hij
        split at hafter
        · cases hafter
          exact ⟨origin, horigin, hmoved.start⟩
        · cases hafter
      · next hij =>
        obtain ⟨before, hbefore, hgoes⟩ := ih hafter
        refine ⟨before, hbefore, hgoes.pass fun howns => ?_⟩
        have hmake := hmoved.make
        simp only [Timer.make, Prod.mk.injEq] at hmake
        exact hdistinct.id_ne hbefore horigin (Ne.symm hij) (howns.2.symm.trans hmake.2.1)

end Winding
end FloorControl
