import FloorControl.Proofs.Scheduling
import FloorControl.Proofs.Winding

/-!
# Timers that share a scheduler

Any number of timers draw their tickets from one scheduler. They are started and stopped, the clock
goes on, and tickets are offered to them: to the right timer or to a wrong one, as soon as they are
due or much later, once or again and again. Nobody takes a ticket out of the scheduler when its
timer is stopped. Beside each timer an account is kept of what has become of it. By that account a
timer accepts the ticket of its latest start, if it was not stopped after that and has accepted no
ticket since, and no other ticket at all.
-/

namespace FloorControl

inductive TimerBank.Mark where
  /-- The timer was started, and its ticket was put into the scheduler. -/
  | started (entry : Scheduled Ticket)
  | stopped
  | accepted (ticket : Ticket)
  deriving DecidableEq, Repr

/-- A timer with all that has become of it, the latest first. -/
structure TimerBank.Watched where
  timer : Timer
  marks : List TimerBank.Mark := []
  deriving DecidableEq, Repr

/-- Some timers and the scheduler that they share. -/
structure TimerBank where
  timers : List TimerBank.Watched
  scheduler : Scheduler Ticket := {}
  /-- Every ticket that has been scheduled, with its deadline and a number of its own. -/
  scheduled : List (Scheduled Ticket) := []
  deriving DecidableEq, Repr

namespace TimerBank

def Mark.isAcceptance : Mark → Bool
  | .accepted _ => true
  | .started _ | .stopped => false

namespace Watched

def start (entry : Scheduled Ticket) (w : Watched) : Watched :=
  ⟨w.timer.start, .started entry :: w.marks⟩

def stop (w : Watched) : Watched := ⟨w.timer.stop, .stopped :: w.marks⟩

def offer (ticket : Ticket) (w : Watched) : Watched :=
  ⟨w.timer.offer ticket, if w.timer.accepts ticket then .accepted ticket :: w.marks else w.marks⟩

/-- The entry is that of the latest start, and since then the timer has neither been stopped nor
accepted a ticket. -/
def Awaits (w : Watched) (entry : Scheduled Ticket) : Prop :=
  w.marks.head? = some (.started entry)

end Watched

/-- What is done with the timers and their scheduler. A timer goes by its place. -/
inductive Act where
  | start (i : Nat)
  | stop (i : Nat)
  /-- Take the next ticket out of the scheduler, if it is due. -/
  | popDue (limit : Nat)
  | settle (t : Nat)
  /-- Offer a ticket to a timer, wherever the ticket comes from. -/
  | offer (ticket : Ticket) (i : Nat)
  deriving DecidableEq, Repr

def entryOf (timer : Timer) (b : TimerBank) : Scheduled Ticket :=
  ⟨min (b.scheduler.now + timer.delay) Time.last, b.scheduled.length + 1, timer.start.ticket⟩

def after (b : TimerBank) : Act → TimerBank
  | .start i =>
    match b.timers[i]? with
    | none => b
    | some w =>
      { timers := b.timers.modify i (Watched.start (b.entryOf w.timer))
        scheduler := b.scheduler.schedule w.timer.delay w.timer.start.ticket
        scheduled := b.scheduled ++ [b.entryOf w.timer] }
  | .stop i => { b with timers := b.timers.modify i Watched.stop }
  | .popDue limit =>
    match b.scheduler.popDue limit with
    | none => b
    | some (_, scheduler) => { b with scheduler := scheduler }
  | .settle t => { b with scheduler := b.scheduler.settle t }
  | .offer ticket i => { b with timers := b.timers.modify i (Watched.offer ticket) }

def run (b : TimerBank) (acts : List Act) : TimerBank := acts.foldl after b

def made (makes : List (Endpoint × TimerId × Nat)) : TimerBank where
  timers := makes.map fun (owner, id, delay) => ⟨{ owner := owner, id := id, delay := delay }, []⟩

def Distinct (makes : List (Endpoint × TimerId × Nat)) : Prop :=
  (makes.map fun (owner, id, _) => (owner, id)).Nodup

instance (makes : List (Endpoint × TimerId × Nat)) : Decidable (Distinct makes) :=
  inferInstanceAs (Decidable (List.Nodup _))

variable {b : TimerBank} {w : Watched} {entry : Scheduled Ticket} {ticket : Ticket}
  {scheduled : List (Scheduled Ticket)} {makes : List (Endpoint × TimerId × Nat)} {i j : Nat}

namespace Watched

/-- What holds at all times of a timer and its account, when the given tickets have been
scheduled. -/
structure Faithful (w : Watched) (scheduled : List (Scheduled Ticket)) : Prop where
  old : ∀ x ∈ scheduled, w.timer.Owns x.event → x.event.generation ≤ w.timer.generation
  running : w.timer.running = true → ∃ x ∈ scheduled, w.Awaits x ∧ x.event = w.timer.ticket
  resting : w.timer.running = false → ∀ x, ¬ w.Awaits x
  /-- Whatever the timer has accepted was the ticket of a start right before. -/
  earned : ∀ ticket earlier, .accepted ticket :: earlier <:+ w.marks →
    ∃ x ∈ scheduled, x.event = ticket ∧ earlier.head? = some (.started x)
  /-- A generation counts starts and stops, so it takes `UInt64.size` of them to go beyond the
  numbers of a machine word. -/
  counted : w.timer.generation ≤ w.marks.length

theorem faithful_made (make : Endpoint × TimerId × Nat) :
    Faithful ⟨{ owner := make.1, id := make.2.1, delay := make.2.2 }, []⟩ [] where
  old := by simp
  running := by simp
  resting := by simp [Awaits]
  earned := by simp
  counted := Nat.le_refl _

theorem Faithful.start (h : w.Faithful scheduled) (hentry : entry.event = w.timer.start.ticket) :
    (w.start entry).Faithful (scheduled ++ [entry]) where
  old x hx howns := by
    rcases List.mem_append.mp hx with hx | hx
    · exact Nat.le_succ_of_le (h.old x hx howns)
    · rw [List.mem_singleton.mp hx, hentry]
      exact Nat.le_refl _
  running _ := ⟨entry, by simp, rfl, hentry⟩
  resting hrests := by cases hrests
  earned ticket earlier hsuffix := by
    rcases List.suffix_cons_iff.mp hsuffix with heq | hsuffix
    · cases heq
    · obtain ⟨x, hx, hearned⟩ := h.earned ticket earlier hsuffix
      exact ⟨x, List.mem_append_left _ hx, hearned⟩
  counted := Nat.succ_le_succ h.counted

/-- A ticket that another timer draws changes nothing. -/
theorem Faithful.pass (h : w.Faithful scheduled) (hother : ¬ w.timer.Owns entry.event) :
    w.Faithful (scheduled ++ [entry]) where
  old x hx howns := by
    rcases List.mem_append.mp hx with hx | hx
    · exact h.old x hx howns
    · exact absurd (List.mem_singleton.mp hx ▸ howns) hother
  running hruns := by
    obtain ⟨x, hx, hawaits⟩ := h.running hruns
    exact ⟨x, List.mem_append_left _ hx, hawaits⟩
  resting := h.resting
  earned ticket earlier hsuffix := by
    obtain ⟨x, hx, hearned⟩ := h.earned ticket earlier hsuffix
    exact ⟨x, List.mem_append_left _ hx, hearned⟩
  counted := h.counted

theorem make_stop (w : Watched) : w.stop.timer.make = w.timer.make := Timer.make_stop w.timer

theorem Faithful.stop (h : w.Faithful scheduled) : w.stop.Faithful scheduled where
  old x hx howns := by
    have hle := h.old x hx ((Timer.owns_congr w.make_stop).mp howns)
    exact Nat.le_trans hle (Timer.generation_le_stop w.timer)
  running hruns := by
    rw [Watched.stop, Timer.running_stop] at hruns
    cases hruns
  resting _ x := by simp [Awaits, Watched.stop]
  earned ticket earlier hsuffix := by
    rcases List.suffix_cons_iff.mp hsuffix with heq | hsuffix
    · cases heq
    · exact h.earned ticket earlier hsuffix
  counted := by
    have hcounted := h.counted
    simp only [Watched.stop, Timer.stop, List.length_cons]
    split
    · exact Nat.succ_le_succ hcounted
    · exact Nat.le_succ_of_le hcounted

theorem offer_of_accepts (h : w.timer.accepts ticket = true) :
    w.offer ticket = ⟨w.timer.rest, .accepted ticket :: w.marks⟩ := by
  rw [offer, Timer.offer_of_accepts h, if_pos h]

theorem offer_of_not_accepts (h : w.timer.accepts ticket = false) : w.offer ticket = w := by
  rw [offer, Timer.offer_of_not_accepts h, h]
  rfl

theorem Faithful.offer (h : w.Faithful scheduled) (ticket : Ticket) :
    (w.offer ticket).Faithful scheduled := by
  cases haccepts : w.timer.accepts ticket with
  | false => rwa [offer_of_not_accepts haccepts]
  | true =>
    rw [offer_of_accepts haccepts]
    obtain ⟨hruns, hticket⟩ := (Timer.accepts_iff _ _).mp haccepts
    refine ⟨h.old, fun hrest => ?_, fun _ x => by simp [Awaits], ?_, Nat.le_succ_of_le h.counted⟩
    · cases hrest
    · intro other earlier hsuffix
      rcases List.suffix_cons_iff.mp hsuffix with heq | hsuffix
      · cases heq
        obtain ⟨x, hx, hawaits, hevent⟩ := h.running hruns
        exact ⟨x, hx, hevent.trans hticket.symm, hawaits⟩
      · exact h.earned other earlier hsuffix

/-- What a timer makes of the tickets that have been scheduled. -/
structure Discerns (w : Watched) (scheduled : List (Scheduled Ticket)) : Prop where
  accepts_iff : ∀ x ∈ scheduled, w.timer.accepts x.event = true ↔ w.Awaits x
  /-- A ticket that was never scheduled is not accepted. -/
  genuine : ∀ ticket, w.timer.accepts ticket = true → ∃ x ∈ scheduled, x.event = ticket
  /-- As long as the timer is not started, it accepts one ticket at most. -/
  once : ∀ later stretch earlier, w.marks = later ++ stretch ++ earlier →
    (∀ x, .started x ∉ stretch) → stretch.countP Mark.isAcceptance ≤ 1

theorem Faithful.accepts_iff (h : w.Faithful scheduled)
    (hfresh : (scheduled.map (·.event)).Nodup) (hentry : entry ∈ scheduled) :
    w.timer.accepts entry.event = true ↔ w.Awaits entry := by
  rw [Timer.accepts_iff]
  constructor
  · rintro ⟨hruns, hticket⟩
    obtain ⟨x, hx, hawaits, hevent⟩ := h.running hruns
    have hsame := List.inj_on_of_nodup_map hfresh hx hentry (hevent.trans hticket.symm)
    rwa [← hsame]
  · intro hawaits
    have hruns : w.timer.running = true := by
      by_contra hrests
      exact h.resting (Bool.eq_false_iff.mpr hrests) entry hawaits
    obtain ⟨x, -, hlatest, hevent⟩ := h.running hruns
    have hsame : some (Mark.started x) = some (Mark.started entry) := hlatest.symm.trans hawaits
    cases hsame
    exact ⟨hruns, hevent⟩

/-- Between two acceptances there is a start. -/
theorem Faithful.once (h : w.Faithful scheduled) {later stretch earlier : List Mark}
    (hmarks : w.marks = later ++ stretch ++ earlier) (hnone : ∀ x, .started x ∉ stretch) :
    stretch.countP Mark.isAcceptance ≤ 1 := by
  induction stretch generalizing later with
  | nil => exact Nat.zero_le _
  | cons mark stretch ih =>
    have hbehind : w.marks = (later ++ [mark]) ++ stretch ++ earlier := by simpa using hmarks
    have hrest := ih hbehind fun x hx => hnone x (List.mem_cons_of_mem _ hx)
    cases mark with
    | started x => exact absurd List.mem_cons_self (hnone x)
    | stopped => simpa [Mark.isAcceptance] using hrest
    | accepted ticket =>
      obtain ⟨x, -, -, hstart⟩ := h.earned ticket (stretch ++ earlier) ⟨later, by simp [hmarks]⟩
      cases stretch with
      | nil => exact Nat.le_refl _
      | cons mark stretch =>
        rw [List.cons_append, List.head?_cons, Option.some.injEq] at hstart
        exact absurd (hstart ▸ List.mem_cons_of_mem _ List.mem_cons_self) (hnone x)

theorem Faithful.discerns (h : w.Faithful scheduled) (hfresh : (scheduled.map (·.event)).Nodup) :
    w.Discerns scheduled where
  accepts_iff _ hx := h.accepts_iff hfresh hx
  genuine ticket haccepts := by
    obtain ⟨hruns, hticket⟩ := (Timer.accepts_iff _ _).mp haccepts
    obtain ⟨x, hx, -, hevent⟩ := h.running hruns
    exact ⟨x, hx, hevent.trans hticket.symm⟩
  once _ _ _ hmarks hnone := h.once hmarks hnone

end Watched

/-- What holds at all times of timers that were made as given. -/
structure Kept (makes : List (Endpoint × TimerId × Nat)) (b : TimerBank) : Prop where
  make : b.timers.map (·.timer.make) = makes
  numbered : b.scheduled.length = b.scheduler.seq
  waiting : b.scheduler.pending ⊆ b.scheduled
  /-- No ticket is drawn twice. -/
  fresh : (b.scheduled.map (·.event)).Nodup
  faithful : ∀ (i : Nat) (w : Watched), b.timers[i]? = some w → w.Faithful b.scheduled

theorem kept_made (makes : List (Endpoint × TimerId × Nat)) : (made makes).Kept makes where
  make := by simp [made, Function.comp_def, Timer.make]
  numbered := rfl
  waiting := List.nil_subset _
  fresh := .nil
  faithful i w hw := by
    rw [made, List.getElem?_map] at hw
    obtain ⟨make, -, rfl⟩ := Option.map_eq_some_iff.mp hw
    exact Watched.faithful_made make

theorem Kept.getElem?_makes (h : b.Kept makes) (hi : b.timers[i]? = some w) :
    makes[i]? = some w.timer.make := by
  rw [← h.make, List.getElem?_map, hi]
  rfl

/-- A timer does not own what another one draws. -/
theorem Kept.not_owns (h : b.Kept makes) (hdistinct : Distinct makes) {v : Watched}
    (hi : b.timers[i]? = some w) (hj : b.timers[j]? = some v) (hij : i ≠ j) :
    ¬ v.timer.Owns w.timer.start.ticket := by
  intro howns
  have hmake := h.getElem?_makes hi
  obtain ⟨hlt, -⟩ := List.getElem?_eq_some_iff.mp hmake
  refine hij ((List.getElem?_inj (by simpa using hlt) hdistinct).mp ?_)
  rw [List.getElem?_map, List.getElem?_map, hmake, h.getElem?_makes hj]
  exact congrArg some (Prod.ext howns.1 howns.2)

private theorem map_make_modify {f : Watched → Watched}
    (hmake : ∀ w, (f w).timer.make = w.timer.make) (timers : List Watched) (i : Nat) :
    (timers.modify i f).map (·.timer.make) = timers.map (·.timer.make) := by
  refine List.ext_getElem? fun j => ?_
  rw [List.getElem?_map, List.getElem?_map, List.getElem?_modify, Option.map_eq_map,
    Option.map_map]
  refine congrArg (Option.map · _) (funext fun w => ?_)
  by_cases hij : i = j <;> simp [hij, hmake]

/-- Where a timer comes from when one of them was changed. -/
private theorem getElem?_modify_eq_some {f : Watched → Watched} {timers : List Watched}
    {v : Watched} (h : (timers.modify i f)[j]? = some v) :
    ∃ w, timers[j]? = some w ∧ (i = j ∧ v = f w ∨ i ≠ j ∧ v = w) := by
  rw [List.getElem?_modify, Option.map_eq_map, Option.map_eq_some_iff] at h
  obtain ⟨w, hw, rfl⟩ := h
  by_cases hij : i = j
  · exact ⟨w, hw, .inl ⟨hij, if_pos hij⟩⟩
  · exact ⟨w, hw, .inr ⟨hij, if_neg hij⟩⟩

/-- The next ticket of a timer is a new one. -/
theorem Kept.next_not_mem (h : b.Kept makes) (hi : b.timers[i]? = some w) :
    w.timer.start.ticket ∉ b.scheduled.map (·.event) := by
  intro hdrawn
  obtain ⟨x, hx, hevent⟩ := List.mem_map.mp hdrawn
  have howns : w.timer.Owns x.event := hevent ▸ w.timer.start.owns_ticket
  have hold := (h.faithful i w hi).old x hx howns
  rw [hevent] at hold
  exact Nat.lt_irrefl _ hold

theorem Kept.start (h : b.Kept makes) (hdistinct : Distinct makes) (i : Nat) :
    (b.after (.start i)).Kept makes := by
  simp only [after]
  split
  · exact h
  · next w hi =>
    exact {
      make := by
        rw [← h.make]
        exact map_make_modify (f := Watched.start (b.entryOf w.timer)) (fun _ => rfl) b.timers i
      numbered := by simp [Scheduler.schedule, h.numbered]
      waiting := fun x hx => by
        rcases (Scheduler.mem_place _ _ _).mp hx with rfl | hx
        · simp [entryOf, Time.after, h.numbered]
        · exact List.mem_append_left _ (h.waiting hx)
      fresh := by
        rw [List.map_append, List.map_singleton, ← List.concat_eq_append]
        exact h.fresh.concat (h.next_not_mem hi)
      faithful := fun j v hv => by
        obtain ⟨u, hu, ⟨rfl, rfl⟩ | ⟨hij, rfl⟩⟩ := getElem?_modify_eq_some hv
        · rw [hi, Option.some.injEq] at hu
          subst hu
          exact (h.faithful i w hi).start rfl
        · exact (h.faithful j v hu).pass (h.not_owns hdistinct hi hu hij) }

/-- One timer changes, and no ticket is drawn. -/
theorem Kept.modify (h : b.Kept makes) {f : Watched → Watched}
    (hmake : ∀ w, (f w).timer.make = w.timer.make)
    (hfaithful : ∀ w, w.Faithful b.scheduled → (f w).Faithful b.scheduled) (i : Nat) :
    ({ b with timers := b.timers.modify i f } : TimerBank).Kept makes where
  make := (map_make_modify hmake b.timers i).trans h.make
  numbered := h.numbered
  waiting := h.waiting
  fresh := h.fresh
  faithful j v hv := by
    obtain ⟨w, hw, ⟨-, rfl⟩ | ⟨-, rfl⟩⟩ := getElem?_modify_eq_some hv
    · exact hfaithful w (h.faithful j w hw)
    · exact h.faithful j v hw

theorem Kept.popDue (h : b.Kept makes) (limit : Nat) : (b.after (.popDue limit)).Kept makes := by
  simp only [after]
  split
  · exact h
  · next event scheduler hpop =>
    obtain ⟨x, rest, hpending, -, -, rfl⟩ := Scheduler.popDue_eq_some hpop
    exact ⟨h.make, h.numbered, fun y hy => h.waiting (hpending ▸ List.mem_cons_of_mem _ hy),
      h.fresh, h.faithful⟩

/-- One act keeps the timers and their accounts. -/
theorem Kept.after (h : b.Kept makes) (hdistinct : Distinct makes) (act : Act) :
    (b.after act).Kept makes := by
  cases act with
  | start i => exact h.start hdistinct i
  | stop i => exact h.modify Watched.make_stop (fun _ hw => hw.stop) i
  | popDue limit => exact h.popDue limit
  | settle t => exact ⟨h.make, h.numbered, h.waiting, h.fresh, h.faithful⟩
  | offer ticket i =>
    exact h.modify (fun w => Timer.make_offer ticket w.timer) (fun _ hw => hw.offer ticket) i

theorem Kept.run (h : b.Kept makes) (hdistinct : Distinct makes) (acts : List Act) :
    (b.run acts).Kept makes := by
  induction acts generalizing b with
  | nil => exact h
  | cons act acts ih => exact ih (h.after hdistinct act)

/-- The timer accepts no ticket up to the given generation, now or later. -/
def RetiresAt (b : TimerBank) (i generation : Nat) : Prop :=
  ∀ w, b.timers[i]? = some w → w.timer.Retires generation

theorem RetiresAt.after {generation : Nat} (h : b.RetiresAt i generation) (act : Act) :
    (b.after act).RetiresAt i generation := by
  -- Whichever timer is changed, the change does not bring the generation back.
  have hchanged : ∀ (f : Watched → Watched) j,
      (∀ w, w.timer.Retires generation → (f w).timer.Retires generation) →
      ∀ w, (b.timers.modify j f)[i]? = some w → w.timer.Retires generation := by
    intro f j hf w hw
    obtain ⟨v, hv, ⟨-, rfl⟩ | ⟨-, rfl⟩⟩ := getElem?_modify_eq_some hw
    · exact hf v (h v hv)
    · exact h w hv
  cases act with
  | start j =>
    simp only [TimerBank.after]
    split
    · exact h
    · exact hchanged _ j fun w hw => hw.goes (Timer.Goes.refl w.timer).start
  | stop j => exact hchanged _ j fun w hw => hw.goes (Timer.Goes.refl w.timer).stop
  | popDue limit =>
    simp only [TimerBank.after]
    split <;> exact h
  | settle t => exact h
  | offer ticket j => exact hchanged _ j fun _ hw => hw.offer ticket

theorem RetiresAt.run {generation : Nat} (h : b.RetiresAt i generation) (acts : List Act) :
    (b.run acts).RetiresAt i generation := by
  induction acts generalizing b with
  | nil => exact h
  | cons act acts ih => exact ih (h.after act)

/-- Whatever is done from now on, the timer accepts none of the given tickets. -/
def Spurns (b : TimerBank) (i : Nat) (scheduled : List (Scheduled Ticket)) : Prop :=
  ∀ acts (w : Watched), (b.run acts).timers[i]? = some w →
    ∀ x ∈ scheduled, w.timer.accepts x.event = false

/-- A timer whose generation is retired by an act has no use for what was scheduled before. -/
theorem Kept.spurns (h : b.Kept makes) (hdistinct : Distinct makes) {act : Act}
    (hretires : ∀ w, b.timers[i]? = some w → (b.after act).RetiresAt i w.timer.generation) :
    (b.after act).Spurns i b.scheduled := by
  intro acts v hv x hx
  have hmake := ((h.after hdistinct act).run hdistinct acts).getElem?_makes hv
  rw [← h.make, List.getElem?_map, Option.map_eq_some_iff] at hmake
  obtain ⟨w, hw, hmake⟩ := hmake
  by_cases howns : w.timer.Owns x.event
  · exact ((hretires w hw).run acts v hv).refuses ((h.faithful i w hw).old x hx howns)
  · refine Bool.eq_false_iff.mpr fun haccepts => howns ?_
    obtain ⟨-, hticket⟩ := (Timer.accepts_iff _ _).mp haccepts
    rw [hticket]
    exact (Timer.owns_congr hmake).mpr v.timer.owns_ticket

/-- All tickets that have been scheduled so far are worth nothing any more to a timer that is
started or stopped now, or accepts one of them. -/
structure Outdates (b : TimerBank) (i : Nat) : Prop where
  started : (b.after (.start i)).Spurns i b.scheduled
  stopped : (b.after (.stop i)).Spurns i b.scheduled
  accepted : ∀ ticket (w : Watched), b.timers[i]? = some w → w.timer.accepts ticket = true →
    (b.after (.offer ticket i)).Spurns i b.scheduled

/-- A change that makes a timer retire a generation. -/
private theorem retires_of_modify {f : Watched → Watched} {timers : List Watched}
    {generation : Nat} (hi : timers[i]? = some w) (hf : (f w).timer.Retires generation) :
    ∀ v, (timers.modify i f)[i]? = some v → v.timer.Retires generation := by
  intro v hv
  rw [List.getElem?_modify_eq, hi] at hv
  obtain rfl : f w = v := Option.some.inj hv
  exact hf

theorem Kept.outdates (h : b.Kept makes) (hdistinct : Distinct makes) (i : Nat) :
    b.Outdates i where
  started := by
    apply h.spurns hdistinct
    intro w hi
    simp only [RetiresAt, TimerBank.after, hi]
    exact retires_of_modify hi w.timer.retires_start
  stopped := by
    apply h.spurns hdistinct
    intro w hi
    exact retires_of_modify hi w.timer.retires_stop
  accepted ticket w hi haccepts := by
    apply h.spurns hdistinct
    intro v hv
    rw [hi, Option.some.injEq] at hv
    subst hv
    refine retires_of_modify hi ?_
    rw [Watched.offer_of_accepts haccepts]
    exact Timer.retires_of_stopped w.timer.running_rest

/-- A timer accepts the ticket of its latest start, once and only if it was not stopped, and it
accepts no other ticket, whatever is done with all the timers and in whatever order. -/
theorem never_stale_nor_twice (hdistinct : Distinct makes) (acts : List Act) :
    ((made makes).run acts).Kept makes ∧
      (∀ w ∈ ((made makes).run acts).timers, w.Discerns ((made makes).run acts).scheduled) ∧
      ∀ i, ((made makes).run acts).Outdates i := by
  have hkept := (kept_made makes).run hdistinct acts
  refine ⟨hkept, fun w hw => ?_, hkept.outdates hdistinct⟩
  obtain ⟨i, hi⟩ := List.mem_iff_getElem?.mp hw
  exact (hkept.faithful i w hi).discerns hkept.fresh

private def alike : List (Endpoint × TimerId × Nat) :=
  [(.participant 1, .t101, 40), (.participant 2, .t101, 40)]

/-- The first timer is started anew before its ticket is due. It is offered that ticket, the ticket
of the other timer, and its own one twice. -/
private def restarted : List Act :=
  [.start 0, .start 1, .settle 20, .start 0, .popDue 40, .offer ⟨.participant 1, .t101, 1⟩ 0,
    .popDue 40, .offer ⟨.participant 2, .t101, 1⟩ 0, .stop 1, .popDue 60,
    .offer ⟨.participant 1, .t101, 2⟩ 0, .offer ⟨.participant 1, .t101, 2⟩ 0]

theorem never_stale_nor_twice_restarted :
    let b := (made alike).run restarted
    Distinct alike ∧ b.Kept alike ∧ (∀ w ∈ b.timers, w.Discerns b.scheduled) ∧
      ∀ i, b.Outdates i :=
  ⟨by decide, never_stale_nor_twice (by decide) restarted⟩

/-- Of the four tickets that were offered only one was accepted. -/
example : ((made alike).run restarted).timers.map (·.marks) =
    [[.accepted ⟨.participant 1, .t101, 2⟩, .started ⟨60, 3, ⟨.participant 1, .t101, 2⟩⟩,
      .started ⟨40, 1, ⟨.participant 1, .t101, 1⟩⟩],
      [.stopped, .started ⟨40, 2, ⟨.participant 2, .t101, 1⟩⟩]] := by
  decide

end TimerBank
end FloorControl
