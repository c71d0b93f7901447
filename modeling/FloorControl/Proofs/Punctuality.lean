import FloorControl.Proofs.Attendance
import FloorControl.Proofs.Delivery

/-!
# Calls with time to spare

As long as no deadline falls on the last moment that a clock can show, everything that waits is due
exactly when its delay is over: a message when it has been on its way, and the ticket of a timer
that runs when the timer has run for its delay. Nothing that waits is overdue, so whatever is handed
over is due at that very time and no later than anything else.
-/

namespace FloorControl

namespace Scheduler

variable {ε : Type} {s : Scheduler ε}

/-- Every wish gets an entry. -/
theorem exists_mem_entries {wishes : List (Nat × ε)} {wish : Nat × ε} (h : wish ∈ wishes) :
    ∃ x ∈ s.entries wishes, x.event = wish.2 := by
  induction wishes generalizing s with
  | nil => cases h
  | cons first rest ih =>
    rcases List.mem_cons.mp h with rfl | h
    · exact ⟨_, List.mem_cons_self, rfl⟩
    · obtain ⟨x, hx, hevent⟩ := ih (s := s.schedule first.1 first.2) h
      exact ⟨x, List.mem_cons_of_mem _ hx, hevent⟩

end Scheduler

namespace Session

def InTime (now delay : Nat) (outs : List Outbox) : Prop :=
  ∀ wish ∈ outs.flatMap (wishes delay), now + wish.1 ≤ Time.last

/-- No deadline ever fell on the last moment for want of time. -/
def History.Unsaturated (h : History) : Prop :=
  ∀ e ∈ h, InTime e.time e.before.config.linkDelay.toNat e.outboxes

variable {config : SessionConfig} {s : Session} {m : Machines} {op : Operation}
  {outs outs' : List Outbox} {event : SessionEvent} {before : Endpoint → List Timer}
  {now delay : Nat}

theorem inTime_append :
    InTime now delay (outs ++ outs') ↔ InTime now delay outs ∧ InTime now delay outs' := by
  simp only [InTime, List.flatMap_append, List.mem_append, or_imp, forall_and]

theorem InTime.letter (h : InTime now delay outs) {e : Envelope}
    (he : e ∈ outs.flatMap (·.messages)) : now + delay ≤ Time.last := by
  obtain ⟨out, hout, he⟩ := List.mem_flatMap.mp he
  refine h (delay, e.arrival) (List.mem_flatMap.mpr ⟨out, hout, ?_⟩)
  exact List.mem_append_right _ (List.mem_map.mpr ⟨e, he, rfl⟩)

/-- A call with time to spare, where the given timers go into the turn that comes next: nothing that
waits is overdue, and no timer has a ticket in the scheduler that it has not drawn yet. -/
structure Regular (config : SessionConfig) (s : Session) (before : Endpoint → List Timer) :
    Prop where
  config_eq : s.config = config
  made : Made config before
  punctual : s.Punctual
  prompt : ∀ y ∈ s.scheduler.pending, s.now ≤ y.due
  old : ∀ o, ∀ timer ∈ before o, ∀ y ∈ s.scheduler.pending, ∀ ticket,
    y.event = .expiry ticket → timer.Owns ticket → ticket.generation ≤ timer.generation

/-- A new ticket in the scheduler was drawn in the step. -/
private theorem exists_armed {ticket : Ticket} {wish : Nat × SessionEvent}
    (hwish : wish ∈ outs.flatMap (wishes delay)) (hticket : wish.2 = .expiry ticket) :
    ∃ armed ∈ outs.flatMap (·.timers), armed.ticket = ticket ∧ wish.1 = armed.delay := by
  have hfound : wish ∈ (outs.flatMap (wishes delay)).filter (·.2 = .expiry ticket) :=
    List.mem_filter.mpr ⟨hwish, by simpa using hticket⟩
  rw [filter_expiry_wishes, List.mem_map] at hfound
  obtain ⟨armed, harmed, rfl⟩ := hfound
  rw [List.mem_filter] at harmed
  exact ⟨armed, harmed.1, by simpa using harmed.2, rfl⟩

/-- No ticket is drawn of a timer that is left alone. -/
theorem ticket_of_still {timer after : Timer} (hgoes : timer.Goes (outs.flatMap (·.timers)) after)
    (hstill : after.generation = timer.generation) {y : Scheduled SessionEvent}
    (hy : y ∈ (s.progressed m outs).scheduler.pending) (hevent : y.event = .expiry after.ticket) :
    y ∈ s.scheduler.pending := by
  rcases mem_pending_progressed hy with hy | ⟨wish, hwish, -, hwanted⟩
  · exact hy
  · obtain ⟨armed, harmed, hticket, -⟩ := exists_armed hwish (hwanted.symm.trans hevent)
    have howns : timer.Owns armed.ticket :=
      (Timer.owns_congr hgoes.make).mp (hticket ▸ after.owns_ticket)
    have hrecent := (hgoes.recent armed harmed howns).1
    rw [hticket, ← hstill] at hrecent
    exact absurd hrecent (Nat.lt_irrefl _)

namespace Regular

variable (h : Regular config s before)

include h

theorem progressed (hwinds : Winds before outs m)
    (hin : InTime s.now config.linkDelay.toNat outs) :
    Regular config (s.progressed m outs) m.clocks where
  config_eq := h.config_eq
  made := h.made.winds hwinds
  punctual := (letters_progressed m outs h.punctual).1
  prompt y hy := by
    rw [now_progressed]
    rcases mem_pending_progressed hy with hy | ⟨wish, hwish, hdue, -⟩
    · exact h.prompt y hy
    · rw [h.config_eq] at hwish
      have hspare := hin wish hwish
      rw [hdue, Time.after]
      omega
  old o after hafter y hy ticket hevent howns := by
    obtain ⟨timer, htimer, hgoes⟩ := hwinds.goes h.made hafter
    have howns := (Timer.owns_congr hgoes.make).mp howns
    rcases mem_pending_progressed hy with hy | ⟨wish, hwish, -, hwanted⟩
    · exact Nat.le_trans (h.old o timer htimer y hy ticket hevent howns) hgoes.grows
    · obtain ⟨armed, harmed, rfl, -⟩ := exists_armed hwish (hwanted.symm.trans hevent)
      exact (hgoes.recent armed harmed howns).2

/-- What is sent in a step is on its way behind everything else. -/
theorem letters_progressed (m : Machines) (hin : InTime s.now config.linkDelay.toNat outs) :
    (s.progressed m outs).letters = s.letters ++ (outs.flatMap (·.messages)).map fun e =>
      (s.now + config.linkDelay.toNat, e.arrival) := by
  rw [(Session.letters_progressed m outs h.punctual).2, h.config_eq]
  refine congrArg (s.letters ++ ·) (List.map_congr_left fun e he => ?_)
  have hspare := hin.letter he
  rw [arrivalAfter, Time.after]
  simp only [Nat.min_eq_left hspare]

/-- A timer that is started has one new ticket in the scheduler, which is due after its delay. -/
theorem ticket_of_started {o : Endpoint} {timer after : Timer} (htimer : timer ∈ before o)
    (hgoes : timer.Goes (outs.flatMap (·.timers)) after)
    (hlater : timer.generation < after.generation) (hruns : after.running = true)
    (hin : InTime s.now config.linkDelay.toNat outs) :
    (∃ y ∈ (s.progressed m outs).scheduler.pending, y.event = .expiry after.ticket) ∧
      ∀ y ∈ (s.progressed m outs).scheduler.pending, y.event = .expiry after.ticket →
        y.due = s.now + after.delay := by
  have hdrawn := hgoes.live hlater hruns
  constructor
  · have hmem : Armed.mk after.ticket after.delay ∈ outs.flatMap (·.timers) :=
      (List.mem_filter.mp (hdrawn ▸ List.mem_singleton_self _)).1
    obtain ⟨out, hout, hmem⟩ := List.mem_flatMap.mp hmem
    have hwish : (after.delay, SessionEvent.expiry after.ticket) ∈
        outs.flatMap (wishes s.config.linkDelay.toNat) :=
      List.mem_flatMap.mpr ⟨out, hout, List.mem_append_left _ (List.mem_map.mpr ⟨_, hmem, rfl⟩)⟩
    obtain ⟨y, hy, hevent⟩ := Scheduler.exists_mem_entries (s := s.scheduler) hwish
    exact ⟨y, (Scheduler.pending_scheduleEach _ s.scheduler).mem_iff.mpr
      (List.mem_append_right _ hy), hevent⟩
  · intro y hy hevent
    rcases mem_pending_progressed hy with hy | ⟨wish, hwish, hdue, hwanted⟩
    · have hle := h.old o timer htimer y hy _ hevent
        ((Timer.owns_congr hgoes.make).mp after.owns_ticket)
      exact absurd hlater (Nat.not_lt.mpr hle)
    · rw [h.config_eq] at hwish
      have hspare := hin wish hwish
      obtain ⟨armed, harmed, hticket, hwaits⟩ := exists_armed hwish (hwanted.symm.trans hevent)
      have hfound : armed ∈ (outs.flatMap (·.timers)).filter (·.ticket = after.ticket) :=
        List.mem_filter.mpr ⟨harmed, by simpa using hticket⟩
      rw [hdrawn, List.mem_singleton] at hfound
      subst hfound
      rw [hdue, Time.after, hwaits]
      rw [hwaits] at hspare
      exact Nat.min_eq_left hspare

end Regular

/-- What is handed over was due at that time, and nothing was due earlier. If it is a message, it
was the first on its way. -/
structure Handed (s : Session) (event : SessionEvent) (scheduler : Scheduler SessionEvent) :
    Prop where
  due : ∃ y ∈ s.scheduler.pending, y.event = event ∧ y.due = scheduler.now
  first : ∀ y ∈ s.scheduler.pending, scheduler.now ≤ y.due
  rest : ∀ y ∈ scheduler.pending, y ∈ s.scheduler.pending
  keeps : ∀ y ∈ s.scheduler.pending, y.event = event ∨ y ∈ scheduler.pending
  letters : s.letters = ([event].filter (·.isLetter)).map (scheduler.now, ·) ++
    letters { s with scheduler := scheduler }

theorem Regular.handed {t : Nat} {scheduler : Scheduler SessionEvent}
    (h : Regular config s s.machines.clocks)
    (hpop : s.scheduler.popDue t = some (event, scheduler)) :
    Handed s event scheduler ∧ Regular config { s with scheduler := scheduler }
      fun o => (s.machines.clocks o).map event.offer := by
  obtain ⟨hpunctual, -⟩ := mail_popDue h.punctual hpop
  obtain ⟨x, rest, hpending, -, rfl, rfl⟩ := Scheduler.popDue_eq_some hpop
  have hordered := h.punctual.inOrder
  rw [hpending, Scheduler.InOrder, List.pairwise_cons] at hordered
  have hnow : max s.scheduler.now x.due = x.due :=
    Nat.max_eq_right (h.prompt x (by rw [hpending]; exact List.mem_cons_self))
  have hrest : ∀ y ∈ rest, y ∈ s.scheduler.pending := by
    rw [hpending]
    exact fun y => List.mem_cons_of_mem _
  refine ⟨⟨⟨x, by rw [hpending]; exact List.mem_cons_self, rfl, hnow.symm⟩, ?_, hrest, ?_, ?_⟩,
    h.config_eq, h.made.offered x.event, hpunctual, ?_, ?_⟩
  · intro y hy
    rw [hpending] at hy
    rw [hnow]
    rcases List.mem_cons.mp hy with rfl | hy
    · exact Nat.le_refl _
    · exact hordered.1 y hy
  · intro y hy
    rw [hpending] at hy
    exact (List.mem_cons.mp hy).imp_left (congrArg Scheduled.event)
  · simp only [letters, Scheduler.waiting, hpending, List.filter_cons, hnow]
    cases x.event.isLetter <;> rfl
  · intro y hy
    change max s.scheduler.now x.due ≤ y.due
    rw [hnow]
    exact hordered.1 y hy
  · intro o offered hoffered y hy ticket hevent howns
    obtain ⟨timer, htimer, rfl⟩ := List.mem_map.mp hoffered
    have hle := h.old o timer htimer y (hrest y hy) ticket hevent
      ((Timer.owns_congr (x.event.make_offer timer)).mp howns)
    have hsame := congrArg Ticket.generation (x.event.ticket_offer timer)
    exact Nat.le_trans hle (Nat.le_of_eq hsame.symm)

/-- A call with time to spare, between two turns of its machines. -/
structure Steady (config : SessionConfig) (s : Session) : Prop where
  fit : s.machines.Fit config
  regular : Regular config s s.machines.clocks

theorem Steady.part (h : Steady config s) (hpart : Part op s.machines outs m)
    (hin : InTime s.now config.linkDelay.toNat outs) : Steady config (s.progressed m outs) :=
  ⟨fit_part hpart h.fit, h.regular.progressed (winds_part h.fit.made hpart).1 hin⟩

theorem Steady.delivers {t : Nat} {scheduler : Scheduler SessionEvent} (h : Steady config s)
    (hpop : s.scheduler.popDue t = some (event, scheduler))
    (hdelivers : Delivers s.machines event outs m)
    (hin : InTime scheduler.now config.linkDelay.toNat outs) :
    Steady config (Session.progressed { s with scheduler := scheduler } m outs) := by
  obtain ⟨-, hregular⟩ := h.regular.handed hpop
  exact ⟨fit_delivers hdelivers h.fit,
    hregular.progressed (winds_delivers h.fit.made hdelivers).1 hin⟩

/-- What every turn of an operation keeps of a call is kept by the operation. -/
theorem Steady.parts {P : Session → Prop} (hpart : ∀ s outs m, Steady config s →
      Part op s.machines outs m → InTime s.now config.linkDelay.toNat outs → P s →
      P (s.progressed m outs))
    (h : Steady config s) (hparts : Parts op s.machines outs m)
    (hin : InTime s.now config.linkDelay.toNat outs) (hP : P s) :
    Steady config (s.progressed m outs) ∧ P (s.progressed m outs) := by
  generalize hm : s.machines = m₀ at hparts
  induction hparts generalizing s with
  | none =>
    subst hm
    exact ⟨h, hP⟩
  | next hfirst _ ih =>
    subst hm
    obtain ⟨hin, hlater⟩ := inTime_append.mp hin
    rw [← progressed_progressed]
    exact ih (h.part hfirst hin) (by rwa [now_progressed]) (hpart _ _ _ h hfirst hin hP) rfl

theorem History.Unsaturated.tail {e : Happening} {h : History}
    (hspare : History.Unsaturated (e :: h)) : h.Unsaturated :=
  fun e he => hspare e (List.mem_cons_of_mem _ he)

theorem Stage.inTime_acted {h : History} (hs : Stage config h s)
    (hspare : History.Unsaturated (⟨s, .operation op⟩ :: h)) :
    InTime s.now config.linkDelay.toNat (op.outboxes s) := by
  have hin := hspare _ List.mem_cons_self
  rwa [hs.config_eq] at hin

theorem Stage.inTime_delivered {h : History} {t : Nat} {scheduler : Scheduler SessionEvent}
    (hs : Stage config h s) (hpop : s.scheduler.popDue t = some (event, scheduler))
    (hspare : History.Unsaturated (⟨s, .delivery event⟩ :: h)) :
    InTime scheduler.now config.linkDelay.toNat (s.machines.eventOutboxes event) := by
  have hin := hspare _ List.mem_cons_self
  have htime : Happening.time ⟨s, .delivery event⟩ = scheduler.now :=
    (Scheduler.now_popDue hpop).symm
  rwa [hs.config_eq, htime] at hin

theorem regular_create (callId : CallId) (callType : CallType) (now : Nat) :
    Regular config (Session.create callId callType config now)
      (Session.create callId callType config now).machines.clocks where
  config_eq := rfl
  made := made_create callId callType now
  punctual := .of_pending_eq_nil rfl
  prompt := fun y hy => by cases hy
  old := fun _ _ _ y hy => by cases hy

/-- A call in which nobody joins again after having left has time to spare as long as no deadline
fell on the last moment. -/
theorem Stage.steady {h : History} (hs : Stage config h s) (hactive : s.active = true)
    (hjoin : h.NoRejoin) (hspare : h.Unsaturated) : Steady config s := by
  refine ⟨hs.fit hactive, ?_⟩
  induction hs with
  | created callId callType now => exact regular_create callId callType now
  | @acted h s m op hs _ hparts ih =>
    have hbefore := ih hactive hjoin.2 hspare.tail
    exact hbefore.progressed (winds_parts hs.made hparts).1 (hs.inTime_acted hspare)
  | @joined h s ssrc priority originator a hs hrunning hadded ih =>
    have hbefore := ih hrunning hjoin.2 hspare.tail
    refine ⟨hbefore.config_eq, (Stage.joined hs hrunning hadded).made,
      ⟨hbefore.punctual.inOrder, hbefore.punctual.letters⟩, hbefore.prompt, ?_⟩
    intro o timer htimer y hy ticket hevent howns
    rw [machines, clocks_insert] at htimer
    split at htimer
    · next heq =>
      -- Nothing that waits comes from the party that has just joined.
      have howner : timer.owner = .participant ssrc :=
        heq ▸ (Stage.joined hs hrunning hadded).made.owner (o := o)
          (by rw [machines, clocks_insert, if_pos heq]; exact htimer)
      refine absurd ?_ (hs.fresh hrunning hadded hjoin y hy)
      simp [hevent, SessionEvent.source?, howns.1, howner]
    · rw [clocks_of_joined hadded] at htimer
      exact hbefore.old o timer htimer y hy ticket hevent howns
  | @delivered h s m t event scheduler hs hpop hdelivers ih =>
    obtain ⟨-, hregular⟩ := (ih hactive hjoin.2 hspare.tail).handed hpop
    exact hregular.progressed (winds_delivers hs.made hdelivers).1
      (hs.inTime_delivered hpop hspare)
  | @settled h s t hs hnone ih =>
    have hbefore := ih hactive hjoin hspare
    refine ⟨hbefore.config_eq, hbefore.made, punctual_settle t (r := ⟨s, []⟩) hbefore.punctual, ?_,
      hbefore.old⟩
    intro y hy
    have hlate := Scheduler.lt_due_of_popDue_eq_none hbefore.punctual.inOrder hnone y hy
    exact Nat.max_le.mpr ⟨hbefore.prompt y hy, Nat.le_of_lt hlate⟩
  | ended _ hdowned _ =>
    rw [hdowned.active] at hactive
    cases hactive

/-- No deadline falls on the last moment while the clock is far enough from it. -/
theorem Stage.unsaturated {h : History} (hs : Stage config h s)
    (hlink : s.now + config.linkDelay.toNat ≤ Time.last)
    (hdelays : ∀ o, ∀ make ∈ config.makes o, s.now + make.2.2 ≤ Time.last) : h.Unsaturated := by
  have hspare {now : Nat} {outs : List Outbox} (hlink : now + config.linkDelay.toNat ≤ Time.last)
      (hdelays : ∀ o, ∀ make ∈ config.makes o, now + make.2.2 ≤ Time.last)
      (hrightful : Rightful config outs) : InTime now config.linkDelay.toNat outs := by
    intro wish hwish
    obtain ⟨out, hout, hwish⟩ := List.mem_flatMap.mp hwish
    rcases List.mem_append.mp hwish with hwish | hwish
    · obtain ⟨armed, harmed, rfl⟩ := List.mem_map.mp hwish
      exact hdelays _ _ (hrightful armed (List.mem_flatMap.mpr ⟨out, hout, harmed⟩))
    · obtain ⟨e, -, rfl⟩ := List.mem_map.mp hwish
      exact hlink
  induction hs with
  | created => exact fun e he => by cases he
  | @acted h s m op hs _ hparts ih =>
    rw [now_progressed] at hlink hdelays
    refine List.forall_mem_cons.mpr ⟨?_, ih hlink hdelays⟩
    rw [hs.config_eq]
    exact hspare hlink hdelays (winds_parts hs.made hparts).2
  | joined hs _ _ ih =>
    refine List.forall_mem_cons.mpr ⟨fun wish hwish => ?_, ih hlink hdelays⟩
    simp [Happening.outboxes, Operation.outboxes] at hwish
  | @delivered h s m t event scheduler hs hpop hdelivers ih =>
    have hmoves := Scheduler.now_le_popDue hpop
    have htime : Happening.time ⟨s, .delivery event⟩ = scheduler.now :=
      (Scheduler.now_popDue hpop).symm
    rw [now_progressed] at hlink hdelays
    have hlink : scheduler.now + config.linkDelay.toNat ≤ Time.last := hlink
    have hearlier : ∀ n, scheduler.now + n ≤ Time.last → s.now + n ≤ Time.last := fun n hn =>
      Nat.le_trans (Nat.add_le_add_right hmoves n) hn
    refine List.forall_mem_cons.mpr ⟨?_, ih (hearlier _ hlink) fun o make hmake =>
      hearlier _ (hdelays o make hmake)⟩
    rw [hs.config_eq, htime]
    exact hspare hlink hdelays (winds_delivers hs.made hdelivers).2
  | @settled h s t _ _ ih =>
    have hearlier : ∀ n, max s.now t + n ≤ Time.last → s.now + n ≤ Time.last := fun n hn =>
      Nat.le_trans (Nat.add_le_add_right (Nat.le_max_left _ _) n) hn
    exact ih (hearlier _ hlink) fun o make hmake => hearlier _ (hdelays o make hmake)
  | ended _ hdowned ih =>
    rw [hdowned.now] at hlink hdelays
    exact ih hlink hdelays

end Session
end FloorControl
