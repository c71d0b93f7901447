import FloorControl.Proofs.CallSteps

/-!
# Delivery

The messages of a call are handed over in the order in which they were put into outboxes, each once
and each after the time that it is on its way. Only taking the call down loses messages: all that
are then still on their way.
-/

namespace FloorControl

namespace Scheduler

variable {ε : Type} {s : Scheduler ε} {f : ε → Bool} {delay : Nat}

def waiting (f : ε → Bool) (s : Scheduler ε) : List (Nat × ε) :=
  (s.pending.filter (f ·.event)).map fun x => (x.due, x.event)

/-- Events of a kind that all have the same delay come after all others of that kind. -/
theorem waiting_scheduleEach (wishes : List (Nat × ε)) (hordered : InOrder s.pending)
    (hlast : ∀ x ∈ s.pending, f x.event = true → x.due ≤ Time.after s.now delay)
    (hdelay : ∀ wish ∈ wishes, f wish.2 = true → wish.1 = delay) :
    (s.scheduleEach wishes).waiting f = s.waiting f ++
        (wishes.filter (f ·.2)).map (fun wish => (Time.after s.now wish.1, wish.2)) ∧
      ∀ x ∈ (s.scheduleEach wishes).pending, f x.event = true → x.due ≤ Time.after s.now delay := by
  induction wishes generalizing s with
  | nil => exact ⟨by simp [scheduleEach], hlast⟩
  | cons wish wishes ih =>
    have hwaiting : (s.schedule wish.1 wish.2).waiting f =
        s.waiting f ++
          ([wish].filter (f ·.2)).map fun wish => (Time.after s.now wish.1, wish.2) := by
      have hplaced := filter_place (f := fun x => f x.event)
        (x := ⟨Time.after s.now wish.1, s.seq + 1, wish.2⟩) hordered
      by_cases hkind : f wish.2 = true
      · rw [waiting, schedule, hplaced fun x hx hf => ?_]
        · simp [waiting, hkind]
        · rw [hdelay wish List.mem_cons_self hkind]
          exact hlast x hx hf
      · rw [waiting, schedule, filter_place_of_not (by simpa using hkind)]
        simp [waiting, hkind]
    have hlast' : ∀ x ∈ (s.schedule wish.1 wish.2).pending, f x.event = true →
        x.due ≤ Time.after s.now delay := by
      intro x hx hkind
      rcases (mem_place _ x _).mp hx with rfl | hx
      · rw [hdelay wish List.mem_cons_self hkind]
      · exact hlast x hx hkind
    obtain ⟨hrest, hlater⟩ := ih (s := s.schedule wish.1 wish.2) (inOrder_place hordered) hlast'
      fun wish hwish => hdelay wish (List.mem_cons_of_mem _ hwish)
    refine ⟨?_, hlater⟩
    refine hrest.trans ?_
    rw [hwaiting, now_schedule, List.append_assoc, ← List.map_append, ← List.filter_append,
      List.singleton_append]

end Scheduler

namespace Session

open Scheduler

def Happening.posts (e : Happening) : List Envelope := e.outboxes.flatMap (·.messages)

def Happening.letter? (e : Happening) : Option SessionEvent :=
  match e.what with
  | .operation _ => none
  | .delivery event => if event.isLetter then some event else none

namespace History

/-- The messages that were put into outboxes, with the times of that, the first one first. Nothing
is posted after the last event that is handed over (`messages_finishRelease`). -/
def posted : History → List (Nat × Envelope)
  | [] => []
  | e :: h => posted h ++ e.posts.map (e.time, ·)

def delivered : History → List (Nat × SessionEvent)
  | [] => []
  | e :: h => delivered h ++ e.letter?.toList.map (e.time, ·)

end History

theorem messages_finishRelease (t : Turn Arbitrator) :
    (Arbitrator.finishRelease t).out.messages = t.out.messages := by
  simp only [Arbitrator.finishRelease]
  split
  · exact Arbitrator.messages_moveTo _
  · rfl

def letters (s : Session) : List (Nat × SessionEvent) :=
  s.scheduler.waiting SessionEvent.isLetter

def arrivalAfter (delay : Nat) (sent : Nat × Envelope) : Nat × SessionEvent :=
  (Time.after sent.1 delay, sent.2.arrival)

variable {config : SessionConfig} {h : History} {s : Session} {r : Run} {phase : Phase}

private theorem punctual_wishes {delay : Nat} {outs : List Outbox} :
    ∀ wish ∈ outs.flatMap (wishes delay), wish.2.isLetter = true → wish.1 = delay := by
  intro wish hwish hletter
  obtain ⟨out, -, hwish⟩ := List.mem_flatMap.mp hwish
  rcases List.mem_append.mp hwish with hwish | hwish
  · obtain ⟨armed, -, rfl⟩ := List.mem_map.mp hwish
    cases hletter
  · obtain ⟨e, -, rfl⟩ := List.mem_map.mp hwish
    rfl

/-- The messages of a step are on their way behind all others. -/
theorem letters_progressed (m : Machines) (outs : List Outbox) (hpunctual : s.Punctual) :
    (s.progressed m outs).Punctual ∧
      (s.progressed m outs).letters = s.letters ++ (outs.flatMap (·.messages)).map fun e =>
        arrivalAfter s.config.linkDelay.toNat (s.now, e) := by
  obtain ⟨hwaiting, hlast⟩ := waiting_scheduleEach (f := SessionEvent.isLetter)
    (outs.flatMap (wishes s.config.linkDelay.toNat)) hpunctual.inOrder hpunctual.letters
    punctual_wishes
  refine ⟨⟨inOrder_scheduleEach _ hpunctual.inOrder, ?_⟩, ?_⟩
  · intro x hx hletter
    rw [now, progressed, now_scheduleEach]
    exact hlast x hx hletter
  · refine hwaiting.trans ?_
    rw [filter_wishes, List.map_map]
    rfl

theorem mail_progressed (m : Machines) (outs : List Outbox) (hpunctual : s.Punctual) :
    (s.progressed m outs).mail = s.mail ++ (outs.flatMap (·.messages)).map (·.arrival) := by
  have hmail (s : Session) : s.mail = s.letters.map (·.2) := by
    simp [mail, letters, waiting]
  rw [hmail, (letters_progressed m outs hpunctual).2, List.map_append, ← hmail, List.map_map]
  rfl

theorem Stage.punctual (hs : Stage config h s) : s.Punctual := by
  induction hs with
  | created => exact .of_pending_eq_nil rfl
  | acted _ _ _ _ ih => exact (letters_progressed _ _ ih).1
  | joined _ _ _ ih => exact ⟨ih.inOrder, ih.letters⟩
  | delivered _ hpop _ ih => exact (letters_progressed _ _ (mail_popDue ih hpop).1).1
  | @settled h s t _ _ ih => exact punctual_settle t (r := ⟨s, []⟩) ih
  | ended _ hdowned _ => exact .of_pending_eq_nil hdowned.pending

/-- What comes out of the scheduler next is the first message on its way, or no message. -/
private theorem letters_popDue {t : Nat} {event : SessionEvent} {scheduler : Scheduler SessionEvent}
    (hs : Stage config h s) (hclock : s.now ≤ Time.last)
    (hpop : s.scheduler.popDue t = some (event, scheduler)) :
    s.letters = (Happening.letter? ⟨s, .delivery event⟩).toList.map
        (Happening.time ⟨s, .delivery event⟩, ·) ++
      letters { s with scheduler := scheduler } := by
  obtain ⟨x, rest, hpending, -, rfl, rfl⟩ := popDue_eq_some hpop
  have hnow : s.scheduler.nextTime = x.due :=
    (now_popDue hpop).symm.trans (hs.timely.now_popDue hclock hpending hpop)
  simp only [letters, waiting, hpending, List.filter_cons, Happening.letter?, Happening.time, hnow]
  cases x.event.isLetter <;> rfl

/-- The messages put into outboxes were handed over, are on their way, or were lost with the
call. -/
theorem Stage.posted_eq (hs : Stage config h s) (hclock : s.now ≤ Time.last) :
    ∃ lost, h.posted.map (arrivalAfter config.linkDelay.toNat) = h.delivered ++ s.letters ++ lost ∧
      (s.active = true → lost = []) := by
  induction hs with
  | created => exact ⟨[], rfl, fun _ => rfl⟩
  | @acted h s m op hs _ _ ih =>
    rw [now_progressed] at hclock
    obtain ⟨lost, hposted, hlost⟩ := ih hclock
    have hstill : History.delivered (⟨s, .operation op⟩ :: h) = h.delivered := List.append_nil _
    rw [History.posted, List.map_append, hposted, hstill]
    cases hactive : s.active with
    | true =>
      obtain ⟨-, hletters⟩ := letters_progressed m (op.outboxes s) hs.punctual
      refine ⟨[], ?_, fun _ => rfl⟩
      rw [hlost hactive, hletters, hs.config_eq]
      simp only [List.append_assoc, List.append_nil, List.map_map]
      rfl
    | false =>
      have hnothing := op.outboxes_of_over hactive
      have hposts : Happening.posts ⟨s, .operation op⟩ = [] := congrArg (List.flatMap _) hnothing
      refine ⟨lost, ?_, by simp [progressed, hactive]⟩
      rw [hposts, hnothing]
      exact List.append_nil _
  | @joined h s ssrc priority originator a _ _ _ ih =>
    obtain ⟨lost, hposted, hlost⟩ := ih hclock
    have hposts : Happening.posts ⟨s, .operation (.join ssrc priority originator)⟩ = [] := by
      simp [Happening.posts, Happening.outboxes, Operation.outboxes]
    refine ⟨lost, ?_, hlost⟩
    rw [History.posted, hposts, List.map_nil, List.append_nil, hposted]
    exact congrArg (· ++ lost) (congrArg (· ++ s.letters) (List.append_nil _).symm)
  | @delivered h s m t event scheduler hs hpop _ ih =>
    rw [now_progressed] at hclock
    have hclock := Nat.le_trans (now_le_popDue hpop) hclock
    obtain ⟨lost, hposted, hlost⟩ := ih hclock
    have hnone := hlost (hs.active_of_popDue hpop)
    have hpunctual := (mail_popDue hs.punctual hpop).1
    obtain ⟨-, hletters⟩ := letters_progressed m (s.machines.eventOutboxes event) hpunctual
    refine ⟨[], ?_, fun _ => rfl⟩
    rw [History.posted, List.map_append, hposted, hnone, letters_popDue hs hclock hpop, hletters,
      hs.config_eq, List.append_nil, List.append_nil, History.delivered]
    simp only [List.append_assoc, List.map_map]
    rw [now, now_popDue hpop]
    rfl
  | @settled h s t _ _ ih => exact ih (Nat.le_trans (Nat.le_max_left _ _) hclock)
  | @ended h s s' hs hdowned ih =>
    rw [hdowned.now] at hclock
    obtain ⟨lost, hposted, -⟩ := ih hclock
    refine ⟨s.letters ++ lost, ?_, by simp [hdowned.active]⟩
    rw [hposted]
    simp [letters, waiting, hdowned.pending]

/-- Whatever happens in a call, its messages are handed over in the order in which they were put
into outboxes, each once: those that were put into outboxes are those that were handed over,
followed by those on their way, and, once the call is down, by those that were lost with it. The
next message that is handed over is the first that was put into an outbox, in a step before, and was
not handed over yet; it arrives when its time on the way is over, also if it is meant for a party
that has left and drops it. -/
theorem letters_delivered_in_order (hr : Reached config phase h r)
    (hclock : r.state.now ≤ Time.last) :
    (∃ lost, h.posted.map (arrivalAfter config.linkDelay.toNat) =
        h.delivered ++ r.state.letters ++ lost ∧
      (r.state.active = true → lost = []) ∧ (r.state.active = false → r.state.letters = [])) ∧
    ∀ t event scheduler, r.state.scheduler.popDue t = some (event, scheduler) →
      event.isLetter = true →
      (∃ sent, h.posted[h.delivered.length]? = some sent ∧ sent.2.arrival = event ∧
        scheduler.now = Time.after sent.1 config.linkDelay.toNat) ∧
      ∀ ssrc message, event = .toParticipant ssrc message →
        r.state.participants.get? ssrc = none →
        deliver event { r with state := { r.state with scheduler := scheduler } } =
          { r with state := { r.state with scheduler := scheduler } } := by
  have hs := hr.stage
  obtain ⟨lost, hposted, hlost⟩ := hs.posted_eq hclock
  refine ⟨⟨lost, hposted, hlost, fun hover => ?_⟩, fun t event scheduler hpop hletter => ⟨?_, ?_⟩⟩
  · simp [letters, waiting, hs.still hover]
  · have hfirst := letters_popDue hs hclock hpop
    simp only [Happening.letter?, hletter, if_true, Happening.time] at hfirst
    have hnext : (h.posted.map (arrivalAfter config.linkDelay.toNat))[h.delivered.length]? =
        some (r.state.scheduler.nextTime, event) := by
      rw [hposted, hfirst]
      simp
    rw [List.getElem?_map] at hnext
    obtain ⟨sent, hsent, harrives⟩ := Option.map_eq_some_iff.mp hnext
    simp only [arrivalAfter, Prod.mk.injEq] at harrives
    exact ⟨sent, hsent, harrives.2, by rw [now_popDue hpop, harrives.1]⟩
  · rintro ssrc message rfl hgone
    simp only [deliver, onParticipant, hgone]

def request : List Operation :=
  [.join 1 5 true, .join 2 5 false, .setUpAll, .advanceTo 10, .push 1, .advanceTo 20]

/-- The grant of the floor is on its way. It is the next message of all that were ever sent. -/
theorem letters_delivered_in_order_request :
    ∃ h r event scheduler,
      play? request ⟨Session.create 1 .basic { linkDelay := 10 } 0, []⟩ = some r ∧
      Reached { linkDelay := 10 } .resting h r ∧ r.state.now ≤ Time.last ∧
      r.state.scheduler.popDue 30 = some (event, scheduler) ∧ event.isLetter = true ∧
      ∃ sent, h.posted[h.delivered.length]? = some sent ∧ sent.2.arrival = event ∧
        scheduler.now = Time.after sent.1 10 := by
  have hplayed : ∃ r, play? request ⟨Session.create 1 .basic { linkDelay := 10 } 0, []⟩ = some r ∧
      (decide (r.state.now ≤ Time.last) &&
        (r.state.scheduler.popDue 30).any (·.1.isLetter)) = true :=
    (Option.any_eq_true _ _).mp (by decide +kernel)
  obtain ⟨r, hr, hcheck⟩ := hplayed
  rw [Bool.and_eq_true, decide_eq_true_eq] at hcheck
  obtain ⟨hclock, hnext⟩ := hcheck
  obtain ⟨⟨event, scheduler⟩, hpop, hletter⟩ := (Option.any_eq_true _ _).mp hnext
  obtain ⟨h, hreached, -⟩ := (Reached.created 1 .basic 0).play? hr
  exact ⟨h, r, event, scheduler, hr, hreached, hclock, hpop, hletter,
    ((letters_delivered_in_order hreached hclock).2 30 event scheduler hpop hletter).1⟩

end Session
end FloorControl
