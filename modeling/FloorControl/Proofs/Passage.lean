import FloorControl.Proofs.Punctuality

/-!
# One turn of a call

A call with time to spare goes on by turns, each of one machine, as part of an operation or because
something has come out of the scheduler. What such a turn does to whatever waits, to the messages on
their way and to the tickets of one timer, is said here, and what it is to one of the parties: its
own turn, that of another party, or the arbitrator's.
-/

namespace FloorControl.Session

open Arbitrator (Places Deed)

@[simp] def Occurrence.event? : Occurrence → Option SessionEvent
  | .operation _ => none
  | .delivery event => some event

/-- The call goes on by one turn of its machines, and no deadline falls on the last moment. -/
inductive Turns (config : SessionConfig) (s : Session) :
    Occurrence → List Outbox → Session → Prop where
  | part {op : Operation} {outs : List Outbox} {m : Machines} : Part op s.machines outs m →
      InTime s.now config.linkDelay.toNat outs →
      Turns config s (.operation op) outs (s.progressed m outs)
  | delivers {t : Nat} {event : SessionEvent} {scheduler : Scheduler SessionEvent}
      {outs : List Outbox} {m : Machines} : s.scheduler.popDue t = some (event, scheduler) →
      Delivers s.machines event outs m → InTime scheduler.now config.linkDelay.toNat outs →
      Turns config s (.delivery event) outs
        (Session.progressed { s with scheduler := scheduler } m outs)

structure Awaits (s : Session) (ticket : Ticket) (due : Nat) : Prop where
  waits : ∃ y ∈ s.scheduler.pending, y.event = .expiry ticket
  due_eq : ∀ y ∈ s.scheduler.pending, y.event = .expiry ticket → y.due = due

/-- How a turn leaves what waits in the scheduler. -/
structure Passage (config : SessionConfig) (s : Session) (event? : Option SessionEvent)
    (outs : List Outbox) (s' : Session) : Prop where
  letters : ∃ rest, s.letters = (Scene.arriving event?).map (s'.now, ·) ++ rest ∧
    s'.letters = rest ++ (outs.flatMap (·.messages)).map fun e =>
      (s'.now + config.linkDelay.toNat, e.arrival)
  first : ∀ y ∈ s.scheduler.pending, s'.now ≤ y.due
  due : ∀ event ∈ event?, ∃ y ∈ s.scheduler.pending, y.event = event ∧ y.due = s'.now
  keeps : ∀ y ∈ s.scheduler.pending, y ∈ s'.scheduler.pending ∨ event? = some y.event
  still : ∀ o, ∀ timer ∈ s.machines.clocks o, timer ∈ s'.machines.clocks o →
    ∀ y ∈ s'.scheduler.pending, y.event = .expiry timer.ticket → y ∈ s.scheduler.pending
  started : ∀ o, ∀ timer ∈ s.machines.clocks o, ∀ after ∈ s'.machines.clocks o,
    after.make = timer.make → timer.generation < after.generation → after.running = true →
    s'.Awaits after.ticket (s'.now + after.delay)

/-- What a turn is to one of the parties. -/
inductive Sees (x : Ssrc) (m : Machines) (what : Occurrence) (messages : List Envelope)
    (m' : Machines) : Prop where
  /-- The party takes a turn. -/
  | own {p : Participant} {i : Participant.Input} : m.participants.get? x = some p →
      m'.participants.get? x = some (p.handle i).machine → m'.arbitrator = m.arbitrator →
      messages = (p.handle i).out.messages → i ≠ .stopTimers →
      (∀ op, what = .operation op → op.Prompts x i) →
      (∀ event ∈ what.event?, event.input? x = some i) → Sees x m what messages m'
  /-- Another party takes a turn, or would have if it had not left. -/
  | other : m'.participants.get? x = m.participants.get? x → m'.arbitrator = m.arbitrator →
      (∀ e ∈ messages, ∃ y message, y ≠ x ∧ e = Participant.letterFrom y message ∧
        message.ssrc? = some y) →
      (∀ event ∈ what.event?, ∃ y i, y ≠ x ∧ event.input? y = some i) → Sees x m what messages m'
  /-- The arbitrator takes a turn, but not with a message. -/
  | acts {input : Arbitrator.Input} {p : Places} :
      m'.participants.get? x = m.participants.get? x → m.arbitrator.places.Adjusts input p →
      p.Orderly → Deed input p messages m'.arbitrator.places → input ≠ .leave x →
      input ≠ .beginRelease → input ≠ .finishRelease → (∀ message, input ≠ .receive message) →
      (∀ event ∈ what.event?, ∃ ticket, event = .expiry ticket ∧ ticket.owner = .arbitrator) →
      Sees x m what messages m'
  /-- The arbitrator gets a message. -/
  | hears (message : Message) : what = .delivery (.toArbitrator message) →
      m'.participants = m.participants →
      m'.arbitrator = (Arbitrator.receive message ⟨m.arbitrator, {}⟩).machine →
      messages = (Arbitrator.receive message ⟨m.arbitrator, {}⟩).out.messages →
      Sees x m what messages m'
  /-- The party is not in the call, or stops. -/
  | gone : (∀ p, m'.participants.get? x = some p → p.state = .startStop) → Sees x m what messages m'

variable {config : SessionConfig} {s s' : Session} {m m' : Machines} {what : Occurrence}
  {op : Operation} {event : SessionEvent} {outs : List Outbox}
  {before : Endpoint → List Timer} {x y : Ssrc} {p : Participant} {i : Participant.Input}

private theorem tickets_progressed {f : Timer → Timer}
    (h : Regular config s fun o => (before o).map f)
    (hwinds : Winds (fun o => (before o).map f) outs m)
    (hin : InTime s.now config.linkDelay.toNat outs) (hmake : ∀ timer, (f timer).make = timer.make)
    (hticket : ∀ timer, (f timer).ticket = timer.ticket) :
    (∀ o, ∀ timer ∈ before o, timer ∈ m.clocks o → ∀ y ∈ (s.progressed m outs).scheduler.pending,
      y.event = .expiry timer.ticket → y ∈ s.scheduler.pending) ∧
    ∀ o, ∀ timer ∈ before o, ∀ after ∈ m.clocks o, after.make = timer.make →
      timer.generation < after.generation → after.running = true →
      (s.progressed m outs).Awaits after.ticket (s.now + after.delay) := by
  have hsame (timer : Timer) : (f timer).generation = timer.generation :=
    congrArg Ticket.generation (hticket timer)
  constructor
  · intro o timer htimer hafter y hy hevent
    have hgoes := hwinds.goes_of_make h.made (List.mem_map_of_mem htimer) hafter (hmake timer).symm
    exact ticket_of_still hgoes (hsame timer).symm hy hevent
  · intro o timer htimer after hafter hsimilar hlater hruns
    have hgoes := hwinds.goes_of_make h.made (List.mem_map_of_mem htimer) hafter
      (hsimilar.trans (hmake timer).symm)
    obtain ⟨hwaits, hdue⟩ := h.ticket_of_started (m := m) (List.mem_map_of_mem htimer) hgoes
      (hsame timer ▸ hlater) hruns hin
    exact ⟨hwaits, hdue⟩

theorem Steady.passage (h : Steady config s) (hturn : Turns config s what outs s') :
    Passage config s what.event? outs s' := by
  cases hturn with
  | @part op _ m hpart hin =>
    have hregular : Regular config s fun o => (s.machines.clocks o).map id := by
      simpa using h.regular
    have hwinds : Winds (fun o => (s.machines.clocks o).map id) outs m := by
      simpa using (winds_part h.fit.made hpart).1
    obtain ⟨hstill, hstarted⟩ :=
      tickets_progressed hregular hwinds hin (fun _ => rfl) fun _ => rfl
    constructor
    · refine ⟨s.letters, rfl, ?_⟩
      rw [now_progressed]
      exact h.regular.letters_progressed m hin
    · rw [now_progressed]
      exact h.regular.prompt
    · simp
    · intro y hy
      exact .inl ((Scheduler.pending_scheduleEach _ s.scheduler).mem_iff.mpr
        (List.mem_append_left _ hy))
    · exact hstill
    · rw [now_progressed]
      exact hstarted
  | @delivers t event scheduler _ m hpop hdelivers hin =>
    obtain ⟨hhanded, hregular⟩ := h.regular.handed hpop
    obtain ⟨hstill, hstarted⟩ := tickets_progressed hregular
      (winds_delivers h.fit.made hdelivers).1 hin event.make_offer event.ticket_offer
    constructor
    · refine ⟨letters { s with scheduler := scheduler }, ?_, ?_⟩
      · rw [now_progressed]
        exact hhanded.letters
      · rw [now_progressed]
        exact hregular.letters_progressed m hin
    · rw [now_progressed]
      exact hhanded.first
    · rintro _ ⟨⟩
      rw [now_progressed]
      exact hhanded.due
    · intro y hy
      rcases hhanded.keeps y hy with rfl | hy
      · exact .inr rfl
      · exact .inl ((Scheduler.pending_scheduleEach _ scheduler).mem_iff.mpr
          (List.mem_append_left _ hy))
    · intro o timer htimer hafter y hy hevent
      exact hhanded.rest y (hstill o timer htimer hafter y hy hevent)
    · rw [now_progressed]
      exact hstarted

theorem Steady.turn (h : Steady config s) (hturn : Turns config s what outs s') :
    Steady config s' := by
  cases hturn with
  | part hpart hin => exact h.part hpart hin
  | delivers hpop hdelivers hin => exact h.delivers hpop hdelivers hin

namespace Passage

variable (h : Passage config s what.event? outs s')

include h

/-- Nothing that waits is due before the turn. -/
theorem now_le {letter : Nat × SessionEvent} (hletter : letter ∈ s.letters) :
    s'.now ≤ letter.1 := by
  obtain ⟨y, hy, rfl⟩ := List.mem_map.mp hletter
  exact h.first y (List.mem_filter.mp hy).1

theorem now_le_due {ticket : Ticket} {due : Nat} (hawaits : s.Awaits ticket due) :
    s'.now ≤ due := by
  obtain ⟨y, hy, hevent⟩ := hawaits.waits
  exact hawaits.due_eq y hy hevent ▸ h.first y hy

theorem now_eq_due {ticket : Ticket} {due : Nat} (hawaits : s.Awaits ticket due)
    (hwhat : what = .delivery (.expiry ticket)) : s'.now = due := by
  subst hwhat
  obtain ⟨y, hy, hevent, hdue⟩ := h.due _ rfl
  exact hdue.symm.trans (hawaits.due_eq y hy hevent)

/-- A message on its way arrives, or is still on its way. -/
theorem letter {letter : Nat × SessionEvent} (hletter : letter ∈ s.letters) :
    (∃ event, what = .delivery event ∧ letter = (s'.now, event)) ∨ letter ∈ s'.letters := by
  obtain ⟨rest, hletters, hafter⟩ := h.letters
  rw [hletters] at hletter
  rcases List.mem_append.mp hletter with hletter | hletter
  · left
    obtain ⟨event, hcomes, rfl⟩ := List.mem_map.mp hletter
    have hcomes := Option.mem_toList.mp (List.mem_filter.mp hcomes).1
    cases what with
    | operation => cases hcomes
    | delivery other => exact ⟨event, congrArg _ (Option.some.inj hcomes), rfl⟩
  · right
    rw [hafter]
    exact List.mem_append_left _ hletter

/-- What is on its way was so before, or is sent now. -/
theorem mem_letters {letter : Nat × SessionEvent} : letter ∈ s'.letters →
    letter ∈ s.letters ∨ ∃ e ∈ outs.flatMap (·.messages),
      letter = (s'.now + config.linkDelay.toNat, e.arrival) := by
  intro hletter
  obtain ⟨rest, hletters, hafter⟩ := h.letters
  rw [hafter] at hletter
  rcases List.mem_append.mp hletter with hletter | hletter
  · left
    rw [hletters]
    exact List.mem_append_right _ hletter
  · obtain ⟨e, he, rfl⟩ := List.mem_map.mp hletter
    exact .inr ⟨e, he, rfl⟩

theorem sent {e : Envelope} (he : e ∈ outs.flatMap (·.messages)) :
    (s'.now + config.linkDelay.toNat, e.arrival) ∈ s'.letters := by
  obtain ⟨rest, -, hafter⟩ := h.letters
  rw [hafter]
  exact List.mem_append_right _ (List.mem_map_of_mem he)

/-- A ticket goes on to wait as long as its timer is left alone and it does not come out. -/
theorem awaits {o : Endpoint} {timer : Timer} {due : Nat} (hawaits : s.Awaits timer.ticket due)
    (htimer : timer ∈ s.machines.clocks o) (hafter : timer ∈ s'.machines.clocks o)
    (hother : what ≠ .delivery (.expiry timer.ticket)) : s'.Awaits timer.ticket due := by
  constructor
  · obtain ⟨y, hy, hevent⟩ := hawaits.waits
    rcases h.keeps y hy with hy | hcomes
    · exact ⟨y, hy, hevent⟩
    · refine absurd ?_ hother
      cases what with
      | operation => cases hcomes
      | delivery event => rw [Option.some.inj hcomes, hevent]
  · intro y hy hevent
    exact hawaits.due_eq y (h.still o timer htimer hafter y hy hevent) hevent

end Passage

private theorem get?_of_turn (hget : m.participants.get? x = some p) :
    (m.participants.modify x fun _ => (p.handle i).machine).get? x = some (p.handle i).machine := by
  simp [Roster.get?_modify, hget]

private theorem sees_other (hfit : m.Fit config) (hne : x ≠ y)
    (hget : m.participants.get? y = some p) (hbegin : i ≠ .beginRelease) (outs : List Outbox)
    (houts : outs.flatMap (·.messages) = (p.handle i).out.messages)
    (hevent : ∀ event ∈ what.event?, event.input? y = some i) :
    Sees x m what (outs.flatMap (·.messages))
      { m with participants := m.participants.modify y fun _ => (p.handle i).machine } := by
  have hmember := hfit.member y p hget
  have hconduct := Participant.conduct_handle i hbegin hmember.waits.pending
  apply Sees.other
  · rw [Roster.get?_modify, if_neg hne]
  · rfl
  · intro e he
    rw [houts] at he
    obtain ⟨message, rfl, hssrc⟩ := hconduct.letters e he
    rw [hmember.ssrc] at hssrc ⊢
    exact ⟨y, message, hne.symm, rfl, hssrc⟩
  · exact fun event hcomes => ⟨y, i, hne.symm, hevent event hcomes⟩

private theorem sees_part (hfit : m.Fit config) (hpart : Part op m outs m') (x : Ssrc) :
    Sees x m (.operation op) (outs.flatMap (·.messages)) m' := by
  have hturn {y : Ssrc} {p : Participant} {i : Participant.Input} {outs : List Outbox}
      (hget : m.participants.get? y = some p) (hprompts : op.Prompts y i)
      (houts : outs.flatMap (·.messages) = (p.handle i).out.messages) :
      Sees x m (.operation op) (outs.flatMap (·.messages))
        { m with participants := m.participants.modify y fun _ => (p.handle i).machine } := by
    by_cases heq : x = y
    · subst heq
      refine .own hget (get?_of_turn hget) rfl houts hprompts.ne_stopTimers ?_ (by simp)
      rintro _ ⟨⟩
      exact hprompts
    · exact sees_other hfit heq hget hprompts.ne_beginRelease outs houts (by simp)
  cases hpart with
  | arbitrator hmachine hmessages _ hadmits =>
    rw [List.flatMap_singleton]
    obtain ⟨input, p, hinput, hadjusts, horderly, hdeed⟩ :=
      hadmits.exists_deed (hmachine ▸ hfit.sound) hmessages
    rw [hmachine] at hadjusts
    rcases hinput with ⟨ssrc, rfl⟩ | ⟨ssrc, rfl⟩
    · exact .acts rfl hadjusts horderly hdeed (by simp) (by simp) (by simp) (by simp)
        (by simp)
    · exact .acts rfl hadjusts horderly hdeed (by simp) (by simp) (by simp) (by simp)
        (by simp)
  | participant hget hprompts => exact hturn hget hprompts (List.flatMap_singleton _ _)
  | quiet hget hprompts hmessages => exact hturn hget hprompts hmessages.symm
  | @left y _ _ _ hleaves hmessages =>
    rw [List.flatMap_singleton, hmessages]
    obtain ⟨hadjusts, horderly, hdeed⟩ :=
      Arbitrator.exists_deed_of_clientRelease (t := ⟨m.arbitrator, {}⟩) hleaves hfit.sound rfl
    by_cases heq : x = y
    · subst heq
      apply Sees.gone
      intro p hget
      rw [Roster.get?_erase, if_pos rfl] at hget
      cases hget
    · refine .acts ?_ hadjusts horderly hdeed ?_ (by simp) (by simp) (by simp)
        (by simp)
      · rw [Roster.get?_erase, if_neg heq]
      · simpa using Ne.symm heq
  | closed _ hstopped =>
    apply Sees.gone
    intro p hget
    rw [hstopped] at hget
    obtain ⟨q, -, rfl⟩ := Option.map_eq_some_iff.mp hget
    simp [Participant.handle, Participant.beginRelease]

private theorem sees_delivers (hfit : m.Fit config) (hdelivers : Delivers m event outs m')
    (x : Ssrc) : Sees x m (.delivery event) (outs.flatMap (·.messages)) m' := by
  have hturn {y : Ssrc} {p : Participant} {i : Participant.Input}
      (hget : m.participants.get? y = some p) (hevent : event.input? y = some i)
      (hstop : i ≠ .stopTimers) (hbegin : i ≠ .beginRelease) :
      Sees x m (.delivery event) ([(p.handle i).out].flatMap (·.messages))
        { m with participants := m.participants.modify y fun _ => (p.handle i).machine } := by
    by_cases heq : x = y
    · subst heq
      refine .own hget (get?_of_turn hget) rfl (List.flatMap_singleton _ _) hstop (by simp) ?_
      rintro _ ⟨⟩
      exact hevent
    · apply sees_other hfit heq hget hbegin _ (List.flatMap_singleton _ _)
      rintro _ ⟨⟩
      exact hevent
  cases hdelivers with
  | @arbitratorTicket ticket howner =>
    rw [List.flatMap_singleton]
    have hdeed := Arbitrator.deed_expire ticket (t := ⟨m.arbitrator, {}⟩) hfit.sound hfit.roomy rfl
    refine .acts rfl (.nobody rfl) hfit.sound.toOrderly hdeed (by simp) (by simp) (by simp)
      (by simp) ?_
    rintro _ ⟨⟩
    exact ⟨ticket, rfl, howner⟩
  | @participantTicket ticket y p howner hget =>
    exact hturn (i := .expire ticket) hget (by simp [SessionEvent.input?, howner]) (by simp)
      (by simp)
  | arbitratorLetter message =>
    exact .hears message rfl rfl rfl (List.flatMap_singleton _ _)
  | participantLetter message hget =>
    exact hturn (i := .receive message) hget (by simp [SessionEvent.input?]) (by simp) (by simp)
  | @dropped _ y i hinput hget =>
    by_cases heq : x = y
    · subst heq
      apply Sees.gone
      intro p hp
      cases hget.symm.trans hp
    · refine .other rfl rfl (by simp) ?_
      rintro _ ⟨⟩
      exact ⟨y, i, Ne.symm heq, hinput⟩

theorem Steady.sees (h : Steady config s) (hturn : Turns config s what outs s') (x : Ssrc) :
    Sees x s.machines what (outs.flatMap (·.messages)) s'.machines := by
  cases hturn with
  | part hpart _ => exact sees_part h.fit hpart x
  | delivers _ hdelivers _ => exact sees_delivers h.fit hdelivers x

end FloorControl.Session
