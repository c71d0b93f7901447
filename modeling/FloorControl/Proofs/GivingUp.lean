import FloorControl.Proofs.Complaints
import FloorControl.Proofs.Passage
import FloorControl.Proofs.Pledge

/-!
# Parties that give up

A participant that waits for the arbitrator gives up when it has sent its message as often as it
may. Where the link is fast enough for that, it gives up only if the floor had not been opened when
its wait began: from then on it always has something to count on before its last timer runs out.
-/

namespace FloorControl

namespace Participant.Wait

variable {p : Participant} {w : Wait}

def span (config : ParticipantConfig) : Wait → Nat
  | .answer => config.t101.toNat
  | .confirmation => config.t100.toNat

/-- Whether the link is fast enough: before the participant gives up, a confirmation can come back,
and an answer even if the request has to be sent twice. -/
def Bears (config : SessionConfig) : Wait → Prop
  | .answer => config.participant.t101.toNat + 2 * config.linkDelay.toNat <
      config.participant.c101Limit.toNat * config.participant.t101.toNat
  | .confirmation => 2 * config.linkDelay.toNat <
      config.participant.c100Limit.toNat * config.participant.t100.toNat

instance (config : SessionConfig) (w : Wait) : Decidable (w.Bears config) := by
  cases w
  · exact inferInstanceAs (Decidable (_ < _))
  · exact inferInstanceAs (Decidable (_ < _))

theorem Bears.confirmed {config : SessionConfig} (h : w.Bears config) :
    2 * config.linkDelay.toNat < w.limit config.participant * w.span config.participant := by
  cases w with
  | answer => exact Nat.lt_of_le_of_lt (Nat.le_add_left _ _) h
  | confirmation => exact h

theorem Bears.limit_pos {config : SessionConfig} (h : w.Bears config) :
    0 < w.limit config.participant := by
  apply Nat.pos_of_ne_zero
  intro hzero
  have hconfirmed := h.confirmed
  rw [hzero, Nat.zero_mul] at hconfirmed
  exact absurd hconfirmed (Nat.not_lt_zero _)

/-- The timer runs as long as the participant waits. -/
theorem running_timer (hwaits : p.Waits) (hstate : p.state = w.state) :
    (w.timer p).running = true := by
  cases w with
  | answer => exact hwaits.asking.mpr hstate
  | confirmation => exact hwaits.returning.mpr hstate

end Participant.Wait

namespace Session

open Participant (Wait)

variable {config : SessionConfig} {h : History} {s s' : Session} {m : Machines}
  {what : Occurrence} {outs : List Outbox} {w : Wait} {x : Ssrc} {p : Participant} {start : Nat}
  {i : Participant.Input}

/-- The timers of the waits go by their names and run for their spans. -/
private theorem make_waits (hmade : Made config m.clocks)
    (hget : m.participants.get? x = some p) :
    p.t100.make = (.participant x, .t100, config.participant.t100.toNat) ∧
      p.t101.make = (.participant x, .t101, config.participant.t101.toNat) := by
  have hmake := hmade.participant hget
  simp only [Participant.timers, Participant.makes, List.map_cons, List.map_nil,
    List.cons.injEq] at hmake
  exact ⟨hmake.1, hmake.2.1⟩

private theorem named_of_made (hmade : Made config m.clocks)
    (hget : m.participants.get? x = some p) : Participant.Wait.Named p := by
  obtain ⟨h100, h101⟩ := make_waits hmade hget
  exact ⟨congrArg (·.2.1) h100, congrArg (·.2.1) h101⟩

private theorem owner_timer (hmade : Made config m.clocks)
    (hget : m.participants.get? x = some p) (w : Wait) :
    (w.timer p).owner = .participant x := by
  obtain ⟨h100, h101⟩ := make_waits hmade hget
  cases w with
  | answer => exact congrArg Prod.fst h101
  | confirmation => exact congrArg Prod.fst h100

private theorem delay_timer (hmade : Made config m.clocks)
    (hget : m.participants.get? x = some p) (w : Wait) :
    (w.timer p).delay = w.span config.participant := by
  obtain ⟨h100, h101⟩ := make_waits hmade hget
  cases w with
  | answer => exact congrArg (·.2.2) h101
  | confirmation => exact congrArg (·.2.2) h100

private theorem make_timer {m m' : Machines} {p p' : Participant} (hmade : Made config m.clocks)
    (hmade' : Made config m'.clocks) (hget : m.participants.get? x = some p)
    (hget' : m'.participants.get? x = some p') (w : Wait) :
    (w.timer p').make = (w.timer p).make := by
  obtain ⟨h100, h101⟩ := make_waits hmade hget
  obtain ⟨h100', h101'⟩ := make_waits hmade' hget'
  cases w with
  | answer => exact h101'.trans h101.symm
  | confirmation => exact h100'.trans h100.symm

private theorem mem_clocks_timer (hget : m.participants.get? x = some p) (w : Wait) :
    w.timer p ∈ m.clocks (.participant x) := by
  rw [clocks_of_get? hget]
  cases w <;> simp [Participant.timers, Wait.timer]

private theorem limit_counter (hfit : m.Fit config) (hget : m.participants.get? x = some p)
    (w : Wait) : (w.counter p).limit = w.limit config.participant := by
  have hmember := hfit.member x p hget
  cases w with
  | answer => exact hmember.c101
  | confirmation => exact hmember.c100

/-- A party that has waited since the given time: its timer runs, and until it would give up there
is something to count on. -/
structure Patient (config : SessionConfig) (w : Wait) (x : Ssrc) (p : Participant) (start : Nat)
    (s : Session) : Prop where
  count : (w.counter p).value < w.limit config.participant
  awaits : s.Awaits (w.timer p).ticket
    (start + ((w.counter p).value + 1) * w.span config.participant)
  pledge : Pledge x config.linkDelay.toNat
    (start + w.limit config.participant * w.span config.participant) (w.counter p).value
    s.arbitrator.places s.letters w

def Trusts (config : SessionConfig) (w : Wait) (x : Ssrc) (s : Session) : Prop :=
  ∀ p, s.participants.get? x = some p → p.state = w.state →
    s.arbitrator.places.Opened ∧ ∃ start, Patient config w x p start s

/-- Before its first timer has run out, a party has time for a request and its answer. -/
private theorem Patient.soon (hpatient : Patient config w x p start s) (hbears : w.Bears config)
    (hpassage : Passage config s what.event? outs s') :
    w = .answer → (w.counter p).value = 0 → s'.now + config.linkDelay.toNat <
      start + w.limit config.participant * w.span config.participant := by
  rintro rfl hcount
  have hnow := hpassage.now_le_due hpatient.awaits
  rw [hcount, Nat.zero_add, Nat.one_mul] at hnow
  change _ < _ + config.participant.c101Limit.toNat * config.participant.t101.toNat
  change _ ≤ _ + config.participant.t101.toNat at hnow
  change config.participant.t101.toNat + _ < _ at hbears
  omega

/-- Whatever comes to a party does not come to the arbitrator. -/
private theorem passing_own (hevent : ∀ event ∈ what.event?, event.input? x = some i)
    (hends : ∀ message, i = .receive message → w.endsBy message = false) :
    ∀ event ∈ what.event?, Passing w x event := by
  intro event hcomes
  have hinput := hevent event hcomes
  constructor
  · rintro message rfl
    cases hinput
  · rintro message rfl
    simp only [SessionEvent.input?, if_true, Option.some.injEq] at hinput
    exact hends message hinput.symm

private theorem eq_expiry_of_input? {event : SessionEvent} {ticket : Ticket}
    (hinput : event.input? x = some (.expire ticket)) : event = .expiry ticket := by
  cases event with
  | expiry other =>
    simp only [SessionEvent.input?, Option.ite_none_right_eq_some, Option.some.injEq,
      Participant.Input.expire.injEq] at hinput
    rw [hinput.2]
  | toArbitrator => cases hinput
  | toParticipant => simp [SessionEvent.input?] at hinput

private theorem keeping_acks {acks : List Envelope} {due : Nat}
    (hacks : ∀ e ∈ acks, e.message.kind = .ack) :
    Keeping x (acks.map fun e => (due, e.arrival)) := by
  intro letter hletter heq
  obtain ⟨e, he, rfl⟩ := List.mem_map.mp hletter
  have hkind := hacks e he
  simp only [Envelope.arrival] at heq
  split at heq
  · rw [SessionEvent.toArbitrator.inj heq] at hkind
    cases hkind
  · cases heq

section Turn

variable (hsteady : Steady config s) (hturn : Turns config s what outs s')
  (hbears : w.Bears config)

include hsteady hturn

/-- A party that is left alone waits on, with what it counts on now. -/
private theorem Patient.stays {p' : Participant} (hpatient : Patient config w x p start s)
    (hget : s.participants.get? x = some p) (hget' : s'.participants.get? x = some p')
    (htimer : w.timer p' = w.timer p) (hcounter : w.counter p' = w.counter p)
    (hother : what ≠ .delivery (.expiry (w.timer p).ticket))
    (hpledge : Pledge x config.linkDelay.toNat
      (start + w.limit config.participant * w.span config.participant) (w.counter p).value
      s'.arbitrator.places s'.letters w) : Patient config w x p' start s' := by
  have hafter : w.timer p ∈ s'.machines.clocks (.participant x) := by
    rw [← htimer]
    exact mem_clocks_timer (m := s'.machines) hget' w
  constructor
  · rw [hcounter]
    exact hpatient.count
  · rw [hcounter, htimer]
    exact (hsteady.passage hturn).awaits hpatient.awaits
      (mem_clocks_timer (m := s.machines) hget w) hafter hother
  · rw [hcounter]
    exact hpledge

/-- What comes to somebody else is not the ticket of a party. -/
private theorem ne_own_ticket (hget : s.participants.get? x = some p)
    (hevent : ∀ event ∈ what.event?, event.input? x = none) :
    what ≠ .delivery (.expiry (w.timer p).ticket) := by
  rintro rfl
  have hnone := hevent _ rfl
  have howner := owner_timer (m := s.machines) hsteady.fit.made hget w
  simp [SessionEvent.input?, Timer.ticket, howner] at hnone

private theorem Patient.other (hpatient : Patient config w x p start s)
    (hget : s.participants.get? x = some p) (hget' : s'.participants.get? x = some p)
    (harbitrator : s'.arbitrator = s.arbitrator)
    (hmessages : ∀ e ∈ outs.flatMap (·.messages), ∃ y message, y ≠ x ∧
      e = Participant.letterFrom y message ∧ message.ssrc? = some y)
    (hevent : ∀ event ∈ what.event?, ∃ y i, y ≠ x ∧ event.input? y = some i) :
    Patient config w x p start s' := by
  have hpasses : ∀ event ∈ what.event?, Passing w x event := by
    intro event hcomes
    obtain ⟨y, i, hne, hinput⟩ := hevent event hcomes
    constructor
    · rintro message rfl
      cases hinput
    · rintro message rfl
      simp [SessionEvent.input?, hne.symm] at hinput
  have hkeeping : Keeping x ((outs.flatMap (·.messages)).map fun e =>
      (s'.now + config.linkDelay.toNat, e.arrival)) := by
    intro letter hletter heq
    obtain ⟨e, he, rfl⟩ := List.mem_map.mp hletter
    obtain ⟨y, message, hne, rfl, hssrc⟩ := hmessages e he
    cases SessionEvent.toArbitrator.inj heq
    exact hne (Option.some.inj hssrc).symm
  obtain ⟨rest, hletters, hafter⟩ := (hsteady.passage hturn).letters
  apply hpatient.stays hsteady hturn hget hget' rfl rfl
  · apply ne_own_ticket hsteady hturn hget
    intro event hcomes
    obtain ⟨y, i, hne, hinput⟩ := hevent event hcomes
    by_contra hsome
    obtain ⟨j, hj⟩ := Option.ne_none_iff_exists'.mp hsome
    exact hne (event.input?_unique hinput hj)
  · rw [hafter, harbitrator]
    exact (hpatient.pledge.arrives hletters hpasses).append hkeeping

include hbears

private theorem Patient.acts {input : Arbitrator.Input} {q : Arbitrator.Places}
    (hpatient : Patient config w x p start s) (hget : s.participants.get? x = some p)
    (hget' : s'.participants.get? x = some p) (hadjusts : s.arbitrator.places.Adjusts input q)
    (hdeed : Arbitrator.Deed input q (outs.flatMap (·.messages)) s'.arbitrator.places)
    (hleave : input ≠ .leave x) (hbegin : input ≠ .beginRelease)
    (hreceive : ∀ message, input ≠ .receive message)
    (hevent : ∀ event ∈ what.event?, ∃ ticket, event = .expiry ticket ∧
      ticket.owner = .arbitrator) :
    Patient config w x p start s' := by
  have hpassage := hsteady.passage hturn
  have hknown : s.arbitrator.places.roster.contains x = true :=
    (hsteady.fit.known x).trans (Roster.contains_of_get? hget)
  have hparks : s.arbitrator.places.Parks x → s'.arbitrator.places.Parks x ∨
      Arbitrator.Replies .answer x (outs.flatMap (·.messages)) := fun hparks =>
    hdeed.parks (hadjusts.parks hleave hparks) (hadjusts.knows hleave hknown) (hreceive _) hbegin
  have hpasses : ∀ event ∈ what.event?, Passing w x event := by
    intro event hcomes
    obtain ⟨ticket, rfl, -⟩ := hevent event hcomes
    exact ⟨by simp, by simp⟩
  obtain ⟨rest, hletters, hafter⟩ := hpassage.letters
  have hnow : ∀ letter ∈ rest, s'.now ≤ letter.1 := fun letter hletter =>
    hpassage.now_le (hletters ▸ List.mem_append_right _ hletter)
  apply hpatient.stays hsteady hturn hget hget' rfl rfl
  · apply ne_own_ticket hsteady hturn hget
    intro event hcomes
    obtain ⟨ticket, rfl, howner⟩ := hevent event hcomes
    simp [SessionEvent.input?, howner]
  · rw [hafter]
    exact (hpatient.pledge.arrives hletters hpasses).acts hdeed.letters hparks hnow
      (hpatient.soon hbears hpassage)

private theorem Patient.hears {message : Message} (hpatient : Patient config w x p start s)
    (hopened : s.arbitrator.places.Opened) (hget : s.participants.get? x = some p)
    (hget' : s'.participants.get? x = some p)
    (hwhat : what = .delivery (.toArbitrator message))
    (harbitrator : s'.arbitrator = (Arbitrator.receive message ⟨s.arbitrator, {}⟩).machine)
    (hmessages : outs.flatMap (·.messages) =
      (Arbitrator.receive message ⟨s.arbitrator, {}⟩).out.messages) :
    Patient config w x p start s' := by
  subst hwhat
  have hpassage := hsteady.passage hturn
  have hknown : s.arbitrator.places.roster.contains x = true :=
    (hsteady.fit.known x).trans (Roster.contains_of_get? hget)
  have hattends := Arbitrator.attends_receive message (t := ⟨s.arbitrator, {}⟩)
    hsteady.fit.sound hsteady.fit.roomy rfl hopened hknown
  obtain ⟨rest, hletters, hafter⟩ := hpassage.letters
  have hnow : ∀ letter ∈ rest, s'.now ≤ letter.1 := fun letter hletter =>
    hpassage.now_le (hletters ▸ List.mem_append_right _ hletter)
  have hpledge := hpatient.pledge
  rw [hletters] at hpledge
  apply hpatient.stays hsteady hturn hget hget' rfl rfl (by simp)
  rw [hafter, harbitrator, hmessages]
  exact Pledge.hears hpledge hattends hnow (hpatient.soon hbears hpassage)

omit hbears in
/-- A party that waits on in its own turn, without having sent its message again. -/
private theorem Patient.rests (hpatient : Patient config w x p start s)
    (hget : s.participants.get? x = some p)
    (hget' : s'.participants.get? x = some (p.handle i).machine)
    (harbitrator : s'.arbitrator = s.arbitrator)
    (hmessages : outs.flatMap (·.messages) = (p.handle i).out.messages)
    (hevent : ∀ event ∈ what.event?, event.input? x = some i)
    (hstate : p.state = w.state) (htimer : w.timer (p.handle i).machine = w.timer p)
    (hcounter : w.counter (p.handle i).machine = w.counter p)
    (hacks : ∀ e ∈ (p.handle i).out.messages, e.message.kind = .ack)
    (hends : ∀ message, i = .receive message → w.endsBy message = false)
    (hrefuses : ∀ ticket, i = .expire ticket → (w.timer p).accepts ticket = false) :
    Patient config w x (p.handle i).machine start s' := by
  obtain ⟨rest, hletters, hafter⟩ := (hsteady.passage hturn).letters
  apply hpatient.stays hsteady hturn hget hget' htimer hcounter
  · rintro rfl
    have howner : (w.timer p).ticket.owner = .participant x :=
      owner_timer (m := s.machines) hsteady.fit.made hget w
    have hinput := hevent _ rfl
    rw [SessionEvent.input?, if_pos howner] at hinput
    have hruns := Wait.running_timer (hsteady.fit.member x p hget).waits hstate
    have haccepts : (w.timer p).accepts (w.timer p).ticket = true :=
      (Timer.accepts_iff _ _).mpr ⟨hruns, rfl⟩
    rw [hrefuses _ (Option.some.inj hinput).symm] at haccepts
    cases haccepts
  · rw [hafter, harbitrator, hmessages]
    exact (hpatient.pledge.arrives hletters (passing_own hevent hends)).append (keeping_acks hacks)

/-- A party that has sent its message again. -/
private theorem Patient.again {ticket : Ticket} {message : Message}
    (hpatient : Patient config w x p start s) (hget : s.participants.get? x = some p)
    (hget' : s'.participants.get? x = some (p.handle i).machine)
    (harbitrator : s'.arbitrator = s.arbitrator)
    (hmessages : outs.flatMap (·.messages) = (p.handle i).out.messages)
    (hwhat : what = .delivery (.expiry ticket))
    (haccepts : (w.timer p).accepts ticket = true)
    (harrives : (w.counter p).arrives = false)
    (hstate : (p.handle i).machine.state = w.state)
    (hlater : (w.timer p).generation < (w.timer (p.handle i).machine).generation)
    (hcounter : w.counter (p.handle i).machine = (w.counter p).increment)
    (hletter : (p.handle i).out.messages = [Participant.letterFrom p.ssrc message])
    (hcalls : w.calls p.ssrc message = true) :
    Patient config w x (p.handle i).machine start s' := by
  have hpassage := hsteady.passage hturn
  have hafter := hsteady.turn hturn
  have hticket := ((Timer.accepts_iff _ _).mp haccepts).2
  have hnow := hpassage.now_eq_due hpatient.awaits (hticket ▸ hwhat)
  have hssrc : p.ssrc = x := (hsteady.fit.member x p hget).ssrc
  have hlimit := limit_counter (m := s.machines) hsteady.fit hget w
  have hcount := hpatient.count
  have hnext : (w.counter p).value + 1 ≠ w.limit config.participant := by
    rw [← hlimit]
    simpa [Counter.arrives] using harrives
  have hvalue : ((w.counter p).increment).value = (w.counter p).value + 1 := by
    simp [Counter.increment, hlimit, hcount]
  constructor
  · rw [hcounter, hvalue]
    omega
  · have hruns := Wait.running_timer (hafter.fit.member x _ hget').waits hstate
    have hawaits := hpassage.started (.participant x) _ (mem_clocks_timer hget w) _
      (mem_clocks_timer hget' w) (make_timer hsteady.fit.made hafter.fit.made hget hget' w)
      hlater hruns
    rw [delay_timer (m := s'.machines) hafter.fit.made hget', hnow] at hawaits
    rwa [hcounter, hvalue, Nat.succ_mul, ← Nat.add_assoc]
  · obtain ⟨rest, hletters, hmail⟩ := hpassage.letters
    have hrest : Pledge x config.linkDelay.toNat
        (start + w.limit config.participant * w.span config.participant)
        (w.counter p).value s.arbitrator.places rest w := by
      apply hpatient.pledge.arrives hletters
      subst hwhat
      rintro _ ⟨⟩
      exact ⟨by simp, by simp⟩
    rw [hcounter, hvalue, hmail, harbitrator, hmessages, hletter]
    apply hrest.again (hssrc ▸ hcalls)
    rintro rfl hfirst
    rw [hfirst, Nat.zero_add, Nat.one_mul] at hnow
    change _ < _ + config.participant.c101Limit.toNat * config.participant.t101.toNat
    change _ = _ + config.participant.t101.toNat at hnow
    change config.participant.t101.toNat + _ < _ at hbears
    omega

/-- A party that has just begun to wait. -/
private theorem patient_begins {acks : List Envelope} {message : Message}
    (hget : s.participants.get? x = some p)
    (hget' : s'.participants.get? x = some (p.handle i).machine)
    (hmessages : outs.flatMap (·.messages) = (p.handle i).out.messages)
    (hstate : (p.handle i).machine.state = w.state)
    (hlater : (w.timer p).generation < (w.timer (p.handle i).machine).generation)
    (hcounter : (w.counter (p.handle i).machine).value = 0)
    (hletter : (p.handle i).out.messages = acks ++ [Participant.letterFrom p.ssrc message])
    (hcalls : w.calls p.ssrc message = true) :
    Patient config w x (p.handle i).machine s'.now s' := by
  have hpassage := hsteady.passage hturn
  have hafter := hsteady.turn hturn
  have hssrc : p.ssrc = x := (hsteady.fit.member x p hget).ssrc
  constructor
  · rw [hcounter]
    exact hbears.limit_pos
  · have hruns := Wait.running_timer (hafter.fit.member x _ hget').waits hstate
    have hawaits := hpassage.started (.participant x) _ (mem_clocks_timer hget w) _
      (mem_clocks_timer hget' w) (make_timer hsteady.fit.made hafter.fit.made hget hget' w)
      hlater hruns
    rw [delay_timer (m := s'.machines) hafter.fit.made hget'] at hawaits
    rwa [hcounter, Nat.zero_add, Nat.one_mul]
  · obtain ⟨rest, -, hmail⟩ := hpassage.letters
    have hconfirmed := hbears.confirmed
    rw [hcounter, hmail, hmessages, hletter, List.map_append, ← List.append_assoc]
    apply pledge_begins (hssrc ▸ hcalls)
    omega

/-- As long as the floor is open, a party that waits has something to count on. -/
theorem trusts_turn (htrusts : Trusts config w x s)
    (hopened : what ≠ .operation .release → s.arbitrator.places.Opened) :
    Trusts config w x s' := by
  intro p' hget' hstate'
  cases hsteady.sees hturn x with
  | @own p i hget hafter harbitrator hmessages hstop hprompts hevent =>
    cases hget'.symm.trans hafter
    have hongoing : what ≠ .operation .release := by
      rintro rfl
      cases hprompts _ rfl
    cases Wait.course_handle w i (hsteady.fit.member x p hget).waits
      (named_of_made hsteady.fit.made hget) hstop with
    | elsewhere hgone => exact absurd hstate' hgone
    | stays hstate _ htimer hcounter hacks hends hrefuses =>
      obtain ⟨hopened, start, hpatient⟩ := htrusts p hget hstate
      refine ⟨?_, start, hpatient.rests hsteady hturn hget hafter harbitrator hmessages hevent
        hstate htimer hcounter hacks hends hrefuses⟩
      exact (congrArg Arbitrator.places harbitrator) ▸ hopened
    | begins _ _ hlater hcounter hletter _ hcalls =>
      refine ⟨?_, s'.now, patient_begins hsteady hturn hbears hget hafter hmessages hstate' hlater
        hcounter hletter hcalls⟩
      exact (congrArg Arbitrator.places harbitrator) ▸ hopened hongoing
    | @again ticket message hinput hstate _ haccepts harrives hlater hcounter hletter hcalls =>
      obtain ⟨hopened, start, hpatient⟩ := htrusts p hget hstate
      subst hinput
      have hwhat : what = .delivery (.expiry ticket) := by
        cases what with
        | operation op => exact absurd rfl ((hprompts op rfl).ne_expire ticket)
        | delivery event => rw [eq_expiry_of_input? (hevent event rfl)]
      refine ⟨?_, start, hpatient.again hsteady hturn hbears hget hafter harbitrator hmessages
        hwhat haccepts harrives hstate' hlater hcounter hletter hcalls⟩
      exact (congrArg Arbitrator.places harbitrator) ▸ hopened
  | other hsame harbitrator hmessages hevent =>
    have hget : s.participants.get? x = some p' := hsame.symm.trans hget'
    obtain ⟨hopened, start, hpatient⟩ := htrusts p' hget hstate'
    refine ⟨?_, start, hpatient.other hsteady hturn hget hget' harbitrator hmessages hevent⟩
    exact (congrArg Arbitrator.places harbitrator) ▸ hopened
  | acts hsame hadjusts horderly hdeed hleave hbegin hfinish hreceive hevent =>
    have hget : s.participants.get? x = some p' := hsame.symm.trans hget'
    obtain ⟨hopened, start, hpatient⟩ := htrusts p' hget hstate'
    refine ⟨?_, start, hpatient.acts hsteady hturn hbears hget hget' hadjusts hdeed hleave hbegin
      hreceive hevent⟩
    exact hdeed.stays_opened horderly hbegin hfinish (hadjusts.opened hopened)
  | hears message hwhat hsame harbitrator hmessages =>
    have hget : s.participants.get? x = some p' := (congrArg (·.get? x) hsame).symm.trans hget'
    obtain ⟨hopened, start, hpatient⟩ := htrusts p' hget hstate'
    refine ⟨?_, start, hpatient.hears hsteady hturn hbears hopened hget hget' hwhat harbitrator
      hmessages⟩
    have hdeed := Arbitrator.deed_receive message (t := ⟨s.arbitrator, {}⟩) hsteady.fit.sound
      hsteady.fit.roomy rfl
    exact (congrArg Arbitrator.places harbitrator) ▸
      hdeed.stays_opened hsteady.fit.sound.toOrderly (by simp) (by simp) hopened
  | gone hgone =>
    rw [hgone p' hget'] at hstate'
    cases w <;> cases hstate'

end Turn

/-- Only the end of the call closes the floor. -/
theorem opened_part {op : Operation} {m' : Machines} (hfit : m.Fit config)
    (hpart : Part op m outs m') (hongoing : op ≠ .release)
    (hopened : m.arbitrator.places.Opened) : m'.arbitrator.places.Opened := by
  cases hpart with
  | arbitrator hmachine hmessages _ hadmits =>
    obtain ⟨input, q, hinput, hadjusts, horderly, hdeed⟩ :=
      hadmits.exists_deed (hmachine ▸ hfit.sound) hmessages
    rw [hmachine] at hadjusts
    apply hdeed.stays_opened horderly _ _ (hadjusts.opened hopened)
    all_goals rcases hinput with ⟨ssrc, rfl⟩ | ⟨ssrc, rfl⟩ <;> simp
  | participant | quiet => exact hopened
  | left _ hleaves =>
    obtain ⟨hadjusts, horderly, hdeed⟩ :=
      Arbitrator.exists_deed_of_clientRelease (t := ⟨m.arbitrator, {}⟩) hleaves hfit.sound rfl
    exact hdeed.stays_opened horderly (by simp) (by simp) (hadjusts.opened hopened)
  | closed hop => exact absurd hop hongoing

theorem trusts_parts {op : Operation} (hbears : w.Bears config) (hsteady : Steady config s)
    (hparts : Parts op s.machines outs m) (hin : InTime s.now config.linkDelay.toNat outs)
    (htrusts : Trusts config w x s) (hopened : s.arbitrator.places.Opened) :
    Trusts config w x (s.progressed m outs) := by
  have hkept := hsteady.parts
    (P := fun s => Trusts config w x s ∧ (op ≠ .release → s.arbitrator.places.Opened))
    (fun s outs m hsteady hpart hin hkept =>
      ⟨trusts_turn hsteady (.part hpart hin) hbears hkept.1
          fun hwhat => hkept.2 fun hop => hwhat (congrArg _ hop),
        fun hongoing => opened_part hsteady.fit hpart hongoing (hkept.2 hongoing)⟩)
    hparts hin ⟨htrusts, fun _ => hopened⟩
  exact hkept.2.1

/-- The happening by which the party came into the state that it has been in ever since. -/
def History.began (state : ParticipantState) (x : Ssrc) (h : History) : Option Happening :=
  h.find? fun e => (e.before.participants.get? x).map (·.state) ≠ some state

private theorem began_of_stay {e : Happening} (hget : e.before.participants.get? x = some p)
    (hstate : p.state = w.state) : History.began w.state x (e :: h) = h.began w.state x := by
  simp [History.began, hget, hstate]

private theorem began_of_enter {e : Happening}
    (hoff : ∀ p, e.before.participants.get? x = some p → p.state ≠ w.state) :
    History.began w.state x (e :: h) = some e := by
  apply List.find?_cons_of_pos
  simp only [ne_eq, decide_eq_true_eq, Option.map_eq_some_iff]
  rintro ⟨p, hget, hstate⟩
  exact hoff p hget hstate

/-- A party that has waited since the floor was open has something to count on. -/
theorem Stage.trusts (hs : Stage config h s) (hactive : s.active = true) (hjoin : h.NoRejoin)
    (hspare : h.Unsaturated) (hbears : w.Bears config) :
    ∀ p, s.participants.get? x = some p → p.state = w.state →
      ∃ b, h.began w.state x = some b ∧
        (b.before.arbitrator.places.Opened → Trusts config w x s) := by
  -- A wait goes on from the call before or begins with what has just happened to it.
  have hgoes {h : History} {s s' : Session} {what : Occurrence}
      (hbefore : ∀ p, s.participants.get? x = some p → p.state = w.state →
        ∃ b, h.began w.state x = some b ∧
          (b.before.arbitrator.places.Opened → Trusts config w x s))
      (hkeeps : Trusts config w x s → s.arbitrator.places.Opened → Trusts config w x s') :
      ∃ b, History.began w.state x (⟨s, what⟩ :: h) = some b ∧
        (b.before.arbitrator.places.Opened → Trusts config w x s') := by
    by_cases hwaits : ∃ p, s.participants.get? x = some p ∧ p.state = w.state
    · obtain ⟨p, hget, hstate⟩ := hwaits
      obtain ⟨b, hbegan, htrusts⟩ := hbefore p hget hstate
      refine ⟨b, (began_of_stay hget hstate).trans hbegan, fun hopened => ?_⟩
      exact hkeeps (htrusts hopened) (htrusts hopened p hget hstate).1
    · have hoff : ∀ p, s.participants.get? x = some p → p.state ≠ w.state :=
        fun p hget hstate => hwaits ⟨p, hget, hstate⟩
      refine ⟨⟨s, what⟩, began_of_enter hoff, hkeeps fun p hget hstate => ?_⟩
      exact absurd hstate (hoff p hget)
  induction hs with
  | created => exact fun p hget => by cases hget
  | @acted h s m op hs _ hparts ih =>
    intro p hget hstate
    have hsteady := hs.steady hactive hjoin.2 hspare.tail
    exact hgoes (ih hactive hjoin.2 hspare.tail)
      (trusts_parts hbears hsteady hparts (hs.inTime_acted hspare))
  | @joined h s y priority originator a hs hrunning hadded ih =>
    intro p hget hstate
    rw [Roster.get?_insert] at hget
    split at hget
    · cases hget
      cases w <;> cases hstate
    · next hne =>
      obtain ⟨b, hbegan, htrusts⟩ := ih hrunning hjoin.2 hspare.tail p hget hstate
      refine ⟨b, (began_of_stay hget hstate).trans hbegan, fun hopened q hq hwaits => ?_⟩
      obtain ⟨-, proxy, rfl⟩ := Arbitrator.exists_insert_of_addParticipant hadded
      rw [Roster.get?_insert, if_neg hne] at hq
      obtain ⟨hopened, start, hpatient⟩ := htrusts hopened q hq hwaits
      exact ⟨hopened, start, hpatient.count, ⟨hpatient.awaits.waits, hpatient.awaits.due_eq⟩,
        hpatient.pledge.of_parks id⟩
  | @delivered h s m t event scheduler hs hpop hdelivers ih =>
    intro p hget hstate
    have hsteady := hs.steady hactive hjoin.2 hspare.tail
    have hturn : Turns config s _ _ _ :=
      .delivers hpop hdelivers (hs.inTime_delivered hpop hspare)
    exact hgoes (ih hactive hjoin.2 hspare.tail) fun htrusts hopened =>
      trusts_turn hsteady hturn hbears htrusts fun _ => hopened
  | @settled h s t _ _ ih =>
    intro p hget hstate
    obtain ⟨b, hbegan, htrusts⟩ := ih hactive hjoin hspare p hget hstate
    refine ⟨b, hbegan, fun hopened q hq hwaits => ?_⟩
    obtain ⟨hopened, start, hpatient⟩ := htrusts hopened q hq hwaits
    exact ⟨hopened, start, hpatient.count, ⟨hpatient.awaits.waits, hpatient.awaits.due_eq⟩,
      hpatient.pledge⟩
  | ended _ hdowned _ =>
    rw [hdowned.active] at hactive
    cases hactive

def Happening.GivesUp (w : Wait) (x : Ssrc) (call : CallId) (e : Happening) : Prop :=
  ∃ out ∈ e.outboxes, .failure call x w.failure ∈ out.events

/-- A party that has something to count on does not give up. -/
private theorem Patient.not_exhausted {now : Nat} (hpatient : Patient config w x p start s)
    (hbears : w.Bears config) (hnow : ∀ letter ∈ s.letters, now ≤ letter.1)
    (hdue : now = start + ((w.counter p).value + 1) * w.span config.participant) :
    (w.counter p).value + 1 ≠ w.limit config.participant := by
  intro hlast
  rw [hlast] at hdue
  apply Nat.lt_irrefl now
  have hbefore := hpatient.pledge.now_lt hnow
  rw [← hdue] at hbefore
  apply hbefore
  rintro rfl hfirst
  rw [hfirst, Nat.zero_add] at hlast
  have hspare : config.participant.t101.toNat + 2 * config.linkDelay.toNat <
      config.participant.c101Limit.toNat * config.participant.t101.toNat := hbears
  have hsingle : config.participant.c101Limit.toNat = 1 := hlast.symm
  rw [hsingle] at hspare
  omega

private theorem of_exhausts {ticket : Ticket} (h : p.Exhausts ticket w.failure) :
    (w.timer p).accepts ticket = true ∧ p.state = w.state ∧ (w.counter p).arrives = true := by
  cases w with
  | answer => exact h
  | confirmation => exact h

/-- If the party has given up, then the floor had not been opened when its wait began. -/
def Excused (w : Wait) (x : Ssrc) (call : CallId) (e : Happening) (earlier : History) : Prop :=
  e.GivesUp w x call →
    ∃ b, earlier.began w.state x = some b ∧ ¬ b.before.arbitrator.places.Opened

/-- What has happened is the last happening or an earlier one. -/
private theorem forall_splits_cons {P : Happening → History → Prop} {last : Happening}
    (hlast : P last h) (hbefore : ∀ later e earlier, h = later ++ e :: earlier → P e earlier) :
    ∀ later e earlier, last :: h = later ++ e :: earlier → P e earlier := by
  intro later e earlier heq
  cases later with
  | nil =>
    cases heq
    exact hlast
  | cons first later =>
    cases heq
    exact hbefore later e earlier rfl

theorem Stage.excused (hs : Stage config h s) (hjoin : h.NoRejoin) (hspare : h.Unsaturated)
    (hbears : w.Bears config) {call : CallId} :
    ∀ later e earlier, h = later ++ e :: earlier → Excused w x call e earlier := by
  have hcalm {h : History} {s : Session} (op : Operation) (hs : Stage config h s) :
      Excused w x call ⟨s, .operation op⟩ h := by
    rintro ⟨out, hout, hfailure⟩
    cases (op.calm hs.cause out hout).events _ hfailure
  induction hs with
  | created => exact fun later e earlier heq => by simp at heq
  | acted op hs _ _ ih => exact forall_splits_cons (hcalm op hs) (ih hjoin.2 hspare.tail)
  | joined hs _ _ ih => exact forall_splits_cons (hcalm _ hs) (ih hjoin.2 hspare.tail)
  | @delivered h s m t event scheduler hs hpop hdelivers ih =>
    refine forall_splits_cons ?_ (ih hjoin.2 hspare.tail)
    rintro ⟨out, hout, hfailure⟩
    have hactive := hs.active_of_popDue hpop
    have hsteady := hs.steady hactive hjoin.2 hspare.tail
    obtain ⟨ticket, y, p, rfl, hget, rfl, hexhausts⟩ :=
      exhausts_of_delivers hdelivers hs.cause (by cases w <;> simp [Wait.failure]) hout hfailure
    obtain ⟨haccepts, hstate, harrives⟩ := of_exhausts hexhausts
    obtain rfl : p.ssrc = y := (hsteady.fit.member y p hget).ssrc
    obtain ⟨b, hbegan, htrusts⟩ := hs.trusts hactive hjoin.2 hspare.tail hbears p hget hstate
    refine ⟨b, hbegan, fun hopened => ?_⟩
    obtain ⟨-, start, hpatient⟩ := htrusts hopened p hget hstate
    have hturn : Turns config s _ _ _ :=
      .delivers hpop hdelivers (hs.inTime_delivered hpop hspare)
    have hpassage := hsteady.passage hturn
    have hticket := ((Timer.accepts_iff _ _).mp haccepts).2
    have hdue := hpassage.now_eq_due hpatient.awaits (congrArg _ (congrArg _ hticket))
    have hlast : (w.counter p).value + 1 = w.limit config.participant := by
      rw [← limit_counter hsteady.fit hget w]
      simpa [Counter.arrives] using harrives
    exact hpatient.not_exhausted hbears (fun letter => hpassage.now_le) hdue hlast
  | settled _ _ ih => exact ih hjoin hspare
  | ended _ _ ih => exact ih hjoin hspare

/-- Where the link is fast enough, a party never gives up on a request or a release if the floor was
open when it began to wait, and whenever the observers are told that it has given up, it has. -/
theorem gives_up_only_if_unopened {phase : Phase} {r : Run} (hr : Reached config phase h r)
    (hjoin : h.NoRejoin) (hspare : h.Unsaturated) (w : Wait) (hbears : w.Bears config) (x : Ssrc)
    (call : CallId) :
    (∀ entry ∈ r.log, entry.event = .failure call x w.failure →
      ∃ e ∈ h, e.time = entry.time ∧ e.GivesUp w x call) ∧
    ∀ (later : History) (e : Happening) (earlier : History), h = later ++ e :: earlier →
      e.GivesUp w x call → ∃ b, earlier.began w.state x = some b ∧
        b.before.arbitrator.state ∉ [.idle, .taken, .pendingRevoke] := by
  constructor
  · intro entry hentry hfailure
    rcases hr.told entry hentry with ⟨e, he, htime, out, hout, htold⟩ | ⟨_, hevent⟩ |
      ⟨_, _, _, _, hevent⟩
    · refine ⟨e, he, htime.symm, out, hout, ?_⟩
      rcases htold with hevent | ⟨letter, -, hsent⟩
      · rwa [hfailure] at hevent
      · rw [hfailure] at hsent
        cases hsent
    · rw [hfailure] at hevent
      cases hevent
    · rw [hfailure] at hevent
      cases hevent
  · intro later e earlier heq hgives
    obtain ⟨b, hbegan, hclosed⟩ :=
      hr.stage.excused hjoin hspare hbears later e earlier heq hgives
    refine ⟨b, hbegan, fun hstate => hclosed ?_⟩
    simp only [List.mem_cons, List.not_mem_nil, or_false] at hstate
    rcases hstate with hstate | hstate | hstate
    · exact .inl hstate
    · exact .inr (by rw [Arbitrator.places, hstate]; rfl)
    · exact .inr (by rw [Arbitrator.places, hstate]; rfl)

/-- A link so slow that a preemptor, which is told its place when it asks for the second time, has
asked for the third time before it hears of that. -/
def slow : SessionConfig where
  linkDelay := 39

theorem gives_up_only_if_unopened_slow :
    ∃ h r, Reached slow .resting h r ∧ h.NoRejoin ∧ h.Unsaturated ∧
      (r.state.participants.get? 2).map (fun p => (p.state, p.c101.value)) = some (.queued, 2) ∧
      ∀ w : Wait, w.Bears slow ∧
        (∀ entry ∈ r.log, entry.event = .failure 1 2 w.failure →
          ∃ e ∈ h, e.time = entry.time ∧ e.GivesUp w 2 1) ∧
        ∀ (later : History) (e : Happening) (earlier : History), h = later ++ e :: earlier →
          e.GivesUp w 2 1 → ∃ b, earlier.began w.state 2 = some b ∧
            b.before.arbitrator.state ∉ [.idle, .taken, .pendingRevoke] := by
  have hplayed : ∃ r, play? [.join 1 5 true, .join 2 5 false, .setUpAll, .push 1, .advanceTo 200,
      .setIndicator 2 (some .emergency), .push 2, .advanceTo 400]
        ⟨Session.create 1 .basic slow 0, []⟩ = some r ∧
      (r.state.now = 400 && (r.state.participants.get? 2).map (fun p => (p.state, p.c101.value)) =
        some (.queued, 2)) = true :=
    (Option.any_eq_true _ _).mp (by decide +kernel)
  obtain ⟨r, hr, hcheck⟩ := hplayed
  simp only [Bool.and_eq_true, decide_eq_true_eq] at hcheck
  obtain ⟨hnow, hasked⟩ := hcheck
  obtain ⟨h, hreached, hjoin, -⟩ := Reached.of_play? hr (by simp) (by simp)
  have hspare : h.Unsaturated := by
    apply hreached.stage.unsaturated
    · rw [hnow]
      decide
    · rw [hnow]
      intro o
      cases o <;> simp [SessionConfig.makes, Arbitrator.makes, Participant.makes, slow, Time.last,
        UInt64.size]
  have hbears (w : Wait) : w.Bears slow := by
    cases w <;> decide
  exact ⟨h, r, hreached, hjoin, hspare, hasked, fun w =>
    ⟨hbears w, gives_up_only_if_unopened hreached hjoin hspare w (hbears w) 2 1⟩⟩

end Session
end FloorControl
