import FloorControl.Proofs.CallSteps

/-!
# The timers of a call

Every end of a call has its timers, which keep their names and delays for good. In a step the timers
of each end are stopped and started, and every ticket that is drawn belongs to the end whose timer
was started.
-/

namespace FloorControl

def SessionConfig.makes (config : SessionConfig) : Endpoint → List (Endpoint × TimerId × Nat)
  | .arbitrator => Arbitrator.makes config.arbitrator
  | .participant ssrc => Participant.makes ssrc config.participant

theorem SessionConfig.distinct_makes (config : SessionConfig) (o : Endpoint) :
    ((config.makes o).map (·.2.1)).Nodup := by
  cases o with
  | arbitrator => simp [makes, Arbitrator.makes]
  | participant ssrc => simp [makes, Participant.makes]

theorem SessionConfig.owner_of_mem_makes {config : SessionConfig} {o : Endpoint}
    {make : Endpoint × TimerId × Nat} (h : make ∈ config.makes o) : make.1 = o := by
  cases o with
  | arbitrator =>
    simp only [makes, Arbitrator.makes, List.mem_map] at h
    obtain ⟨_, -, rfl⟩ := h
    rfl
  | participant ssrc =>
    simp only [makes, Participant.makes, List.mem_map] at h
    obtain ⟨_, -, rfl⟩ := h
    rfl

def drawnBy (o : Endpoint) (outs : List Outbox) : List Armed :=
  (outs.flatMap (·.timers)).filter (·.ticket.owner = o)

def SessionEvent.offer : SessionEvent → Timer → Timer
  | .expiry ticket => Timer.offer ticket
  | .toArbitrator _ | .toParticipant .. => id

@[simp] theorem SessionEvent.ticket_offer (event : SessionEvent) (t : Timer) :
    (event.offer t).ticket = t.ticket := by
  cases event with
  | expiry ticket => exact Timer.ticket_offer ticket t
  | toArbitrator | toParticipant => rfl

/-- A timer that still runs has refused what it was offered. -/
theorem SessionEvent.offer_of_running {event : SessionEvent} {t : Timer}
    (h : (event.offer t).running = true) : event.offer t = t ∧ event ≠ .expiry t.ticket := by
  cases event with
  | expiry ticket =>
    cases haccepts : t.accepts ticket with
    | true =>
      rw [offer, Timer.offer_of_accepts haccepts] at h
      cases h
    | false =>
      have hsame : t.offer ticket = t := Timer.offer_of_not_accepts haccepts
      refine ⟨hsame, fun heq => ?_⟩
      cases heq
      rw [offer, hsame] at h
      simp [Timer.accepts, h] at haccepts
  | toArbitrator | toParticipant => exact ⟨rfl, by simp⟩

@[simp] theorem SessionEvent.make_offer (event : SessionEvent) (t : Timer) :
    (event.offer t).make = t.make := by
  cases event with
  | expiry ticket => exact Timer.make_offer ticket t
  | toArbitrator | toParticipant => rfl

namespace Session

open Winding

variable {config : SessionConfig} {m m' m'' : Machines} {outs outs' : List Outbox}
  {before : Endpoint → List Timer} {o : Endpoint}

/-- The timers of one end of a call; a party that is not in the call has none. -/
def Machines.clocks (m : Machines) : Endpoint → List Timer
  | .arbitrator => m.arbitrator.timers
  | .participant ssrc => ((m.participants.get? ssrc).map (·.timers)).getD []

def Made (config : SessionConfig) (before : Endpoint → List Timer) : Prop :=
  ∀ o, before o = [] ∨ (before o).map Timer.make = config.makes o

/-- The timers go from one state to another by turns in which the tickets of the outboxes are
drawn, except for those of parties that are not in the call afterwards. -/
def Winds (before : Endpoint → List Timer) (outs : List Outbox) (m : Machines) : Prop :=
  ∀ o, m.clocks o = [] ∨ Acts ⟨before o, []⟩ ⟨m.clocks o, drawnBy o outs⟩

/-- Every ticket belongs to the end of the call that has such a timer, and is drawn for its
delay. -/
def Rightful (config : SessionConfig) (outs : List Outbox) : Prop :=
  ∀ armed ∈ outs.flatMap (·.timers),
    (armed.ticket.owner, armed.ticket.id, armed.delay) ∈ config.makes armed.ticket.owner

theorem Made.distinct (h : Made config before) (o : Endpoint) : Distinct (before o) := by
  rcases h o with hnone | hmake
  · simp [hnone, Distinct]
  · exact .of_map_make hmake (config.distinct_makes o)

theorem Made.owner (h : Made config before) {timer : Timer} (ht : timer ∈ before o) :
    timer.owner = o := by
  rcases h o with hnone | hmake
  · rw [hnone] at ht
    cases ht
  · exact SessionConfig.owner_of_mem_makes (hmake ▸ List.mem_map_of_mem (f := Timer.make) ht)

theorem Made.offered (h : Made config before) (event : SessionEvent) :
    Made config fun o => (before o).map event.offer := by
  intro o
  rcases h o with hnone | hmake
  · exact .inl (by simp only [hnone, List.map_nil])
  · refine .inr ?_
    rw [List.map_map, ← hmake]
    exact List.map_congr_left fun t _ => event.make_offer t

theorem Made.winds (h : Made config before) (hwinds : Winds before outs m) :
    Made config m.clocks := by
  intro o
  rcases hwinds o with hnone | hacts
  · exact .inl hnone
  · have hsame := hacts.map_make
    rcases h o with hnone | hmake
    · refine .inl ?_
      rw [hnone] at hsame
      exact List.map_eq_nil_iff.mp hsame
    · exact .inr (hsame.trans hmake)

/-- How each timer goes through a step. -/
theorem Winds.goes (hmade : Made config before) (h : Winds before outs m) {after : Timer}
    (hafter : after ∈ m.clocks o) :
    ∃ timer ∈ before o, timer.Goes (outs.flatMap (·.timers)) after := by
  rcases h o with hnone | hacts
  · rw [hnone] at hafter
    cases hafter
  · obtain ⟨i, hi⟩ := List.getElem?_of_mem hafter
    obtain ⟨timer, htimer, hgoes⟩ := hacts.goes (hmade.distinct o) hi
    have htimer := List.mem_of_getElem? htimer
    refine ⟨timer, htimer, hgoes.of_filter fun armed _ howns => ?_⟩
    simpa using howns.1.trans (hmade.owner htimer)

/-- The timers of one end are told apart by what they are made as. -/
theorem Made.eq_of_make (hmade : Made config before) {timer other : Timer}
    (htimer : timer ∈ before o) (hother : other ∈ before o) (hmake : timer.make = other.make) :
    timer = other := by
  obtain ⟨i, hi⟩ := List.getElem?_of_mem htimer
  obtain ⟨j, hj⟩ := List.getElem?_of_mem hother
  by_cases hij : i = j
  · subst hij
    exact Option.some.inj (hi.symm.trans hj)
  · exact absurd (congrArg (·.2.1) hmake) ((hmade.distinct o).id_ne hi hj hij)

/-- How a given timer goes through a step. -/
theorem Winds.goes_of_make (hmade : Made config before) (h : Winds before outs m)
    {timer after : Timer} (htimer : timer ∈ before o) (hafter : after ∈ m.clocks o)
    (hmake : after.make = timer.make) : timer.Goes (outs.flatMap (·.timers)) after := by
  obtain ⟨origin, horigin, hgoes⟩ := h.goes hmade hafter
  rwa [hmade.eq_of_make htimer horigin (hmake.symm.trans hgoes.make)]

theorem drawnBy_append (o : Endpoint) (outs outs' : List Outbox) :
    drawnBy o (outs ++ outs') = drawnBy o outs ++ drawnBy o outs' := by
  rw [drawnBy, List.flatMap_append, List.filter_append]
  rfl

theorem Winds.refl (m : Machines) : Winds m.clocks [] m := fun _ => .inr .refl

theorem Winds.trans (first : Winds before outs m) (second : Winds m.clocks outs' m') :
    Winds before (outs ++ outs') m' := by
  intro o
  rcases second o with hnone | hacts
  · exact .inl hnone
  · rcases first o with hnone | hearlier
    · have hsame := hacts.map_make
      rw [hnone] at hsame
      exact .inl (List.map_eq_nil_iff.mp hsame)
    · rw [drawnBy_append]
      exact .inr (hearlier.trans (hacts.prepend _))

/-- One end of a call draws its own tickets only. -/
theorem Made.of_mem_drawn (hmade : Made config before) {after : List Timer}
    {drawn : List Armed} (hacts : Acts ⟨before o, []⟩ ⟨after, drawn⟩) {armed : Armed}
    (harmed : armed ∈ drawn) : armed.ticket.owner = o ∧
      (armed.ticket.owner, armed.ticket.id, armed.delay) ∈ config.makes o := by
  rcases hacts.of_mem_drawn harmed with hnone | ⟨timer, htimer, ⟨howner, hid⟩, hdelay⟩
  · cases hnone
  · refine ⟨howner.trans (hmade.owner htimer), ?_⟩
    rcases hmade o with hnone | hmake
    · simp only [hnone, List.not_mem_nil] at htimer
    · rw [← hmake, howner, hid, hdelay]
      exact List.mem_map_of_mem (f := Timer.make) htimer

/-- One end of a call has taken a turn, and the others have drawn no ticket. -/
theorem winds_of_acts (hmade : Made config before) {drawn : List Armed}
    (hacts : Acts ⟨before o, []⟩ ⟨m.clocks o, drawn⟩)
    (hothers : ∀ other, other ≠ o →
      m.clocks other = [] ∨ Acts ⟨before other, []⟩ ⟨m.clocks other, []⟩)
    (hdrawn : outs.flatMap (·.timers) = drawn) : Winds before outs m ∧ Rightful config outs := by
  refine ⟨fun other => ?_, fun armed harmed => ?_⟩
  · by_cases heq : other = o
    · subst heq
      refine .inr ?_
      rw [drawnBy, hdrawn, List.filter_eq_self.mpr fun armed harmed => by
        simpa using (hmade.of_mem_drawn hacts harmed).1]
      exact hacts
    · rw [drawnBy, hdrawn, List.filter_eq_nil_iff.mpr fun armed harmed => by
        simpa [(hmade.of_mem_drawn hacts harmed).1] using Ne.symm heq]
      exact hothers other heq
  · rw [hdrawn] at harmed
    obtain ⟨howner, hmake⟩ := hmade.of_mem_drawn hacts harmed
    rwa [howner] at hmake ⊢

theorem clocks_of_get? {ssrc : Ssrc} {p : Participant} (h : m.participants.get? ssrc = some p) :
    m.clocks (.participant ssrc) = p.timers := by
  simp [Machines.clocks, h]

theorem clocks_of_get?_eq_none {ssrc : Ssrc} (h : m.participants.get? ssrc = none) :
    m.clocks (.participant ssrc) = [] := by
  simp [Machines.clocks, h]

/-- The arbitrator has taken a turn. -/
private theorem winds_arbitrator {u : Turn Arbitrator} (hmade : Made config before)
    (hbefore : ∀ ssrc, before (.participant ssrc) = m.clocks (.participant ssrc))
    (hacts : Acts ⟨before .arbitrator, []⟩ (Arbitrator.winding u)) :
    Winds before [u.out] { m with arbitrator := u.machine } ∧ Rightful config [u.out] := by
  refine winds_of_acts (o := .arbitrator) hmade hacts (fun other hother => .inr (.of_eq ?_))
    (List.flatMap_singleton _ _)
  cases other with
  | arbitrator => exact absurd rfl hother
  | participant ssrc => exact congrArg (Winding.mk · []) (hbefore ssrc)

/-- One of the participants has taken a turn. -/
private theorem winds_participant {ssrc : Ssrc} {p : Participant} {u : Turn Participant}
    (hmade : Made config before) (hget : m.participants.get? ssrc = some p)
    (hbefore : ∀ o, o ≠ .participant ssrc → before o = m.clocks o)
    (hacts : Acts ⟨before (.participant ssrc), []⟩ (Participant.winding u)) :
    Winds before [u.out]
        { m with participants := m.participants.modify ssrc fun _ => u.machine } ∧
      Rightful config [u.out] := by
  have hafter : (m.participants.modify ssrc fun _ => u.machine).get? ssrc = some u.machine := by
    rw [Roster.get?_modify, if_pos rfl, hget]
    rfl
  have hclocks : Machines.clocks ⟨m.arbitrator, m.participants.modify ssrc fun _ => u.machine⟩
      (.participant ssrc) = u.machine.timers := clocks_of_get? hafter
  rw [Participant.winding, ← hclocks] at hacts
  refine winds_of_acts hmade hacts
    (fun other hother => .inr (.of_eq (congrArg (Winding.mk · []) ?_))) (List.flatMap_singleton _ _)
  rw [hbefore other hother]
  cases other with
  | arbitrator => rfl
  | participant other =>
    have hne : other ≠ ssrc := fun heq => hother (heq ▸ rfl)
    simp only [Machines.clocks, Roster.get?_modify, if_neg hne]

theorem rightful_nil : Rightful config [] := by simp [Rightful]

theorem Rightful.append (h : Rightful config outs) (h' : Rightful config outs') :
    Rightful config (outs ++ outs') := by
  intro armed harmed
  rw [List.flatMap_append] at harmed
  exact (List.mem_append.mp harmed).elim (h armed) (h' armed)

theorem winds_part {op : Operation} (hmade : Made config m.clocks) (h : Part op m outs m') :
    Winds m.clocks outs m' ∧ Rightful config outs := by
  cases h with
  | @arbitrator t u hmachine _ htimers hadmits =>
    refine winds_arbitrator hmade (fun _ => rfl) ?_
    have hbegins : Arbitrator.winding t = ⟨m.arbitrator.timers, []⟩ := by
      rw [Arbitrator.winding, hmachine, htimers]
    exact hbegins ▸ hadmits.takes.acts
  | @participant ssrc p input hget hprompts =>
    refine winds_participant hmade hget (fun _ _ => rfl) ?_
    rw [clocks_of_get? hget]
    exact Participant.acts_handle hprompts.ne_expire
  | @quiet ssrc p input hget hprompts _ htimers =>
    have hacts := Participant.acts_handle (p := p) hprompts.ne_expire
    have hquiet := winds_participant (u := ⟨(p.handle input).machine, {}⟩) hmade hget
      (fun _ _ => rfl) (by
        rw [clocks_of_get? hget]
        rwa [Participant.winding, htimers] at hacts)
    exact ⟨hquiet.1, rightful_nil⟩
  | @left ssrc u out _ h _ htimers =>
    have hacts : Acts ⟨m.arbitrator.timers, []⟩ ⟨u.machine.timers, u.out.timers⟩ :=
      Arbitrator.acts_clientRelease h
    refine winds_of_acts (o := .arbitrator) hmade hacts (fun other hother => ?_)
      (by rw [List.flatMap_singleton, htimers])
    cases other with
    | arbitrator => exact absurd rfl hother
    | participant other =>
      simp only [Machines.clocks, Roster.get?_erase]
      split
      · exact .inl rfl
      · exact .inr .refl
  | @closed out participants _ hstopped _ htimers =>
    refine winds_of_acts (o := .arbitrator) hmade (Arbitrator.acts_beginRelease ⟨m.arbitrator, {}⟩)
      (fun other hother => ?_) (by rw [List.flatMap_singleton, htimers])
    cases other with
    | arbitrator => exact absurd rfl hother
    | participant other =>
      cases hget : participants.get? other with
      | none => exact .inl (clocks_of_get?_eq_none (m := ⟨_, participants⟩) hget)
      | some q =>
        refine .inr ?_
        rw [clocks_of_get? (m := ⟨_, participants⟩) hget]
        rw [hstopped, Option.map_eq_some_iff] at hget
        obtain ⟨p, hp, rfl⟩ := hget
        have hacts : Winding.Acts ⟨p.timers, []⟩ (Participant.winding (p.handle .beginRelease)) :=
          Participant.acts_handle (by simp)
        have hquiet : (p.handle .beginRelease).out.timers = [] := (quiet_beginRelease ⟨p, {}⟩).2
        rw [clocks_of_get? hp]
        rwa [Participant.winding, hquiet] at hacts

theorem winds_parts {op : Operation} (hmade : Made config m.clocks) (h : Parts op m outs m') :
    Winds m.clocks outs m' ∧ Rightful config outs := by
  induction h with
  | none m => exact ⟨.refl m, rightful_nil⟩
  | next hpart _ ih =>
    obtain ⟨hwinds, hrightful⟩ := winds_part hmade hpart
    obtain ⟨hrest, hlater⟩ := ih (hmade.winds hwinds)
    exact ⟨hwinds.trans hrest, hrightful.append hlater⟩

theorem Made.arbitrator (h : Made config m.clocks) :
    m.arbitrator.timers.map Timer.make = Arbitrator.makes config.arbitrator :=
  (h .arbitrator).resolve_left (by simp [Machines.clocks, Arbitrator.timers])

theorem Made.participant {ssrc : Ssrc} {p : Participant} (h : Made config m.clocks)
    (hget : m.participants.get? ssrc = some p) :
    p.timers.map Timer.make = Participant.makes ssrc config.participant := by
  have hmake := h (.participant ssrc)
  rw [clocks_of_get? hget] at hmake
  exact hmake.resolve_left (by simp [Participant.timers])

/-- A ticket is nothing to the timers of other ends of the call. -/
private theorem map_offer_of_owner (hmade : Made config m.clocks) {ticket : Ticket}
    (howner : ticket.owner ≠ o) :
    (m.clocks o).map (SessionEvent.expiry ticket).offer = m.clocks o := by
  refine (List.map_congr_left fun t ht => ?_).trans (List.map_id _)
  exact Timer.offer_of_not_owns fun howns => howner (howns.1.trans (hmade.owner ht))

/-- An event that is handed over is offered to every timer first. -/
theorem winds_delivers {event : SessionEvent} (hmade : Made config m.clocks)
    (h : Delivers m event outs m') :
    Winds (fun o => (m.clocks o).map event.offer) outs m' ∧ Rightful config outs := by
  have hoffered := hmade.offered event
  cases h with
  | @arbitratorTicket ticket howner =>
    refine winds_arbitrator hoffered (fun ssrc => ?_)
      (Arbitrator.acts_expire ticket (t := ⟨m.arbitrator, {}⟩) hmade.arbitrator)
    exact map_offer_of_owner hmade (by simp [howner])
  | @participantTicket ticket ssrc p howner hget =>
    refine winds_participant hoffered hget (fun o ho => ?_) ?_
    · exact map_offer_of_owner hmade fun heq => ho (heq.symm.trans howner)
    · rw [clocks_of_get? hget]
      exact Participant.acts_expire ticket (t := ⟨p, {}⟩) (hmade.participant hget)
  | arbitratorLetter message =>
    refine winds_arbitrator hoffered (fun ssrc => List.map_id _) ?_
    exact (List.map_id m.arbitrator.timers).symm ▸
      Arbitrator.acts_receive message ⟨m.arbitrator, {}⟩
  | @participantLetter ssrc p message hget =>
    refine winds_participant hoffered hget (fun o _ => List.map_id _) ?_
    rw [clocks_of_get? hget]
    exact (List.map_id p.timers).symm ▸ Participant.acts_receive message ⟨p, {}⟩
  | @dropped _ ssrc input hinput hget =>
    refine ⟨fun o => .inr (Acts.of_eq (congrArg (Winding.mk · []) ?_)), rightful_nil⟩
    cases event with
    | expiry ticket =>
      by_cases howner : ticket.owner = o
      · simp only [SessionEvent.input?, Option.ite_none_right_eq_some] at hinput
        simp only [← howner, hinput.1, clocks_of_get?_eq_none hget, List.map_nil]
      · exact map_offer_of_owner hmade howner
    | toArbitrator | toParticipant => exact List.map_id _

theorem made_create (callId : CallId) (callType : CallType) (now : Nat) :
    Made config (Session.create callId callType config now).machines.clocks := by
  intro o
  cases o with
  | arbitrator => exact .inr (Arbitrator.map_make_create callId callType config.arbitrator)
  | participant ssrc => exact .inl rfl

theorem clocks_insert {a : Arbitrator} {participants : Roster Participant} {ssrc : Ssrc}
    {p : Participant} (o : Endpoint) :
    Machines.clocks ⟨a, participants.insert ssrc p⟩ o =
      if o = .participant ssrc then p.timers else Machines.clocks ⟨a, participants⟩ o := by
  cases o with
  | arbitrator =>
    rw [if_neg (by simp)]
    rfl
  | participant other =>
    by_cases heq : other = ssrc <;> simp [Machines.clocks, Roster.get?_insert, heq]

theorem timers_of_addParticipant {a b : Arbitrator} {ssrc : Ssrc} {priority : Priority}
    {originator : Bool} (h : a.addParticipant ssrc priority originator = .ok b) :
    b.timers = a.timers := by
  obtain ⟨-, proxy, rfl⟩ := Arbitrator.exists_insert_of_addParticipant h
  rfl

theorem clocks_of_joined {a : Arbitrator} {ssrc : Ssrc} {priority : Priority} {originator : Bool}
    {s : Session} (hadded : s.arbitrator.addParticipant ssrc priority originator = .ok a)
    (o : Endpoint) :
    Machines.clocks ⟨a, s.participants⟩ o = s.machines.clocks o := by
  cases o with
  | arbitrator => exact timers_of_addParticipant hadded
  | participant => rfl

/-- Taking a call down ends with no timer touched. -/
theorem clocks_downed {s s' : Session} (h : Downed s s') (o : Endpoint) :
    s'.machines.clocks o = s.machines.clocks o := by
  cases o with
  | arbitrator =>
    have hsame := congrArg Winding.timers (Arbitrator.winding_finishRelease ⟨s.arbitrator, {}⟩)
    exact (congrArg Arbitrator.timers h.arbitrator).trans hsame
  | participant ssrc =>
    simp only [machines, Machines.clocks, h.participants, Option.map_map]
    rfl

theorem Stage.made {h : History} {s : Session} (hs : Stage config h s) :
    Made config s.machines.clocks := by
  induction hs with
  | created callId callType now => exact made_create callId callType now
  | acted _ _ _ hparts ih => exact ih.winds (winds_parts ih hparts).1
  | @joined h s ssrc priority originator a hs _ hadded ih =>
    intro o
    rw [machines, clocks_insert]
    split
    · next heq =>
      subst heq
      rw [hs.config_eq]
      exact .inr (Participant.map_make_create _ _ _ _ _ _)
    · rw [clocks_of_joined hadded]
      exact ih o
  | delivered _ _ hdelivers ih => exact (ih.offered _).winds (winds_delivers ih hdelivers).1
  | settled _ _ ih => exact ih
  | ended _ hdowned ih => exact fun o => (clocks_downed hdowned o).symm ▸ ih o

end Session
end FloorControl
