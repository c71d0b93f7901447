import FloorControl.Proofs.LiveTickets
import FloorControl.Proofs.ParticipantWaits
import FloorControl.Proofs.Scenes
import FloorControl.Proofs.StateTimers
import FloorControl.Proofs.StepDeeds
import FloorControl.Proofs.Upkeep

/-!
# Who takes part in a call

The arbitrator and the call agree on who is there. Whatever a party has sent and every ticket that
it has drawn belongs to a party that is there or has left, so when no party comes back after it has
left, nobody finds letters or tickets in the scheduler that are not its own.
-/

namespace FloorControl

namespace Arbitrator

variable {t u : Turn Arbitrator}

/-- Whatever the arbitrator is asked to do for a party that stays is a deed. -/
theorem Admits.exists_deed (h : Admits t u) (hsound : t.machine.places.Sound)
    (hout : t.out.messages = []) :
    ∃ input p, ((∃ ssrc, input = .initialized ssrc) ∨ ∃ ssrc, input = .implicitRequest ssrc) ∧
      t.machine.places.Adjusts input p ∧ p.Orderly ∧
      Deed input p u.out.messages u.machine.places := by
  cases h with
  | @initialized ssrc _ h =>
    obtain ⟨hknown, -⟩ := leads_callInitialized (fun _ => False) hsound hout h
    exact ⟨_, _, .inl ⟨ssrc, rfl⟩, .readied hknown, { hsound.toOrderly with },
      deed_callInitialized hsound hout h⟩
  | @implicitRequest ssrc _ h =>
    exact ⟨_, _, .inr ⟨ssrc, rfl⟩, .nobody rfl, hsound.toOrderly,
      deed_implicitFloorRequest hsound hout h⟩

/-- A party that leaves is forgotten first, and what the arbitrator does then is a deed. -/
theorem exists_deed_of_clientRelease {ssrc : Ssrc} (h : clientRelease ssrc t = .ok u)
    (hsound : t.machine.places.Sound) (hout : t.out.messages = []) :
    t.machine.places.Adjusts (.leave ssrc) (t.machine.places.without ssrc) ∧
      (t.machine.places.without ssrc).Orderly ∧
      Deed (.leave ssrc) (t.machine.places.without ssrc) u.out.messages u.machine.places := by
  obtain ⟨hknown, -⟩ := leads_clientRelease (fun _ => False) hsound hout h
  exact ⟨.left hknown, orderly_without ssrc hsound.toOrderly, deed_clientRelease hsound hout h⟩

theorem Places.Adjusts.roster_contains {input : Input} {p q : Places} (h : p.Adjusts input q)
    (hadd : ∀ ssrc priority originator, input ≠ .add ssrc priority originator)
    (hleave : ∀ ssrc, input ≠ .leave ssrc) (x : Ssrc) :
    q.roster.contains x = p.roster.contains x := by
  cases h with
  | came => exact absurd rfl (hadd _ _ _)
  | readied => exact Roster.contains_modify ..
  | left => exact absurd rfl (hleave _)
  | nobody => rfl

end Arbitrator

def SessionEvent.source? : SessionEvent → Option Ssrc
  | .expiry ticket =>
    match ticket.owner with
    | .arbitrator => none
    | .participant ssrc => some ssrc
  | .toArbitrator message => message.ssrc?
  | .toParticipant .. => none

namespace Session

variable {config : SessionConfig} {h : History} {s : Session} {m m' : Machines} {op : Operation}
  {outs : List Outbox} {event : SessionEvent} {x : Ssrc} {p : Participant}

theorem Operation.Prompts.ne_stopTimers {input : Participant.Input} (h : op.Prompts x input) :
    input ≠ .stopTimers := by
  cases h <;> simp

theorem Operation.Prompts.ne_beginRelease {input : Participant.Input} (h : op.Prompts x input) :
    input ≠ .beginRelease := by
  cases h <;> simp

theorem Operation.Prompts.ne_leave {input : Participant.Input} (h : op.Prompts x input)
    (y : Ssrc) : op ≠ .leave y := by
  cases h <;> simp

/-- Every participant is known by its own SSRC and repeats a message as often as it is configured
to, and what is set at it and what runs fits its state. -/
structure Member (config : ParticipantConfig) (x : Ssrc) (p : Participant) : Prop where
  ssrc : p.ssrc = x
  c100 : p.c100.limit = config.c100Limit.toNat
  c101 : p.c101.limit = config.c101Limit.toNat
  waits : p.Waits

private theorem upheld_member (config : ParticipantConfig) (x : Ssrc) :
    Participant.Upheld fun t => t.machine.ssrc = x ∧ t.machine.c100.limit = config.c100Limit.toNat ∧
      t.machine.c101.limit = config.c101Limit.toNat where
  update _ hmild h := ⟨hmild.ssrc.trans h.1, hmild.c100.trans h.2.1, hmild.c101.trans h.2.2⟩
  post _ _ h := h
  tell _ _ _ h := h
  arm _ h := h

theorem Member.handle {config : ParticipantConfig} (h : Member config x p)
    (input : Participant.Input) (hongoing : input ≠ .stopTimers) :
    Member config x (p.handle input).machine := by
  have hupheld := upheld_member config x
  have hbefore := And.intro h.ssrc (And.intro h.c100 h.c101)
  have hwaits := Participant.waits_handle input hongoing h.waits
  by_cases hexpire : ∃ ticket, input = .expire ticket
  · obtain ⟨ticket, rfl⟩ := hexpire
    obtain ⟨hssrc, h100, h101⟩ :=
      hupheld.expire ticket (t := ⟨p, {}⟩) (fun _ _ h => h) hbefore
    exact ⟨hssrc, h100, h101, hwaits⟩
  · obtain ⟨hssrc, h100, h101⟩ :=
      hupheld.handle input (fun ticket heq => hexpire ⟨ticket, heq⟩) hbefore
    exact ⟨hssrc, h100, h101, hwaits⟩

/-- The machines of a call that is not down: the arbitrator and its timers are in order, every
participant is, and the arbitrator knows who is there. -/
structure Machines.Fit (config : SessionConfig) (m : Machines) : Prop where
  made : Made config m.clocks
  sound : m.arbitrator.places.Sound
  roomy : m.arbitrator.places.queue.Roomy
  inStep : m.arbitrator.gears.InStep
  member : ∀ x p, m.participants.get? x = some p → Member config.participant x p
  known : ∀ x, m.arbitrator.roster.contains x = m.participants.contains x

private theorem member_modify {participants : Roster Participant} {y : Ssrc}
    {i : Participant.Input} {config : ParticipantConfig}
    (hbefore : ∀ x p, participants.get? x = some p → Member config x p)
    (hget : participants.get? y = some p) (hongoing : i ≠ .stopTimers) :
    ∀ x q, (participants.modify y fun _ => (p.handle i).machine).get? x = some q →
      Member config x q := by
  intro x q hq
  rw [Roster.get?_modify] at hq
  split at hq
  · next heq =>
    subst heq
    obtain ⟨-, -, rfl⟩ := Option.map_eq_some_iff.mp hq
    exact (hbefore x p hget).handle i hongoing
  · exact hbefore x q hq

private theorem member_part (hpart : Part op m outs m') (h : m.Fit config) :
    ∀ x p, m'.participants.get? x = some p → Member config.participant x p := by
  cases hpart with
  | arbitrator => exact h.member
  | participant hget hprompts => exact member_modify h.member hget hprompts.ne_stopTimers
  | quiet hget hprompts => exact member_modify h.member hget hprompts.ne_stopTimers
  | left =>
    intro x p hget
    rw [Roster.get?_erase] at hget
    split at hget
    · cases hget
    · exact h.member x p hget
  | closed _ hstopped =>
    intro x p hget
    rw [hstopped] at hget
    obtain ⟨q, hq, rfl⟩ := Option.map_eq_some_iff.mp hget
    exact (h.member x q hq).handle .beginRelease (by simp)

private theorem member_delivers (hdelivers : Delivers m event outs m') (h : m.Fit config) :
    ∀ x p, m'.participants.get? x = some p → Member config.participant x p := by
  cases hdelivers with
  | arbitratorTicket | arbitratorLetter | dropped => exact h.member
  | @participantTicket ticket _ _ _ hget =>
    exact member_modify (i := .expire ticket) h.member hget (by simp)
  | participantLetter message hget =>
    exact member_modify (i := .receive message) h.member hget (by simp)

private theorem roomy_part (hpart : Part op m outs m') (h : m.Fit config) :
    m'.arbitrator.places.queue.Roomy := by
  cases hpart with
  | arbitrator hmachine hmessages _ hadmits =>
    obtain ⟨input, p, -, hadjusts, -, hdeed⟩ :=
      hadmits.exists_deed (hmachine ▸ h.sound) hmessages
    exact hdeed.queue_roomy (hadjusts.queue_roomy (hmachine ▸ h.roomy))
  | participant | quiet => exact h.roomy
  | left _ hleaves =>
    obtain ⟨hadjusts, -, hdeed⟩ :=
      Arbitrator.exists_deed_of_clientRelease (t := ⟨m.arbitrator, {}⟩) hleaves h.sound rfl
    exact hdeed.queue_roomy (hadjusts.queue_roomy h.roomy)
  | closed =>
    exact (Arbitrator.deed_beginRelease (t := ⟨m.arbitrator, {}⟩) rfl).queue_roomy h.roomy

private theorem roomy_delivers (hdelivers : Delivers m event outs m') (h : m.Fit config) :
    m'.arbitrator.places.queue.Roomy := by
  cases hdelivers with
  | @arbitratorTicket ticket =>
    exact (Arbitrator.deed_expire ticket (t := ⟨m.arbitrator, {}⟩) h.sound h.roomy
      rfl).queue_roomy h.roomy
  | arbitratorLetter message =>
    exact (Arbitrator.deed_receive message (t := ⟨m.arbitrator, {}⟩) h.sound h.roomy
      rfl).queue_roomy h.roomy
  | participantTicket | participantLetter | dropped => exact h.roomy

private theorem known_part (hpart : Part op m outs m') (h : m.Fit config) (x : Ssrc) :
    m'.arbitrator.roster.contains x = m'.participants.contains x := by
  cases hpart with
  | @arbitrator t u hmachine hmessages _ hadmits =>
    obtain ⟨input, p, hinput, hadjusts, -, hdeed⟩ :=
      hadmits.exists_deed (hmachine ▸ h.sound) hmessages
    refine Eq.trans ?_ (h.known x)
    rw [← hmachine]
    have hroster : u.machine.roster = p.roster := hdeed.roster_eq (by
      rcases hinput with ⟨ssrc, rfl⟩ | ⟨ssrc, rfl⟩ <;> simp)
    rw [hroster]
    apply hadjusts.roster_contains
    all_goals rcases hinput with ⟨ssrc, rfl⟩ | ⟨ssrc, rfl⟩ <;> simp
  | participant | quiet => exact (h.known x).trans (Roster.contains_modify ..).symm
  | @left ssrc u _ _ hleaves =>
    obtain ⟨-, -, hdeed⟩ :=
      Arbitrator.exists_deed_of_clientRelease (t := ⟨m.arbitrator, {}⟩) hleaves h.sound rfl
    have hroster : u.machine.roster = m.arbitrator.roster.erase ssrc := hdeed.roster_eq (by simp)
    rw [hroster, Roster.contains_erase, Roster.contains_erase, h.known x]
  | @closed _ participants _ hstopped =>
    have hroster : (Arbitrator.beginRelease ⟨m.arbitrator, {}⟩).machine.roster =
        m.arbitrator.roster :=
      (Arbitrator.deed_beginRelease (t := ⟨m.arbitrator, {}⟩) rfl).roster_eq (by simp)
    rw [hroster, h.known x, Roster.contains_eq_isSome_get?, Roster.contains_eq_isSome_get?,
      hstopped, Option.isSome_map]

private theorem known_delivers (hdelivers : Delivers m event outs m') (h : m.Fit config)
    (x : Ssrc) : m'.arbitrator.roster.contains x = m'.participants.contains x := by
  cases hdelivers with
  | @arbitratorTicket ticket =>
    have hdeed := Arbitrator.deed_expire ticket (t := ⟨m.arbitrator, {}⟩) h.sound h.roomy rfl
    have hroster : (Arbitrator.expire ticket ⟨m.arbitrator, {}⟩).machine.roster =
        m.arbitrator.roster := hdeed.roster_eq (by simp)
    rw [hroster, h.known x]
  | arbitratorLetter message =>
    have hdeed := Arbitrator.deed_receive message (t := ⟨m.arbitrator, {}⟩) h.sound h.roomy rfl
    have hroster : (Arbitrator.receive message ⟨m.arbitrator, {}⟩).machine.roster =
        m.arbitrator.roster := hdeed.roster_eq (by simp)
    rw [hroster, h.known x]
  | participantTicket | participantLetter =>
    exact (h.known x).trans (Roster.contains_modify ..).symm
  | dropped => exact h.known x

theorem fit_part (hpart : Part op m outs m') (h : m.Fit config) : m'.Fit config where
  made := h.made.winds (winds_part h.made hpart).1
  sound := sound_part hpart h.sound
  roomy := roomy_part hpart h
  inStep := inStep_part hpart h.inStep
  member := member_part hpart h
  known := known_part hpart h

theorem fit_delivers (hdelivers : Delivers m event outs m') (h : m.Fit config) :
    m'.Fit config where
  made := (h.made.offered event).winds (winds_delivers h.made hdelivers).1
  sound := sound_delivers hdelivers h.sound
  roomy := roomy_delivers hdelivers h
  inStep := inStep_delivers hdelivers h.inStep h.sound
  member := member_delivers hdelivers h
  known := known_delivers hdelivers h

theorem Stage.fit (hs : Stage config h s) (hactive : s.active = true) : s.machines.Fit config := by
  induction hs with
  | created callId callType now =>
    have hs : Stage config [] _ := .created callId callType now
    exact {
      made := hs.made
      sound := hs.sound
      roomy := Arbitrator.roomy_create callId callType config.arbitrator
      inStep := hs.inStep
      member := fun x p hget => by cases hget
      known := fun x => rfl }
  | acted op _ _ hparts ih => exact hparts.keeps (fun _ _ _ => fit_part) (ih hactive)
  | @joined h s ssrc _ _ a hs hrunning hadded ih =>
    have hbefore := ih hrunning
    have hjoined := Stage.joined hs hrunning hadded
    obtain ⟨-, proxy, hplaces, -⟩ := Arbitrator.leads_addParticipant hs.sound hadded
    refine {
      made := hjoined.made
      sound := hjoined.sound
      roomy := hplaces ▸ hbefore.roomy
      inStep := hjoined.inStep
      member := fun x p hget => ?_
      known := fun x => ?_ }
    · rw [machines, Roster.get?_insert] at hget
      split at hget
      · next heq =>
        subst heq
        cases hget
        rw [hs.config_eq]
        exact ⟨rfl, rfl, rfl, Participant.waits_create ..⟩
      · exact hbefore.member x p hget
    · have hroster :
          a.roster.contains x = (decide (x = ssrc) || s.arbitrator.roster.contains x) := by
        have hadds : a.roster = s.arbitrator.roster.insert ssrc proxy :=
          congrArg Arbitrator.Places.roster hplaces
        rw [hadds, Roster.contains_insert]
      change a.roster.contains x = (Roster.insert ..).contains x
      rw [hroster, Roster.contains_insert]
      exact congrArg _ (hbefore.known x)
  | delivered _ _ hdelivers ih => exact fit_delivers hdelivers (ih hactive)
  | settled _ _ ih => exact ih hactive
  | ended _ hdowned _ =>
    rw [hdowned.active] at hactive
    cases hactive

/-- What the arbitrator puts into the scheduler comes from no party. -/
private theorem source_arbitrator {before : Endpoint → List Timer} {after : List Timer}
    {out : Outbox} {delay : Nat} (hmade : Made config before)
    (hacts : Winding.Acts ⟨before .arbitrator, []⟩ ⟨after, out.timers⟩)
    (hletters : ∀ e ∈ out.messages, ∃ ssrc message, e = Arbitrator.letterTo ssrc message) :
    ∀ wish ∈ wishes delay out, wish.2.source? = none := by
  intro wish hwish
  rcases List.mem_append.mp hwish with hwish | hwish
  · obtain ⟨armed, harmed, rfl⟩ := List.mem_map.mp hwish
    simp only [SessionEvent.source?, (hmade.of_mem_drawn hacts harmed).1]
  · obtain ⟨e, he, rfl⟩ := List.mem_map.mp hwish
    obtain ⟨ssrc, message, rfl⟩ := hletters e he
    rfl

/-- What a participant puts into the scheduler comes from it. -/
private theorem source_participant {before : Endpoint → List Timer} {i : Participant.Input}
    {delay : Nat} (hmade : Made config before) (hmember : Member config.participant x p)
    (hbegin : i ≠ .beginRelease)
    (hacts : Winding.Acts ⟨before (.participant x), []⟩ (Participant.winding (p.handle i))) :
    ∀ wish ∈ wishes delay (p.handle i).out, wish.2.source? = some x := by
  intro wish hwish
  rcases List.mem_append.mp hwish with hwish | hwish
  · obtain ⟨armed, harmed, rfl⟩ := List.mem_map.mp hwish
    simp only [SessionEvent.source?, (hmade.of_mem_drawn hacts harmed).1]
  · obtain ⟨e, he, rfl⟩ := List.mem_map.mp hwish
    have hconduct := Participant.conduct_handle i hbegin hmember.waits.pending
    obtain ⟨message, rfl, hssrc⟩ := hconduct.letters e he
    exact hmember.ssrc ▸ hssrc

private theorem sources_part {delay : Nat} (hpart : Part op m outs m') (h : m.Fit config) :
    ∀ wish ∈ outs.flatMap (wishes delay), ∀ x ∈ wish.2.source?,
      m'.participants.contains x = true ∧ ∀ y, op ≠ .leave y := by
  intro wish hwish x hsource
  cases hpart with
  | @arbitrator t u hmachine hmessages htimers hadmits =>
    rw [List.flatMap_singleton] at hwish
    obtain ⟨input, p, -, -, -, hdeed⟩ := hadmits.exists_deed (hmachine ▸ h.sound) hmessages
    have hacts := hadmits.takes.acts
    rw [Arbitrator.winding, hmachine, htimers] at hacts
    rw [source_arbitrator h.made hacts hdeed.letters wish hwish] at hsource
    cases hsource
  | @participant ssrc p input hget hprompts =>
    rw [List.flatMap_singleton] at hwish
    have hacts := Participant.acts_handle (p := p) hprompts.ne_expire
    rw [← clocks_of_get? hget] at hacts
    rw [source_participant h.made (h.member _ _ hget) hprompts.ne_beginRelease hacts wish hwish]
      at hsource
    cases hsource
    rw [Roster.contains_modify]
    exact ⟨Roster.contains_of_get? hget, hprompts.ne_leave⟩
  | quiet => cases hwish
  | @left ssrc u out _ hleaves hmessages htimers =>
    rw [List.flatMap_singleton] at hwish
    obtain ⟨-, -, hdeed⟩ :=
      Arbitrator.exists_deed_of_clientRelease (t := ⟨m.arbitrator, {}⟩) hleaves h.sound rfl
    have hacts : Winding.Acts ⟨m.arbitrator.timers, []⟩ ⟨u.machine.timers, u.out.timers⟩ :=
      Arbitrator.acts_clientRelease hleaves
    rw [source_arbitrator h.made (htimers ▸ hacts) (hmessages ▸ hdeed.letters) wish hwish]
      at hsource
    cases hsource
  | @closed out participants _ _ hmessages htimers =>
    rw [List.flatMap_singleton] at hwish
    have hdeed := Arbitrator.deed_beginRelease (t := ⟨m.arbitrator, {}⟩) rfl
    have hacts := Arbitrator.acts_beginRelease ⟨m.arbitrator, {}⟩
    rw [Arbitrator.winding, Arbitrator.winding, ← htimers] at hacts
    rw [source_arbitrator h.made hacts (hmessages ▸ hdeed.letters) wish hwish] at hsource
    cases hsource

/-- Nobody comes or goes by a part of an operation, except the party that leaves by it. -/
theorem contains_part (hpart : Part op m outs m') (hstays : op ≠ .leave x) :
    m'.participants.contains x = m.participants.contains x := by
  cases hpart with
  | arbitrator => rfl
  | participant | quiet => exact Roster.contains_modify ..
  | @left ssrc _ _ hop =>
    have hne : x ≠ ssrc := by
      rintro rfl
      exact hstays hop
    rw [Roster.contains_erase, decide_eq_true hne, Bool.true_and]
  | closed _ hstopped =>
    rw [Roster.contains_eq_isSome_get?, Roster.contains_eq_isSome_get?, hstopped, Option.isSome_map]

private theorem sources_parts {delay : Nat} (hparts : Parts op m outs m') (h : m.Fit config) :
    ∀ wish ∈ outs.flatMap (wishes delay), ∀ x ∈ wish.2.source?,
      m'.participants.contains x = true := by
  induction hparts with
  | none => simp
  | next hpart hrest ih =>
    intro wish hwish x hsource
    rw [List.flatMap_append] at hwish
    rcases List.mem_append.mp hwish with hwish | hwish
    · obtain ⟨hpresent, hstays⟩ := sources_part hpart h wish hwish x hsource
      exact hrest.keeps (P := fun m => m.participants.contains x = true)
        (fun _ _ _ hpart hbefore => (contains_part hpart (hstays x)).trans hbefore) hpresent
    · exact ih (fit_part hpart h) wish hwish x hsource

theorem contains_delivers (hdelivers : Delivers m event outs m') :
    m'.participants.contains x = m.participants.contains x := by
  cases hdelivers with
  | arbitratorTicket | arbitratorLetter | dropped => rfl
  | participantTicket | participantLetter => exact Roster.contains_modify ..

private theorem sources_delivers {delay : Nat} (hdelivers : Delivers m event outs m')
    (h : m.Fit config) : ∀ wish ∈ outs.flatMap (wishes delay), ∀ x ∈ wish.2.source?,
      m.participants.contains x = true := by
  have hoffered := h.made.offered event
  intro wish hwish x hsource
  cases hdelivers with
  | @arbitratorTicket ticket =>
    rw [List.flatMap_singleton] at hwish
    have hdeed := Arbitrator.deed_expire ticket (t := ⟨m.arbitrator, {}⟩) h.sound h.roomy rfl
    have hacts := Arbitrator.acts_expire ticket (t := ⟨m.arbitrator, {}⟩) h.made.arbitrator
    rw [source_arbitrator hoffered hacts hdeed.letters wish hwish] at hsource
    cases hsource
  | arbitratorLetter message =>
    rw [List.flatMap_singleton] at hwish
    have hdeed := Arbitrator.deed_receive message (t := ⟨m.arbitrator, {}⟩) h.sound h.roomy rfl
    have hacts := Arbitrator.acts_receive message ⟨m.arbitrator, {}⟩
    rw [source_arbitrator h.made hacts hdeed.letters wish hwish] at hsource
    cases hsource
  | @participantTicket ticket ssrc p _ hget =>
    rw [List.flatMap_singleton] at hwish
    have hacts := Participant.acts_expire ticket (t := ⟨p, {}⟩) (h.made.participant hget)
    rw [← clocks_of_get? hget] at hacts
    rw [source_participant (i := .expire ticket) hoffered (h.member _ _ hget) (by simp) hacts
      wish hwish] at hsource
    cases hsource
    exact Roster.contains_of_get? hget
  | @participantLetter ssrc p message hget =>
    rw [List.flatMap_singleton] at hwish
    have hacts := Participant.acts_receive message ⟨p, {}⟩
    rw [Participant.winding, ← clocks_of_get? hget] at hacts
    rw [source_participant (i := .receive message) h.made (h.member _ _ hget) (by simp) hacts
      wish hwish] at hsource
    cases hsource
    exact Roster.contains_of_get? hget
  | dropped => cases hwish

/-- Whatever waits in the scheduler was put there before or by the step. -/
theorem mem_pending_progressed {y : Scheduled SessionEvent}
    (hy : y ∈ (s.progressed m outs).scheduler.pending) : y ∈ s.scheduler.pending ∨
      ∃ wish ∈ outs.flatMap (wishes s.config.linkDelay.toNat),
        y.due = Time.after s.now wish.1 ∧ y.event = wish.2 := by
  rcases List.mem_append.mp
    ((Scheduler.pending_scheduleEach _ s.scheduler).mem_iff.mp hy) with hy | hy
  · exact .inl hy
  · exact .inr (Scheduler.of_mem_entries hy).1

/-- Whatever waits comes from the arbitrator, or from a party that is there or has left. -/
theorem Stage.sourced (hs : Stage config h s) : ∀ y ∈ s.scheduler.pending,
    ∀ x ∈ y.event.source?, s.participants.contains x = true ∨ x ∈ h.departed := by
  induction hs with
  | created => exact fun y hy => by cases hy
  | @acted h s m op hs _ hparts ih =>
    intro y hy x hsource
    cases hactive : s.active with
    | false =>
      have hnothing : s.scheduler.pending = [] := hs.still hactive
      rw [op.outboxes_of_over hactive] at hy
      have hy : y ∈ s.scheduler.pending := hy
      rw [hnothing] at hy
      cases hy
    | true =>
    rcases mem_pending_progressed hy with hy | ⟨wish, hwish, -, hevent⟩
    · rcases ih y hy x hsource with hpresent | hgone
      · by_cases hleave : op = .leave x
        · subst hleave
          refine .inr (List.mem_filterMap.mpr ⟨_, List.mem_cons_self, ?_⟩)
          simp [Happening.left?, hactive, hpresent]
        · exact .inl (hparts.keeps (P := fun m => m.participants.contains x = true)
            (fun _ _ _ hpart hbefore => (contains_part hpart hleave).trans hbefore) hpresent)
      · exact .inr ((List.sublist_cons_self _ h).filterMap _ |>.subset hgone)
    · rw [hevent] at hsource
      exact .inl (sources_parts hparts (hs.fit hactive) wish hwish x hsource)
  | @joined h s ssrc priority originator a hs hrunning hadded ih =>
    intro y hy x hsource
    rw [Roster.contains_insert]
    rcases ih y hy x hsource with hpresent | hgone
    · exact .inl (by rw [hpresent, Bool.or_true])
    · exact .inr hgone
  | @delivered h s m t event scheduler hs hpop hdelivers ih =>
    intro y hy x hsource
    change m.participants.contains x = true ∨ x ∈ h.departed
    rw [contains_delivers hdelivers]
    have hfit := hs.fit (hs.active_of_popDue hpop)
    rcases mem_pending_progressed hy with hy | ⟨wish, hwish, -, hevent⟩
    · obtain ⟨first, rest, hpending, -, -, rfl⟩ := Scheduler.popDue_eq_some hpop
      exact ih y (hpending ▸ List.mem_cons_of_mem _ hy) x hsource
    · rw [hevent] at hsource
      exact .inl (sources_delivers hdelivers hfit wish hwish x hsource)
  | settled _ _ ih => exact ih
  | ended _ hdowned _ =>
    intro y hy
    rw [hdowned.pending] at hy
    cases hy

/-- When nobody joins again after having left, nothing waits that comes from a party that joins. -/
theorem Stage.fresh {priority : Priority} {originator : Bool} {a : Arbitrator}
    (hs : Stage config h s) (hactive : s.active = true)
    (hadded : s.arbitrator.addParticipant x priority originator = .ok a)
    (hjoin : History.NoRejoin (⟨s, .operation (.join x priority originator)⟩ :: h)) :
    ∀ y ∈ s.scheduler.pending, y.event.source? ≠ some x := by
  intro y hy hsource
  have hstranger := (Arbitrator.exists_insert_of_addParticipant hadded).1
  rcases hs.sourced y hy x hsource with hpresent | hgone
  · have hknown : s.arbitrator.roster.contains x = true :=
      ((hs.fit hactive).known x).trans hpresent
    rw [hstranger] at hknown
    cases hknown
  · exact hjoin.1 x (by simp [Happening.joined?, hactive]) hgone

end Session
end FloorControl
