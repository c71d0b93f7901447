import FloorControl.Proofs.ArbitratorPath
import FloorControl.Proofs.CallChanges

/-!
# The two rosters

The call keeps its participants, and the arbitrator keeps a roster of its own; nothing but the
operations of the call holds the two together. They agree all the same on who is there, with which
priority and in which part, and on who is set up. The arbitrator opens the floor with the change by
which nobody is missing any longer, whether the last one has become ready or has left, so as long as
the floor is not open somebody is missing.
-/

namespace FloorControl

namespace Roster

variable {α : Type} {r : Roster α}

theorem exists_get?_of_mem_values {a : α} (h : a ∈ r.values) : ∃ x, r.get? x = some a := by
  obtain ⟨⟨x, a⟩, hmem, rfl⟩ := List.mem_map.mp h
  refine ⟨x, ?_⟩
  have hascending : r.entries.Pairwise fun e f => e.1 < f.1 := List.pairwise_map.mp r.ascending
  rw [get?]
  generalize r.entries = entries at hmem hascending
  induction entries with
  | nil => cases hmem
  | cons entry rest ih =>
    obtain ⟨hfirst, hrest⟩ := List.pairwise_cons.mp hascending
    rcases List.mem_cons.mp hmem with rfl | hmem
    · simp
    · have hne : entry.1 ≠ x := UInt32.ne_of_lt (hfirst _ hmem)
      rw [List.find?_cons_of_neg (by simpa using hne)]
      exact ih hmem hrest

theorem mem_values_of_get? {x : Ssrc} {a : α} (h : r.get? x = some a) : a ∈ r.values := by
  obtain ⟨entry, hentry, rfl⟩ := Option.map_eq_some_iff.mp h
  exact List.mem_map_of_mem (List.mem_of_find?_eq_some hentry)

end Roster

namespace Arbitrator

variable {t u : Turn Arbitrator} {x : Ssrc}

/-- As long as the floor is not open somebody is missing: before the set-up everybody, during the
set-up at least one party. -/
structure Gathering (a : Arbitrator) : Prop where
  nobody : a.state = .startStop → ∀ x proxy, a.roster.get? x = some proxy → proxy.ready = false
  somebody : a.state = .initialising → ∃ x proxy, a.roster.get? x = some proxy ∧
    proxy.ready = false

/-- Where the floor goes from one to the next, nobody is waited for. -/
theorem Gathering.of_turnover {a : Arbitrator} (h : a.state.turnover ≠ []) : Gathering a where
  nobody hstate := absurd (by rw [hstate]; rfl) h
  somebody hstate := absurd (by rw [hstate]; rfl) h

theorem Gathering.of_passes (hpasses : Passes ArbitratorState.turnover t u)
    (h : Gathering t.machine) : Gathering u.machine := by
  rcases hpasses.state_cases with hstate | hset
  · refine ⟨fun hstart => ?_, fun hset => ?_⟩
    · rw [hpasses.roster]
      exact h.nobody (hstate.symm.trans hstart)
    · rw [hpasses.roster]
      exact h.somebody (hstate.symm.trans hset)
  · exact .of_turnover hset.2

theorem turnover_becomeIdle (t : Turn Arbitrator) :
    (becomeIdle t).machine.state.turnover ≠ [] := by
  simp only [becomeIdle]
  split
  · next hstate =>
    rw [hstate]
    decide
  · split
    · rw [state_moveTo]
      decide
    · next ssrc _ =>
      have hpasses := (Passes.refl ((moveTo .idle t).update fun a =>
        { a with implicitRequest := none })).grantImplicit (fun _ => List.Subset.refl _) ssrc
        (by rw [Turn.machine_update, state_moveTo]; decide)
      rcases hpasses.state_cases with hstate | hset
      · rw [hstate, Turn.machine_update, state_moveTo]
        decide
      · exact hset.2

/-- The set-up goes on as long as somebody is not ready. -/
theorem gathering_checkReady (hstate : t.machine.state = .initialising) :
    Gathering (checkReady t).machine := by
  simp only [checkReady]
  split
  · exact .of_turnover (turnover_becomeIdle _)
  · next hmissing =>
    refine ⟨fun hstart => ?_, fun _ => ?_⟩
    · rw [hstate] at hstart
      cases hstart
    · simp only [List.all_eq_true, not_forall, Bool.not_eq_true] at hmissing
      obtain ⟨proxy, hmem, hready⟩ := hmissing
      obtain ⟨x, hget⟩ := Roster.exists_get?_of_mem_values hmem
      exact ⟨x, proxy, hget, hready⟩

/-- With the first party that is ready the set-up begins. -/
theorem gathering_callInitialized (hu : callInitialized x t = .ok u) : Gathering u.machine := by
  simp only [callInitialized] at hu
  split at hu
  · cases hu
  cases hu
  split
  · exact gathering_checkReady (state_moveTo _)
  · next hstate => exact gathering_checkReady hstate
  · next hstate =>
    rw [machine_sendTo]
    exact .of_turnover (by rw [hstate]; decide)
  · next hstate =>
    have hset := Gathering.of_turnover (by rw [hstate]; decide)
    split
    · rwa [machine_sendTo]
    · exact hset
  · next hstate =>
    have hset := Gathering.of_turnover (by rw [hstate]; decide)
    split
    · rwa [machine_sendTo]
    · exact hset
  · next hstate =>
    refine ⟨fun hstart => ?_, fun hset => ?_⟩
    · cases hstate.symm.trans hstart
    · cases hstate.symm.trans hset

/-- When the last party that was not ready leaves, the set-up is over. -/
theorem gathering_clientRelease (hu : clientRelease x t = .ok u) (h : Gathering t.machine) :
    Gathering u.machine := by
  rw [eq_of_clientRelease hu]
  split
  · next hstate => exact gathering_checkReady hstate
  · next hover =>
    have hpasses := (Passes.refl (forgotten x t)).relieved (fun _ => List.Subset.refl _) x
    refine ⟨fun hstart => ?_, fun hset => absurd hset hover⟩
    rcases hpasses.state_cases with hstate | hset
    · rw [hpasses.roster]
      intro y proxy hget
      have hget : (t.machine.roster.erase x).get? y = some proxy := hget
      rw [Roster.get?_erase] at hget
      split at hget
      · cases hget
      · exact h.nobody (hstate.symm.trans hstart) y proxy hget
    · rw [hstart] at hset
      exact absurd rfl hset.2

end Arbitrator

/-- A party as the call keeps it and as the arbitrator does. -/
structure Participant.Matches (p : Participant) (proxy : Proxy) : Prop where
  standing : p.standing = ⟨proxy.priority, proxy.originator, proxy.receiveOnly⟩
  ready : p.state = .startStop ↔ proxy.ready = false

namespace Session

variable {config : SessionConfig} {phase : Phase} {h : History} {r r' : Run} {s : Session}
  {m : Machines} {out : Outbox} {x : Ssrc} {callType : CallType}

/-- The arbitrator agrees with a call of a type on everybody that both have. -/
structure Machines.Agree (callType : CallType) (m : Machines) : Prop where
  callType : m.arbitrator.callType = callType
  party : ∀ x p proxy, m.participants.get? x = some p → m.arbitrator.roster.get? x = some proxy →
    p.Matches proxy
  gathering : m.arbitrator.Gathering

/-- The arbitrator takes a turn in which the floor goes from one to the next at most. -/
private theorem agree_passes {t u : Turn Arbitrator} {participants : Roster Participant}
    (hpasses : Arbitrator.Passes ArbitratorState.turnover t u)
    (h : Machines.Agree callType ⟨t.machine, participants⟩) :
    Machines.Agree callType ⟨u.machine, participants⟩ where
  callType := hpasses.callType.trans h.callType
  party x p proxy hget hproxy := h.party x p proxy hget (hpasses.roster ▸ hproxy)
  gathering := .of_passes hpasses h.gathering

/-- A party takes its turn, which its standing and its being set up survive. -/
private theorem party_modify {participants : Roster Participant} {roster : Roster Proxy}
    {p q : Participant}
    (hparty : ∀ y p proxy, participants.get? y = some p → roster.get? y = some proxy →
      p.Matches proxy) (hget : participants.get? x = some p)
    (hq : ∀ proxy, p.Matches proxy → q.Matches proxy) :
    ∀ y p proxy, (participants.modify x fun _ => q).get? y = some p →
      roster.get? y = some proxy → p.Matches proxy := by
  intro y p' proxy hy hproxy
  rw [Roster.get?_modify] at hy
  split at hy
  · next heq =>
    subst heq
    rw [hget] at hy
    cases hy
    exact hq proxy (hparty _ p proxy hget hproxy)
  · exact hparty y p' proxy hy hproxy

/-- A turn that a party takes by itself changes neither its standing nor whether it is set up. -/
private theorem matches_solo {p : Participant} {input : Participant.Input} {proxy : Proxy}
    (hp : p.Waits) (hsolo : input.Solo p) (h : p.Matches proxy) :
    (p.handle input).machine.Matches proxy := by
  have hturn := Participant.announces_solo hp hsolo
  refine ⟨hturn.standing.trans h.standing, Iff.trans ?_ h.ready⟩
  rcases hturn.edge with hstate | hedge
  · exact iff_of_eq (congrArg (· = _) hstate)
  · revert hedge
    change (p.handle input).machine.state ∈ p.state.turnover → _
    cases p.state <;> cases (p.handle input).machine.state <;> decide

private theorem agree_setUp {p : Participant} {u : Turn Arbitrator} (h : m.Agree callType)
    (hget : m.participants.get? x = some p)
    (hu : Arbitrator.callInitialized x ⟨m.arbitrator, out⟩ = .ok u) :
    Machines.Agree callType
      ⟨u.machine, m.participants.modify x fun _ => (p.handle .initialized).machine⟩ := by
  have hpasses := Arbitrator.passes_callInitialized hu
  refine ⟨hpasses.callType.trans h.callType, fun y q proxy hq hproxy => ?_,
    Arbitrator.gathering_callInitialized hu⟩
  have hproxy : (m.arbitrator.roster.modify x fun proxy => { proxy with ready := true }).get? y =
      some proxy := (congrArg (·.get? y) hpasses.roster).symm.trans hproxy
  rw [Roster.get?_modify] at hq hproxy
  split at hq
  · next heq =>
    subst heq
    rw [if_pos rfl, Option.map_eq_some_iff] at hproxy
    obtain ⟨before, hbefore, rfl⟩ := hproxy
    rw [hget] at hq
    cases hq
    have hturn := Participant.announces_callInitialized ⟨p, {}⟩
    exact ⟨hturn.standing.trans (h.party y p before hget hbefore).standing,
      iff_of_false (Participant.state_callInitialized ⟨p, {}⟩) nofun⟩
  · next hne =>
    rw [if_neg hne] at hproxy
    exact h.party y q proxy hq hproxy

/-- Who joins is not set up at either side. -/
private theorem agree_joined {priority : Priority} {originator : Bool} {a : Arbitrator}
    (h : s.machines.Agree s.callType)
    (hadded : s.arbitrator.addParticipant x priority originator = .ok a) :
    Machines.Agree s.callType ⟨a, s.participants.insert x
      (.create s.callId x s.callType priority originator s.config.participant)⟩ := by
  simp only [Arbitrator.addParticipant] at hadded
  split at hadded
  · cases hadded
  cases hadded
  refine ⟨h.callType, fun y p proxy hget hproxy => ?_, fun hstart y proxy hproxy => ?_,
    fun hset => ?_⟩
  · rw [Roster.get?_insert] at hget hproxy
    split at hget
    · next heq =>
      rw [if_pos heq] at hproxy
      cases hget
      cases hproxy
      refine ⟨?_, iff_of_true rfl rfl⟩
      have hcall : s.arbitrator.callType = s.callType := h.callType
      rw [hcall]
      rfl
    · next hne =>
      rw [if_neg hne] at hproxy
      exact h.party y p proxy hget hproxy
  · rw [Roster.get?_insert] at hproxy
    split at hproxy
    · cases hproxy
      rfl
    · exact h.gathering.nobody hstart y proxy hproxy
  · exact ⟨x, _, (Roster.get?_insert ..).trans (if_pos rfl), rfl⟩

private theorem agree_left {u : Turn Arbitrator} (h : m.Agree callType)
    (hu : Arbitrator.clientRelease x ⟨m.arbitrator, out⟩ = .ok u) :
    Machines.Agree callType ⟨u.machine, m.participants.erase x⟩ := by
  have hpasses := Arbitrator.passes_clientRelease hu
  refine ⟨hpasses.callType.trans h.callType, fun y p proxy hget hproxy => ?_,
    Arbitrator.gathering_clientRelease hu h.gathering⟩
  have hproxy : (m.arbitrator.roster.erase x).get? y = some proxy :=
    (congrArg (·.get? y) hpasses.roster).symm.trans hproxy
  rw [Roster.get?_erase] at hget hproxy
  split at hget
  · cases hget
  · next hne =>
    rw [if_neg hne] at hproxy
    exact h.party y p proxy hget hproxy

/-- Every change keeps the rosters together. -/
theorem agree_change (hfit : s.machines.Fit config) (hchange : Change s out m)
    (h : s.machines.Agree s.callType) : m.Agree s.callType := by
  have hwaits {x : Ssrc} {p : Participant} (hget : s.participants.get? x = some p) : p.Waits :=
    (hfit.member x p hget).waits
  have hturns : ∀ s : ArbitratorState, s.turnover ⊆ s.turnover := fun _ => List.Subset.refl _
  have hsolos {x : Ssrc} {p : Participant} {input : Participant.Input}
      (hget : s.participants.get? x = some p) (hsolo : input.Solo p) :
      Machines.Agree s.callType
        ⟨s.arbitrator, s.participants.modify x fun _ => (p.handle input).machine⟩ :=
    ⟨h.callType, party_modify h.party hget fun proxy => matches_solo (hwaits hget) hsolo,
      h.gathering⟩
  cases hchange with
  | nothing => exact h
  | party hget hsolo => exact hsolos hget hsolo
  | received message => exact agree_passes ((Arbitrator.Passes.refl _).receive hturns message) h
  | expired ticket => exact agree_passes ((Arbitrator.Passes.refl _).expire hturns ticket) h
  | setUp hget hu => exact agree_setUp h hget hu
  | granted hget hu =>
    exact agree_passes ((Arbitrator.Passes.refl _).implicitFloorRequest hturns hu)
      (hsolos hget (.established true _))
  | joined hadded => exact agree_joined h hadded
  | left hget hu => exact agree_left h hu

private theorem agree_alters (hr : Reached config phase h r) (halters : Alters r r')
    (hactive : r.state.active = true) (hagree : r.state.machines.Agree r.state.callType) :
    r'.state.machines.Agree r'.state.callType := by
  obtain ⟨out, -, hchange, -, -⟩ := halters.exists_change
  rw [halters.callType]
  exact agree_change (hr.stage.fit hactive) hchange hagree

private theorem agree_alterations (halterations : Alterations config r r')
    (hactive : r.state.active = true) (hagree : r.state.machines.Agree r.state.callType) :
    r'.state.active = true ∧ r'.state.machines.Agree r'.state.callType := by
  induction halterations with
  | refl => exact ⟨hactive, hagree⟩
  | tail _ hlast ih =>
    obtain ⟨⟨phase, h, hr⟩, halters⟩ := hlast
    exact ⟨halters.active.trans ih.1, agree_alters hr halters ih.1 ih.2⟩

/-- Every step of a call that is not taken down keeps the rosters together. -/
private theorem Step.agree {phase' : Phase} (hr : Reached config phase h r)
    (hstep : Step phase r phase' r') (hphase : ∀ t, phase' ≠ .ending t)
    (hactive : r'.state.active = true)
    (hbefore : (∀ t, phase ≠ .ending t) → r.state.active = true →
      r.state.machines.Agree r.state.callType) :
    r'.state.machines.Agree r'.state.callType := by
  cases hstep with
  | performed op hinstant =>
    cases hrunning : r.state.active with
    | false =>
      rw [perform_of_over op hinstant hrunning] at hactive
      cases hrunning.symm.trans hactive
    | true =>
      exact (agree_alterations (alterations_perform hr op hinstant) hrunning
        (hbefore hphase hrunning)).2
  | started => exact hbefore nofun hactive
  | @delivered _ _ _ event scheduler _ hpop =>
    have hrunning := hr.stage.active_of_popDue hpop
    exact agree_alters hr (alters_deliver event scheduler r) hrunning (hbefore hphase hrunning)
  | settled => exact hbefore nofun hactive
  | ending => exact absurd rfl (hphase _)
  | ended => cases hactive

/-- As long as a call is not being taken down, its rosters are together. -/
theorem Reached.agree (hr : Reached config phase h r) (hactive : r.state.active = true)
    (hphase : ∀ t, phase ≠ .ending t) : r.state.machines.Agree r.state.callType := by
  refine hr.of_step (P := fun phase r => (∀ t, phase ≠ .ending t) → r.state.active = true →
    r.state.machines.Agree r.state.callType) (fun callId callType now _ _ => ?_)
    (fun hr hstep hbefore hphase hactive => hstep.agree hr hphase hactive hbefore) hphase hactive
  exact ⟨rfl, fun _ _ _ hget => (by cases hget), fun _ _ _ hproxy => (by cases hproxy),
    fun hset => (by cases hset)⟩

/-- In every call that is not down or being taken down, also between two events that are handed
over, the call and its arbitrator have the same parties, with the same standing; a party is where
every party begins exactly if the arbitrator does not take it for ready; and as long as the floor is
not open somebody is missing, so the set-up is over as soon as nobody is. -/
theorem rosters_agree (hr : Reached config phase h r) (hactive : r.state.active = true)
    (hphase : ∀ t, phase ≠ .ending t) :
    (∀ x, x ∈ r.state.participants.ssrcs ↔ x ∈ r.state.arbitrator.roster.ssrcs) ∧
      (∀ x p proxy, r.state.participants.get? x = some p →
        r.state.arbitrator.roster.get? x = some proxy → p.Matches proxy) ∧
      r.state.arbitrator.Gathering := by
  have hagree := hr.agree hactive hphase
  refine ⟨fun x => ?_, hagree.party, hagree.gathering⟩
  have hknown : r.state.arbitrator.roster.contains x = r.state.participants.contains x :=
    (hr.stage.fit hactive).known x
  rw [← Roster.contains_iff_mem, ← Roster.contains_iff_mem, hknown]

/-- Of two parties one is ready, so the other one is waited for. -/
theorem rosters_agree_half_ready :
    ∃ h r, play? [.join 1 5 true, .join 2 5 false, .setUp 1]
        ⟨Session.create 1 .basic {} 0, []⟩ = some r ∧
      Reached {} .resting h r ∧ r.state.active = true ∧
      (∀ x, x ∈ r.state.participants.ssrcs ↔ x ∈ r.state.arbitrator.roster.ssrcs) ∧
      r.state.arbitrator.state = .initialising ∧
      ∃ x proxy, r.state.arbitrator.roster.get? x = some proxy ∧ proxy.ready = false := by
  obtain ⟨r, hr, hcheck⟩ : ∃ r, play? [.join 1 5 true, .join 2 5 false, .setUp 1]
      ⟨Session.create 1 .basic {} 0, []⟩ = some r ∧
        (r.state.active && decide (r.state.arbitrator.state = .initialising)) = true :=
    (Option.any_eq_true _ _).mp (by decide +kernel)
  rw [Bool.and_eq_true, decide_eq_true_eq] at hcheck
  obtain ⟨hactive, hset⟩ := hcheck
  obtain ⟨h, hreached, -⟩ := (Reached.created 1 .basic 0).play? hr
  obtain ⟨hmembers, -, hgathering⟩ := rosters_agree hreached hactive nofun
  exact ⟨h, r, hr, hreached, hactive, hmembers, hset, hgathering.somebody hset⟩

end Session
end FloorControl
