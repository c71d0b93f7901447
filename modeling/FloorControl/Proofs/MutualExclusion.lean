import FloorControl.Proofs.CallMoves
import FloorControl.Proofs.Foresight

/-!
# One talker at a time

In a call without a second place, at most one participant is permitted to talk at any moment. The
arbitrator alone cannot tell: a party that has lost the floor goes on talking until it is told so.
But the party is told before anybody else is granted the floor, and messages arrive in the order in
which they were sent. So at no point while the mail arrives will two parties be permitted to talk,
and whoever will be in the end is the holder.
-/

namespace FloorControl

namespace Scene

open Arbitrator

variable {participants : Roster Participant} {first : List SessionEvent} {x : Ssrc}

/-- Whether a party will be permitted to talk when the given messages have arrived, if nothing but
an idle floor takes the permission away. -/
def mayTalk (participants : Roster Participant) : List SessionEvent → Ssrc → Bool :=
  willTalk participants (permits participants) fun _ => Message.isIdle

/-- At no point while the mail arrives may two parties talk, and in the end only the holder may. -/
structure Exclusive (s : Scene) : Prop where
  alone : ∀ coming, coming <+: s.mail → ∀ x y, mayTalk s.participants coming x = true →
    mayTalk s.participants coming y = true → x = y
  holds : ∀ x, mayTalk s.participants s.mail x = true → ∃ who ∈ s.places.holder, who.ssrc = x

variable {before after : Places} {asked : Ssrc → Prop} {messages : List Envelope}

/-- Without a second place the only talker is the holder. -/
private theorem exists_holder_of_mem_talkers (hsound : after.Sound)
    (hdual : after.config.dualFloorSupported = false) (h : x ∈ after.talkers) :
    ∃ who ∈ after.holder, who.ssrc = x := by
  refine (Places.mem_talkers.mp h).resolve_right ?_
  rintro ⟨s, hs, -⟩
  have hsupported := hsound.second_supported (Option.isSome_of_mem hs)
  rw [hdual] at hsupported
  cases hsupported

/-- Whoever may talk after a part of what a step of the arbitrator says either held the floor before
the step, and then nobody else has been granted it, or holds it after the step. -/
private theorem mayTalk_leads (hleads : before.Leads asked messages after)
    (hdual : after.config.dualFloorSupported = false)
    (hknown : ∀ ssrc, after.roster.contains ssrc = participants.contains ssrc)
    (hrest : ∀ ssrc, mayTalk participants first ssrc = true →
      ∃ who ∈ before.holder, who.ssrc = ssrc)
    {part : List SessionEvent} (hpart : part <+: messages.map (·.arrival)) :
    (∀ ssrc, mayTalk participants (first ++ part) ssrc = true →
        ∃ who ∈ after.holder, who.ssrc = ssrc) ∨
      (part ≠ messages.map (·.arrival) ∧ ∀ ssrc, mayTalk participants (first ++ part) ssrc = true →
        ∃ who ∈ before.holder, who.ssrc = ssrc) := by
  have hgranted : ∀ ssrc, ∀ e ∈ part, e.tells ssrc Message.isGrant = true →
      ∃ who ∈ after.holder, who.ssrc = ssrc := fun ssrc e he hgrant =>
    exists_holder_of_mem_talkers hleads.sound hdual
      (mem_talkers_of_granted hleads.faithful (hpart.subset he) hgrant)
  by_cases hstays : ∀ ssrc, mayTalk participants first ssrc = true →
      ∃ who ∈ after.holder, who.ssrc = ssrc
  · refine .inl fun ssrc htalks => ?_
    rcases willTalk_or_granted htalks with hfirst | ⟨e, he, hgrant⟩
    · exact hstays ssrc hfirst
    · exact hgranted ssrc e he hgrant
  simp only [not_forall] at hstays
  obtain ⟨former, hformer, hgone⟩ := hstays
  obtain ⟨h, hholder, rfl⟩ := hrest former hformer
  have hcontains : after.roster.contains h.ssrc = true := by
    rw [hknown]
    exact (willTalk_iff.mp hformer).1
  obtain ⟨told, rest, ack, rfl, hidle, hquiet⟩ := hleads.dismissed h hholder
    (fun who hwho heq => hgone ⟨who, hwho, heq⟩) hcontains
  have hidle : .toParticipant h.ssrc (.idle ack) ∈ told.map (·.arrival) :=
    List.mem_map.mpr ⟨_, hidle, rfl⟩
  -- What is said up to the grants, and what follows once the former holder knows.
  obtain ⟨early, late, rfl, hearly, hsplit⟩ : ∃ l m, part = l ++ m ∧
      l <+: told.map (·.arrival) ∧ (l = told.map (·.arrival) ∨ m = []) := by
    rw [List.map_append] at hpart
    rcases prefix_append_cases hpart with hpart | ⟨m, -, rfl⟩
    · exact ⟨part, [], by simp, hpart, .inr rfl⟩
    · exact ⟨_, m, rfl, List.prefix_refl _, .inl rfl⟩
  have hnone : ∀ ssrc, ∀ e ∈ early, e.tells ssrc Message.isGrant = false := by
    intro ssrc e he
    obtain ⟨letter, hletter, rfl⟩ := List.mem_map.mp (hearly.subset he)
    cases hevent : letter.arrival with
    | toParticipant receiver message =>
      have hmessage : letter.message = message := by
        simp only [Envelope.arrival] at hevent
        split at hevent <;> cases hevent
        rfl
      have hquiet := hquiet letter hletter
      rw [hmessage] at hquiet
      simp [SessionEvent.tells, hquiet]
    | _ => rfl
  by_cases htold : .toParticipant h.ssrc (.idle ack) ∈ early
  · refine .inl fun ssrc htalks => ?_
    rw [← List.append_assoc] at htalks
    rcases willTalk_or_granted htalks with hfirst | ⟨e, he, hgrant⟩
    · obtain ⟨hfirst, hnot⟩ := willTalk_of_no_grant hfirst (hnone ssrc)
      obtain ⟨who, hwho, rfl⟩ := hrest ssrc hfirst
      rw [Option.mem_unique hwho hholder] at hnot
      simpa [SessionEvent.tells, Message.isIdle] using hnot _ htold
    · exact hgranted ssrc e (List.mem_append_right _ he) hgrant
  · have hnil : late = [] := hsplit.resolve_left fun heq => htold (heq ▸ hidle)
    rw [hnil, List.append_nil]
    refine .inr ⟨?_, fun ssrc htalks => hrest ssrc (willTalk_of_no_grant htalks (hnone ssrc)).1⟩
    rintro rfl
    exact htold (by simp [hidle])

/-- A step of the arbitrator keeps talk exclusive. -/
private theorem exclusive_leads {rest : List SessionEvent} {departed : List Ssrc}
    (hleads : before.Leads asked messages after) (hdual : before.config.dualFloorSupported = false)
    (hknown : ∀ ssrc, after.roster.contains ssrc = participants.contains ssrc)
    (h : Exclusive ⟨before, participants, rest, departed⟩) {gone : List Ssrc} :
    Exclusive ⟨after, participants, rest ++ messages.map (·.arrival), gone⟩ := by
  have hdual : after.config.dualFloorSupported = false := hleads.config ▸ hdual
  constructor
  · intro coming hcoming x y hx hy
    rcases prefix_append_cases hcoming with hcoming | ⟨part, hpart, rfl⟩
    · exact h.alone coming hcoming x y hx hy
    · rcases mayTalk_leads hleads hdual hknown h.holds hpart with hall | ⟨-, hall⟩
      all_goals
        obtain ⟨who, hwho, rfl⟩ := hall x hx
        obtain ⟨who', hwho', rfl⟩ := hall y hy
        rw [Option.mem_unique hwho hwho']
  · intro x hx
    rcases mayTalk_leads hleads hdual hknown h.holds (List.prefix_refl _) with hall | ⟨hne, -⟩
    · exact hall x hx
    · exact absurd rfl hne

/-- What arrives at the participants lets nobody talk who could not have talked. -/
private theorem mayTalk_of_anatomy {cue : Option SessionEvent} {s s' : Scene}
    {rest letters coming : List SessionEvent} (hanatomy : Anatomy cue s s' rest letters)
    (hcoming : coming <+: rest) (h : mayTalk s'.participants coming x = true) :
    mayTalk s.participants (arriving cue ++ coming) x = true := by
  refine willTalk_of_anatomy hanatomy ?_ ?_ id hcoming h
  · intro _ hsame hnow
    rwa [permits_congr hsame] at hnow
  · intro p q input messages hbrings hget hconduct hget' hq
    rw [permits_of_get? hget'] at hq
    rw [permits_of_get? hget]
    refine permitted_arriving hbrings hconduct hq ?_
    rintro message rfl - hidle
    simp [Participant.strips, hidle]

private theorem Exclusive.of_letters {s : Scene} {letters : List SessionEvent} (h : s.Exclusive)
    (hletters : ∀ e ∈ letters, ∃ message, e = .toArbitrator message) :
    Exclusive { s with mail := s.mail ++ letters } := by
  have hsame : ∀ part, part <+: letters → ∀ x,
      mayTalk s.participants (s.mail ++ part) x = true → mayTalk s.participants s.mail x = true :=
    fun part hpart x hx => (willTalk_of_no_grant hx fun e he =>
      tells_toArbitrator (hletters e (hpart.subset he))).1
  constructor
  · intro coming hcoming x y hx hy
    rcases prefix_append_cases hcoming with hcoming | ⟨part, hpart, rfl⟩
    · exact h.alone coming hcoming x y hx hy
    · exact h.alone s.mail (List.prefix_refl _) x y (hsame part hpart x hx) (hsame part hpart y hy)
  · intro x hx
    exact h.holds x (hsame letters (List.prefix_refl _) x hx)

/-- Every move of a call without a second place keeps talk exclusive. -/
theorem exclusive_move {cue : Option SessionEvent} {s s' : Scene} (hmove : Move cue s s')
    (horderly : s.Orderly) (hdual : s.places.config.dualFloorSupported = false)
    (h : s.Exclusive) : s'.Exclusive := by
  have hknown := (orderly_move hmove horderly).known
  obtain ⟨rest, letters, hanatomy⟩ := exists_anatomy hmove horderly
  have hrest : ∀ places, places.holder = s.places.holder →
      Exclusive ⟨places, s'.participants, rest, s'.departed⟩ := by
    intro places hholder
    have hmail := hanatomy.before
    constructor
    · intro coming hcoming x y hx hy
      refine h.alone (arriving cue ++ coming) ?_ x y (mayTalk_of_anatomy hanatomy hcoming hx)
        (mayTalk_of_anatomy hanatomy hcoming hy)
      rw [hmail]
      exact (List.prefix_append_right_inj _).mpr hcoming
    · intro x hx
      have hx := mayTalk_of_anatomy hanatomy (List.prefix_refl _) hx
      rw [← hmail] at hx
      change ∃ who ∈ places.holder, who.ssrc = x
      rw [hholder]
      exact h.holds x hx
  obtain ⟨places', participants', mail', departed'⟩ := s'
  obtain rfl : mail' = rest ++ letters := hanatomy.after
  rcases hanatomy.settles with ⟨hplaces, -, hletters⟩ | ⟨hleads, -, rfl⟩
  · have hplaces : places' = { s.places with roster := places'.roster } := hplaces
    exact (hrest places' (by rw [hplaces])).of_letters hletters
  · exact exclusive_leads hleads hdual hknown (hrest _ rfl)

end Scene

namespace Session

open Scene

variable {config : SessionConfig} {phase : Phase} {h : History} {r : Run} {x y : Ssrc}
  {p q : Participant}

theorem invariant_exclusive (hdual : config.arbitrator.dualFloorSupported = false) :
    Invariant config fun _ s => s.Exclusive where
  created callId callType now := by
    have hnobody : ∀ coming x, mayTalk .empty coming x = false := fun _ _ => rfl
    constructor
    · intro coming _ x _ hx
      cases (hnobody coming x).symm.trans hx
    · intro x hx
      cases (hnobody _ x).symm.trans hx
  operated _ _ _ _ _ h := h
  moved _ _ _ horderly hconfig hmove h := exclusive_move hmove horderly (hconfig ▸ hdual) h
  delivered _ _ _ _ horderly hconfig hmove h := exclusive_move hmove horderly (hconfig ▸ hdual) h

/-- In a call without a second place no two participants are permitted to talk at one moment,
however its operations and the arrivals of its messages and tickets come, as long as no party joins
again after it has left and nobody is granted the floor with the establishment of the call. -/
theorem unique_talker (hr : Reached config phase h r)
    (hdual : config.arbitrator.dualFloorSupported = false) (hjoin : h.NoRejoin)
    (hassist : h.Unassisted) (hx : r.state.participants.get? x = some p)
    (hy : r.state.participants.get? y = some q) (hp : p.state = .hasPermission)
    (hq : q.state = .hasPermission) : x = y := by
  rcases hr.open_or_closed (invariant_exclusive hdual) hjoin hassist with ⟨hopen, -⟩ | ⟨hclosed, -⟩
  · have htalks : ∀ {z : Ssrc} {p : Participant}, r.state.participants.get? z = some p →
        p.state = .hasPermission → mayTalk r.state.participants [] z = true := by
      intro z p hget hstate
      rw [mayTalk, willTalk_iff, foreseen_nil, permits_of_get? hget]
      exact ⟨Roster.contains_of_get? hget, by simp [Participant.permitted, hstate]⟩
    exact hopen.invariant.alone [] List.nil_prefix x y (htalks hx hp) (htalks hy hq)
  · have hsilent := (hclosed.silent x p hx).1
    rw [hp] at hsilent
    cases hsilent

/-- When the floor has changed hands, the party that has accepted it is the only one permitted to
talk. -/
theorem unique_talker_handover :
    ∃ h r p, play? (handover ++ [.accept 2]) ⟨Session.create 1 .basic {} 0, []⟩ = some r ∧
      Reached {} .resting h r ∧ r.state.participants.get? 2 = some p ∧
      p.state = .hasPermission ∧ ∀ y q, r.state.participants.get? y = some q →
        q.state = .hasPermission → 2 = y := by
  have hplayed : ∃ r, play? (handover ++ [.accept 2]) ⟨Session.create 1 .basic {} 0, []⟩ = some r ∧
      (r.state.participants.get? 2).any (·.state = .hasPermission) = true :=
    (Option.any_eq_true _ _).mp (by decide +kernel)
  obtain ⟨r, hr, htalks⟩ := hplayed
  obtain ⟨p, hget, hp⟩ := (Option.any_eq_true _ _).mp htalks
  have hp : p.state = .hasPermission := of_decide_eq_true hp
  obtain ⟨h, hreached, hjoin, hassist⟩ := Reached.of_play? hr (by simp [handover])
    (by simp [handover])
  exact ⟨h, r, p, hr, hreached, hget, hp, fun y q hy hq =>
    unique_talker hreached rfl hjoin hassist hget hy hp hq⟩

end Session
end FloorControl
