import FloorControl.Proofs.RosterAgreement

/-!
# Grants with the establishment of a call

When a call is established with a party that is granted the floor with it, the party and the
arbitrator are told at once, and neither learns what the other makes of it. The party takes the
floor if it wants nothing at the time. The arbitrator gives it only while it is idle, and only to a
party that may talk; during the set-up it remembers the party, and at any other time it does
nothing. This module says exactly when the two agree, and shows two calls in which they do not.
-/

namespace FloorControl

namespace Arbitrator

variable {t u : Turn Arbitrator} {x : Ssrc}

def seats (a : Arbitrator) (x : Ssrc) : Bool := a.isHolder x || a.dual.isTalker x

/-- Whether a party has the floor or the second place, or is to have the floor when everybody is
ready. -/
def accepts (a : Arbitrator) (x : Ssrc) : Bool :=
  a.seats x || (a.state = .initialising && a.implicitRequest = some x)

theorem seats_iff_mem {a : Arbitrator} : a.seats x = true ↔ x ∈ a.places.talkers :=
  mem_talkers_places.symm

theorem accepts_iff {a : Arbitrator} : a.accepts x = true ↔
    a.seats x = true ∨ a.state = .initialising ∧ a.implicitRequest = some x := by
  simp [accepts]

/-- What comes of granting the floor to a party that has not asked in person. -/
theorem implicitFloorRequest_cases (hu : implicitFloorRequest x t = .ok u) :
    (∃ who, t.machine.state = .idle ∧ who.ssrc = x ∧ MayTalk t.machine.roster x ∧
        u = grant who t) ∨
      (t.machine.state = .initialising ∧
        u = t.update fun a => { a with implicitRequest := some x }) ∨
      (t.machine.state ≠ .initialising ∧
        (t.machine.state = .idle → ¬ MayTalk t.machine.roster x) ∧ u = t) := by
  simp only [implicitFloorRequest] at hu
  split at hu
  · cases hu
  cases hu
  cases hstate : t.machine.state with
  | idle =>
    rcases grantImplicit_cases x t with ⟨hmay, heq⟩ | ⟨who, rfl, hmay, heq⟩
    · exact .inr (.inr ⟨by simp, fun _ => hmay, heq⟩)
    · exact .inl ⟨who, rfl, rfl, hmay, heq⟩
  | initialising => exact .inr (.inl ⟨rfl, rfl⟩)
  | startStop | taken | pendingRevoke | releasing =>
    exact .inr (.inr ⟨by simp, by simp, rfl⟩)

/-- Who is accepted in the end: whoever the floor can be given to, whoever comes during the set-up,
and whoever has it already. -/
theorem accepts_implicitFloorRequest (hu : implicitFloorRequest x t = .ok u) :
    u.machine.accepts x = true ↔
      (t.machine.state = .idle ∧ MayTalk t.machine.roster x) ∨
        t.machine.state = .initialising ∨ t.machine.seats x = true := by
  rcases implicitFloorRequest_cases hu with
    ⟨who, hstate, rfl, hmay, rfl⟩ | ⟨hstate, rfl⟩ | ⟨hset, hidle, rfl⟩
  · refine iff_of_true (accepts_iff.mpr (.inl (seats_iff_mem.mpr ?_))) (.inl ⟨hstate, hmay⟩)
    rw [places_grant, Places.mem_talkers]
    exact .inl ⟨who, rfl, rfl⟩
  · exact iff_of_true (accepts_iff.mpr (.inr ⟨hstate, rfl⟩)) (.inr (.inl hstate))
  · rw [accepts_iff]
    constructor
    · exact fun h => .inr (.inr (h.resolve_right fun hpending => hset hpending.1))
    · rintro (⟨hstate, hmay⟩ | hstate | hseats)
      · exact absurd hmay (hidle hstate)
      · exact absurd hstate hset
      · exact .inl hseats

theorem roster_implicitFloorRequest (hu : implicitFloorRequest x t = .ok u) :
    u.machine.roster = t.machine.roster := by
  rcases implicitFloorRequest_cases hu with ⟨who, -, -, -, rfl⟩ | ⟨-, rfl⟩ | ⟨-, -, rfl⟩
  · exact congrArg Places.roster (places_grant who)
  · rfl
  · rfl

end Arbitrator

/-- A party that is granted the floor takes it if it wants nothing at the time. -/
theorem Participant.permitted_established_iff (p : Participant) (priority : Priority) :
    p.state ≠ .hasPermission ∧
        (p.handle (.established true priority)).machine.state = .hasPermission ↔
      p.state = .idle := by
  simp only [handle, callEstablished, Bool.true_and]
  split
  · next hidle =>
    have hidle : p.state = .idle := of_decide_eq_true hidle
    exact iff_of_true ⟨by simp [hidle], by simp [takeFloor, tellGranted]⟩ hidle
  · next hidle =>
    have hidle : p.state ≠ .idle := fun h => hidle (decide_eq_true h)
    exact iff_of_false (fun h => h.1 h.2) hidle

namespace Session

variable {config : SessionConfig} {h : History} {r : Run} {x : Ssrc} {p : Participant}

/-- The arbitrator lets exactly those talk who are not there to listen only. -/
theorem mayTalk_iff (hr : Reached config .resting h r) (hactive : r.state.active = true)
    (hget : r.state.participants.get? x = some p) :
    Arbitrator.MayTalk r.state.arbitrator.roster x ↔ p.receiveOnly = false := by
  obtain ⟨proxy, hproxy⟩ := Roster.exists_get?_of_contains (hr.known hactive hget)
  have hstanding := ((hr.agree hactive nofun).party x p proxy hget hproxy).standing
  have hlisten : p.receiveOnly = proxy.receiveOnly := congrArg (·.receiveOnly) hstanding
  rw [hlisten]
  constructor
  · rintro ⟨other, hother, htalks⟩
    cases hproxy.symm.trans hother
    exact htalks
  · exact fun htalks => ⟨proxy, hproxy, htalks⟩

/-- Establishing a call with a party that is there, and granting it the floor, is never refused, and
a party that wanted nothing may talk from then on, and no other that could not before. The
arbitrator has accepted it exactly if the floor was idle and the party is not there to listen only,
if the set-up was under way, or if the party had the floor or the second place already; and in no
case does a party that is there to listen only have either. -/
theorem established_accepted_iff (hr : Reached config .resting h r)
    (hactive : r.state.active = true) (hget : r.state.participants.get? x = some p) :
    (establish x true r).1 = .ok () ∧
      (∃ q, (establish x true r).2.state.participants.get? x = some q ∧
        (p.state ≠ .hasPermission ∧ q.state = .hasPermission ↔ p.state = .idle)) ∧
      ((establish x true r).2.state.arbitrator.accepts x = true ↔
        (r.state.arbitrator.state = .idle ∧ p.receiveOnly = false) ∨
          r.state.arbitrator.state = .initialising ∨ r.state.arbitrator.seats x = true) ∧
      (p.receiveOnly = true → (establish x true r).2.state.arbitrator.seats x = false) := by
  obtain ⟨u, hu, heq⟩ := exists_establish (hr.known hactive hget) hactive hget
  have hmay := mayTalk_iff hr hactive hget
  have harbitrator : (establish x true r).2.state.arbitrator = u.machine := by
    rw [heq, state_dispatch]
    rfl
  have hmessages : (p.handle (.established true p.priority)).out.messages = [] :=
    (quiet_callEstablished true p.priority p).1
  refine ⟨by rw [heq], ⟨_, ?_, p.permitted_established_iff p.priority⟩, ?_, fun hlisten => ?_⟩
  · rw [heq, state_dispatch]
    simp [setArbitrator, setParticipant, Roster.get?_modify, hget]
  · rw [harbitrator, ← hmay]
    exact Arbitrator.accepts_implicitFloorRequest hu
  · rw [harbitrator, Bool.eq_false_iff]
    intro hseats
    have hsound := Arbitrator.sound_implicitFloorRequest hr.stage.sound hmessages hu
    have htalks := hsound.entitled x
      (Arbitrator.Places.talkers_subset_placed (Arbitrator.seats_iff_mem.mp hseats))
    have hroster : u.machine.places.roster = r.state.arbitrator.roster :=
      Arbitrator.roster_implicitFloorRequest hu
    rw [hroster, hmay, hlisten] at htalks
    cases htalks

def assembled : List Operation :=
  [.join 1 5 true, .join 2 5 false, .setUpAll, .runUntilIdle]

/-- The floor is idle, so the originator gets it with the establishment of the call. -/
theorem established_accepted_iff_assembled :
    ∃ h r p, play? assembled ⟨Session.create 1 .basic {} 0, []⟩ = some r ∧
      Reached {} .resting h r ∧ r.state.active = true ∧
      r.state.participants.get? 1 = some p ∧ p.state = .idle ∧
      (establish 1 true r).1 = .ok () ∧
      (establish 1 true r).2.state.arbitrator.accepts 1 = true := by
  have hplayed : (play? assembled ⟨Session.create 1 .basic {} 0, []⟩).any (fun r =>
      r.state.active && decide (r.state.arbitrator.state = .idle) &&
        (r.state.participants.get? 1).any fun p => p.state = .idle && !p.receiveOnly) = true := by
    decide +kernel
  obtain ⟨h, r, hr, hreached, hcheck⟩ := exists_reached_of_play? hplayed
  simp only [Bool.and_eq_true, decide_eq_true_eq] at hcheck
  obtain ⟨⟨hactive, hfloor⟩, hparty⟩ := hcheck
  obtain ⟨p, hget, hparty⟩ := (Option.any_eq_true _ _).mp hparty
  simp only [Bool.and_eq_true, decide_eq_true_eq, Bool.not_eq_true'] at hparty
  obtain ⟨hidle, htalks⟩ := hparty
  obtain ⟨hok, -, haccepts, -⟩ := established_accepted_iff hreached hactive hget
  exact ⟨h, r, p, hr, hreached, hactive, hget, hidle, hok, haccepts.mpr (.inl ⟨hfloor, htalks⟩)⟩

/-- After the operations the second party, which wanted nothing, is established with the floor: it
may talk, and the arbitrator has not accepted it. -/
def Unfounded (callType : CallType) (ops : List Operation) : Prop :=
  ∃ h r p q, play? ops ⟨Session.create 1 callType {} 0, []⟩ = some r ∧ Reached {} .resting h r ∧
    r.state.active = true ∧ r.state.participants.get? 2 = some p ∧ p.state = .idle ∧
    (establish 2 true r).1 = .ok () ∧
    (establish 2 true r).2.state.participants.get? 2 = some q ∧ q.state = .hasPermission ∧
    (establish 2 true r).2.state.arbitrator.accepts 2 = false

private theorem unfounded_of_play? {callType : CallType} {ops : List Operation}
    (hcheck : (play? ops ⟨Session.create 1 callType {} 0, []⟩).any (fun r =>
      r.state.active && ((r.state.participants.get? 2).any fun p => p.state = .idle) &&
        decide ((establish 2 true r).1 = .ok ()) &&
        ((establish 2 true r).2.state.participants.get? 2).any (·.state = .hasPermission) &&
        !(establish 2 true r).2.state.arbitrator.accepts 2) = true) :
    Unfounded callType ops := by
  obtain ⟨h, r, hr, hreached, hcheck⟩ := exists_reached_of_play? hcheck
  simp only [Bool.and_eq_true, decide_eq_true_eq, Bool.not_eq_true'] at hcheck
  obtain ⟨⟨⟨⟨hactive, hbefore⟩, hok⟩, hafter⟩, hrefused⟩ := hcheck
  obtain ⟨p, hget, hidle⟩ := (Option.any_eq_true _ _).mp hbefore
  obtain ⟨q, hget', hpermitted⟩ := (Option.any_eq_true _ _).mp hafter
  exact ⟨h, r, p, q, hr, hreached, hactive, hget, of_decide_eq_true hidle, hok, hget',
    of_decide_eq_true hpermitted, hrefused⟩

/-- A party is established with the floor while another one has it, and so is one that is there to
listen only. -/
theorem established_unfounded :
    Unfounded .basic (assembled ++ [.push 1, .runUntilIdle]) ∧ Unfounded .broadcast assembled :=
  ⟨unfounded_of_play? (by decide +kernel), unfounded_of_play? (by decide +kernel)⟩

end Session
end FloorControl
