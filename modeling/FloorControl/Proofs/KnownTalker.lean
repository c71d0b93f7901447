import FloorControl.Proofs.CallSteps
import FloorControl.Proofs.MutualExclusion
import FloorControl.Proofs.Reannouncement

/-!
# Who is known to talk

In a call without a second place there is one talker or none, and whoever has not the floor knows
which: it hears of every change, and late parties are told when the call is set up at them. There is
one exception. A participant that waits for the answer to its request does not heed that the floor
is idle, so it goes on taking the former talker for the talker until the next word of the floor.
-/

namespace FloorControl.Session

open Scene

variable {config : SessionConfig} {phase : Phase} {h : History} {r : Run} {s : Session} {x : Ssrc}
  {p : Participant}

/-- Whether the last that a party has heard is that the floor is idle, while it waited for the
answer to its request and took somebody for the talker. -/
def History.unheeding (h : History) (x : Ssrc) : Bool :=
  (h.heard? x).any fun w => w.unheeded && w.listener.talker.isSome

section Single

variable (hdual : config.arbitrator.dualFloorSupported = false)

include hdual

theorem Open.second_eq_none {I : History → Scene → Prop} (hopen : Open config I h s) :
    s.arbitrator.dual.talker = none := by
  cases hsecond : s.arbitrator.dual.talker with
  | none => rfl
  | some who =>
    have hplaced : s.arbitrator.places.second.isSome = true := by
      change s.arbitrator.dual.talker.isSome = true
      rw [hsecond]
      rfl
    have hsupported := hopen.orderly.sound.second_supported hplaced
    have hconfig : s.arbitrator.places.config = config.arbitrator := hopen.config
    change s.arbitrator.places.config.dualFloorSupported = true at hsupported
    rw [hconfig, hdual] at hsupported
    cases hsupported

/-- Without a talker in the second place that place is not given up. -/
private theorem hushed_cons {I : History → Scene → Prop} (hopen : Open config I h s)
    (what : Occurrence) (hhushed : h.hushed = false) :
    History.hushed (⟨s, what⟩ :: h) = false := by
  have hsecond := hopen.second_eq_none hdual
  rw [History.hushed, List.any_cons, Bool.or_eq_false_iff]
  refine ⟨?_, hhushed⟩
  cases what with
  | operation op => cases op <;> simp [Happening.hushes, DualFloor.isTalker, hsecond]
  | delivery event => cases event <;> simp [Happening.hushes, DualFloor.started, hsecond]

/-- Where there is no second place, none is given up without a word. -/
theorem not_hushed_reached (hr : Reached config phase h r) (hjoin : h.NoRejoin)
    (hassist : h.Unassisted) (hactive : r.state.active = true) (hphase : ∀ t, phase ≠ .ending t) :
    h.hushed = false := by
  induction hr with
  | created => rfl
  | @performed h r op hbefore hinstant ih =>
    have hwas : r.state.active = true := by
      by_contra hover
      rw [Bool.not_eq_true] at hover
      rw [perform_of_over op hinstant hover, hover] at hactive
      cases hactive
    have hopen := open_of_active hbefore hjoin.2 hassist.tail hwas (by simp)
    exact hushed_cons hdual hopen _ (ih hjoin.2 hassist.tail hwas (by simp))
  | started op hbefore htarget ih =>
    have hopen := open_of_active hbefore hjoin.2 hassist.tail hactive (by simp)
    exact hushed_cons hdual hopen _ (ih hjoin.2 hassist.tail hactive (by simp))
  | delivered hbefore huntil hpop ih =>
    have hwas := hbefore.stage.active_of_popDue hpop
    have hopen := open_of_active hbefore hjoin.2 hassist.tail hwas hphase
    exact hushed_cons hdual hopen _ (ih hjoin.2 hassist.tail hwas hphase)
  | settled hbefore hnone ih => exact ih hjoin hassist hactive (by simp)
  | ending => exact absurd rfl (hphase _)
  | ended => cases hactive

/-- When no message is on its way, only the holder is permitted to talk. -/
theorem holder_of_permission (hr : Reached config phase h r) (hjoin : h.NoRejoin)
    (hassist : h.Unassisted) (hmail : r.state.mail = [])
    (hget : r.state.participants.get? x = some p) (hp : p.state = .hasPermission) :
    r.state.holder? = some x := by
  rcases hr.open_or_closed (invariant_exclusive hdual) hjoin hassist with ⟨hopen, -⟩ | ⟨hclosed, -⟩
  · have htalks : mayTalk r.state.participants r.state.mail x = true := by
      rw [hmail, mayTalk, willTalk_iff, foreseen_nil, permits_of_get? hget]
      exact ⟨Roster.contains_of_get? hget, by simp [Participant.permitted, hp]⟩
    obtain ⟨who, hwho, rfl⟩ := hopen.invariant.holds x htalks
    exact Option.map_eq_some_iff.mpr ⟨who, hwho, rfl⟩
  · have hsilent := (hclosed.silent x p hget).1
    rw [hp] at hsilent
    cases hsilent

/-- In a call without a second place that is not taken down, when no message is on its way, every
participant at which the call is set up and which is not the holder knows the holder, or that there
is none, exactly if it has not failed to heed that the floor is idle. -/
theorem talker_known_iff (hr : Reached config phase h r) (hjoin : h.NoRejoin)
    (hassist : h.Unassisted) (hactive : r.state.active = true) (hphase : ∀ t, phase ≠ .ending t)
    (hmail : r.state.mail = []) (hget : r.state.participants.get? x = some p)
    (hstarted : p.state ≠ .startStop) (hholder : r.state.holder? ≠ some x) :
    p.talker = r.state.holder? ↔ h.unheeding x = false := by
  have hinf := informed_reached hr hjoin hassist hactive hphase
  have hopen := open_of_active hr hjoin hassist hactive hphase
  have hsilent : p.state ≠ .hasPermission := fun hp =>
    hholder (holder_of_permission hdual hr hjoin hassist hmail hget hp)
  have hknows : p.Knows (h.heard? x) False := by
    refine (hinf.knows x p hget hstarted).mono fun hcoming => ?_
    change Expects r.state.mail x at hcoming
    simp [hmail, Expects] at hcoming
  have hfits : r.state.arbitrator.places.Fits (h.hushed = true) x
      ((h.heard? x).map (·.message)) := by
    have hfits := hinf.fits x p hget hstarted
    change Arbitrator.Places.Fits _ _ x (lastWord x _ r.state.mail) at hfits
    rwa [hmail] at hfits
  have hknown := knows_holder_iff hfits hopen.orderly.sound.toOrderly
    (talker_of_knows hknows hsilent) (hopen.invariant x) hholder
  -- Nothing was ever said of a second talker, so only an idle floor can be out of date.
  have houtdated : (h.heard? x).any (·.outdated) = h.unheeding x := by
    have hloud := not_hushed_reached hdual hr hjoin hassist hactive hphase
    rw [History.unheeding]
    cases hheard : h.heard? x with
    | none => rfl
    | some w =>
      rw [hheard] at hfits
      have hsole := tellsSecond_of_fits hfits (hopen.second_eq_none hdual)
        (by simp [hloud])
      have hnamed := hopen.invariant x w hheard
      simp [Hearing.outdated, hnamed, hsole]
  rw [← houtdated]
  exact hknown

end Single

/-- A party that comes late learns of the talker when the call is set up at it. -/
theorem talker_known_late :
    ∃ h r p, play? [.join 1 5 true, .join 2 5 false, .setUp 1, .setUp 2, .push 1, .runUntilIdle,
        .join 3 5 false, .setUp 3, .runUntilIdle] ⟨Session.create 1 .basic {} 0, []⟩ = some r ∧
      Reached {} .resting h r ∧ r.state.active = true ∧ r.state.mail = [] ∧
      r.state.participants.get? 3 = some p ∧ p.state ≠ .startStop ∧ r.state.holder? ≠ some 3 ∧
      (p.talker = r.state.holder? ↔ h.unheeding 3 = false) := by
  have hplayed : ∃ r, play? [.join 1 5 true, .join 2 5 false, .setUp 1, .setUp 2, .push 1,
      .runUntilIdle, .join 3 5 false, .setUp 3, .runUntilIdle]
        ⟨Session.create 1 .basic {} 0, []⟩ = some r ∧
      (r.state.active && decide (r.state.mail = []) && decide (r.state.holder? ≠ some 3) &&
        (r.state.participants.get? 3).any (·.state ≠ .startStop)) = true :=
    (Option.any_eq_true _ _).mp (by decide +kernel)
  obtain ⟨r, hr, hcheck⟩ := hplayed
  simp only [Bool.and_eq_true, decide_eq_true_eq] at hcheck
  obtain ⟨⟨⟨hactive, hmail⟩, hholder⟩, hpresent⟩ := hcheck
  obtain ⟨p, hget, hp⟩ := (Option.any_eq_true _ _).mp hpresent
  rw [decide_eq_true_eq] at hp
  obtain ⟨h, hreached, hjoin, hassist⟩ := Reached.of_play? hr (by simp) (by simp)
  exact ⟨h, r, p, hr, hreached, hactive, hmail, hget, hp, hholder,
    talker_known_iff rfl hreached hjoin hassist hactive (by simp) hmail hget hp hholder⟩

/-- One party asks before the call is set up at the other, so that nobody answers. The other then
asks too, and takes the floor and gives it back: the first takes it for the talker still. -/
theorem former_talker_believed :
    ∃ h r p, Reached {} .resting h r ∧ h.NoRejoin ∧ h.Unassisted ∧ r.state.active = true ∧
      r.state.mail = [] ∧ r.state.participants.get? 1 = some p ∧ p.state ≠ .startStop ∧
      r.state.holder? = none ∧ p.talker = some 2 := by
  have hplayed : ∃ r, play? [.join 1 5 true, .join 2 5 false, .setUp 1, .push 1, .runUntilIdle,
      .setUp 2, .runUntilIdle, .push 2, .runUntilIdle, .releaseTalk 2, .runUntilIdle]
        ⟨Session.create 1 .basic {} 0, []⟩ = some r ∧
      (r.state.active && decide (r.state.mail = []) && decide (r.state.holder? = none) &&
        (r.state.participants.get? 1).any fun p =>
          decide (p.state ≠ .startStop) && decide (p.talker = some 2)) = true :=
    (Option.any_eq_true _ _).mp (by decide +kernel)
  obtain ⟨r, hr, hcheck⟩ := hplayed
  simp only [Bool.and_eq_true, decide_eq_true_eq] at hcheck
  obtain ⟨⟨⟨hactive, hmail⟩, hholder⟩, hpresent⟩ := hcheck
  obtain ⟨p, hget, hp⟩ := (Option.any_eq_true _ _).mp hpresent
  simp only [Bool.and_eq_true, decide_eq_true_eq] at hp
  obtain ⟨h, hreached, hjoin, hassist⟩ := Reached.of_play? hr (by simp) (by simp)
  exact ⟨h, r, p, hreached, hjoin, hassist, hactive, hmail, hget, hp.1, hholder, hp.2⟩

end FloorControl.Session
