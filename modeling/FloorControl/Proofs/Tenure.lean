import FloorControl.Proofs.ArbitratorRun
import FloorControl.Proofs.ArbitratorTimers

/-!
# How long a party may keep the floor

T2 bounds how long a party may talk, and T3 how long it may take to give way. Neither bound would be
worth anything if the timer could be started again in the meantime: by a request that is repeated,
by a party that comes late, by another timer. As long as the same party has the floor in the same
state, whatever happens to the arbitrator, its T2 and T3 have the tickets that they had.
-/

namespace FloorControl.Arbitrator

/-- Who has the floor, and the timers that bound how long. -/
structure Tenure where
  state : ArbitratorState
  holder : Option Talker
  t2 : Timer
  t3 : Timer

def tenure (a : Arbitrator) : Tenure := ⟨a.state, a.holder, a.t2, a.t3⟩

/-- If the same party still has the floor in the same state, neither T2 nor T3 was started again. -/
def Tenure.Lasts (before after : Tenure) : Prop :=
  after.state = before.state → after.holder.map (·.ssrc) = before.holder.map (·.ssrc) →
    (after.t2.running = true → after.t2.ticket = before.t2.ticket) ∧
      (after.t3.running = true → after.t3.ticket = before.t3.ticket)

namespace Tenure.Lasts

variable {before after : Tenure}

theorem of_tickets (h2 : after.t2.ticket = before.t2.ticket)
    (h3 : after.t3.ticket = before.t3.ticket) : before.Lasts after :=
  fun _ _ => ⟨fun _ => h2, fun _ => h3⟩

theorem of_eq (h : after = before) : before.Lasts after := h ▸ of_tickets rfl rfl

theorem of_state_ne (h : after.state ≠ before.state) : before.Lasts after :=
  fun hstate => absurd hstate h

theorem of_holder_ne (h : after.holder.map (·.ssrc) ≠ before.holder.map (·.ssrc)) :
    before.Lasts after :=
  fun _ hholder => absurd hholder h

end Tenure.Lasts

open Tenure

variable {t u : Turn Arbitrator}

theorem tenure_refreshT4 : (refreshT4 t).machine.tenure = t.machine.tenure := by
  simp only [refreshT4]
  split
  · split <;> rfl
  · rfl

theorem tenure_queueOrDeny (who : Talker) (willing : Bool) :
    (queueOrDeny who willing t).machine.tenure = t.machine.tenure := by
  simp only [queueOrDeny]
  split
  · split
    · rw [tenure_refreshT4, machine_sendPosition]
      rfl
    · rw [machine_deny]
  · rw [machine_deny]

/-- Whoever is told to give way does not talk on in the same state. -/
theorem lasts_revokeHolder {who : Talker} (cause : RevokeCause) {before : Tenure}
    (hholder : t.machine.holder = some who) (hstate : before.state = .taken) :
    before.Lasts (revokeHolder cause t).machine.tenure := by
  refine .of_state_ne ?_
  have hrevoked : (revokeHolder cause t).machine.state = .pendingRevoke :=
    congrArg Places.state (places_revokeHolder cause (t := t) hholder)
  simp [tenure, hrevoked, hstate]

/-- A party whose hold has ended does not have the floor. -/
theorem lasts_endHolder {who : Talker} {before : Tenure} (hending : Ending t.machine.places who)
    (hout : t.out.messages = []) (hholder : before.holder = some who) :
    before.Lasts (endHolder t).machine.tenure := by
  refine .of_holder_ne fun hsame => ?_
  obtain ⟨-, hgone, -⟩ := leads_endHolder (fun _ => False) hending hout
  rw [hholder, Option.map_some] at hsame
  obtain ⟨next, hnext, hssrc⟩ := Option.map_eq_some_iff.mp hsame
  have htalks : next.ssrc ∈ (endHolder t).machine.places.talkers :=
    Places.holder_mem_talkers hnext
  exact hgone (hssrc ▸ Places.talkers_subset_placed htalks)

/-- Somebody has the floor while it is occupied, and whoever comes next may talk. -/
theorem exists_ending (hsound : t.machine.places.Sound) (hoccupied : t.machine.occupied = true) :
    ∃ who, t.machine.holder = some who ∧ Ending t.machine.places who := by
  obtain ⟨who, hholder⟩ := hsound.exists_holder hoccupied
  exact ⟨who, hholder, hsound.toOrderly, hholder,
    fun ssrc hplaced _ => hsound.entitled ssrc hplaced⟩

theorem tenure_expireT1 : (expireT1 t).machine.tenure = t.machine.tenure := by
  have hstarted : ∀ u : Turn Arbitrator, (startT1 u).machine.tenure = u.machine.tenure :=
    fun _ => rfl
  simp only [expireT1]
  split
  · rw [hstarted, machine_sendTo]
  · rfl

theorem tenure_expireT4 : (expireT4 t).machine.tenure = t.machine.tenure := by
  rw [expireT4, tenure_refreshT4, machine_sendPositions]

theorem tenure_expireT7 : (expireT7 t).machine.tenure = t.machine.tenure := by
  simp only [expireT7]
  split
  · split <;> rfl
  · rfl

theorem tenure_expireT20 (ticket : Ticket) :
    (expireT20 ticket t).machine.tenure = t.machine.tenure := by
  simp only [expireT20]
  split
  · rw [Turn.machine_tell, machine_sendTo]
    rfl
  all_goals rfl

section Steps

variable (hsound : t.machine.places.Sound) (hout : t.out.messages = [])
  (hoccupied : t.machine.occupied = true)

include hoccupied

private theorem taken_or_pendingRevoke :
    t.machine.state = .taken ∨ t.machine.state = .pendingRevoke := by
  cases hstate : t.machine.state <;> simp_all [occupied, ArbitratorState.occupied]

private theorem lasts_callInitialized {ssrc : Ssrc} (hu : callInitialized ssrc t = .ok u) :
    t.machine.tenure.Lasts u.machine.tenure := by
  simp only [callInitialized] at hu
  split at hu
  · cases hu
  · cases hu
    refine .of_eq ?_
    rcases taken_or_pendingRevoke hoccupied with hstate | hstate <;>
      simp only [Turn.machine_update, hstate] <;> split
    · rw [machine_sendTo]
      rfl
    · rfl
    · rw [machine_sendTo]
      rfl
    · rfl

private theorem lasts_implicitFloorRequest {ssrc : Ssrc}
    (hu : implicitFloorRequest ssrc t = .ok u) : t.machine.tenure.Lasts u.machine.tenure := by
  simp only [implicitFloorRequest] at hu
  split at hu
  · cases hu
  · cases hu
    refine .of_eq ?_
    rcases taken_or_pendingRevoke hoccupied with hstate | hstate <;> simp only [hstate]

include hsound hout in
private theorem lasts_clientRelease {ssrc : Ssrc} (hu : clientRelease ssrc t = .ok u) :
    t.machine.tenure.Lasts u.machine.tenure := by
  by_cases hholds : t.machine.isHolder ssrc = true
  · -- a party that is not in the roster has no place
    refine .of_holder_ne fun hsame => ?_
    obtain ⟨who, hholder, hssrc⟩ := (Option.any_eq_true _ _).mp hholds
    have hkept : u.machine.holder.map (·.ssrc) = some ssrc := by
      refine hsame.trans ?_
      simpa [tenure, hholder] using hssrc
    obtain ⟨next, hnext, rfl⟩ := Option.map_eq_some_iff.mp hkept
    obtain ⟨-, hleads⟩ := leads_clientRelease (fun _ => False) hsound hout hu
    have htalks : next.ssrc ∈ u.machine.places.talkers := Places.holder_mem_talkers hnext
    have hknown := (hleads.sound.entitled _ (Places.talkers_subset_placed htalks)).contains
    simp [hleads.roster, Roster.contains_eq_isSome_get?, Roster.get?_erase] at hknown
  · have hrelieved : relieved ssrc (forgotten ssrc t) = refreshT4 (forgotten ssrc t) :=
      if_neg fun h => hholds (Bool.and_eq_true_iff.mp h).1
    have hforgotten : (relieved ssrc (forgotten ssrc t)).machine.tenure = t.machine.tenure := by
      rw [hrelieved, tenure_refreshT4]
      rfl
    have hstate : (relieved ssrc (forgotten ssrc t)).machine.state ≠ .initialising := by
      have hsame : (relieved ssrc (forgotten ssrc t)).machine.state = t.machine.state :=
        congrArg Tenure.state hforgotten
      rcases taken_or_pendingRevoke hoccupied with hstate | hstate <;> simp [hsame, hstate]
    rw [eq_of_clientRelease hu, if_neg hstate]
    exact .of_eq hforgotten

omit hoccupied in
private theorem lasts_requestWhileOccupied (r : Request) (receiveOnly : Bool) :
    t.machine.tenure.Lasts (requestWhileOccupied r receiveOnly t).machine.tenure := by
  have hreaction := reaction_requestWhileOccupied r receiveOnly t
  generalize requestWhileOccupied r receiveOnly t = u at hreaction ⊢
  cases hreaction with
  | holder | waiting | preemptor | listens =>
    refine .of_eq ?_
    simp only [machine_sendTo, machine_sendPosition, machine_sendPreemptorPosition, machine_deny]
  | second | seconded | parked => exact .of_eq rfl
  | preempted _ _ hholder _ _ hstate =>
    exact lasts_revokeHolder (t := Turn.update _ _) _ hholder hstate
  | @supplanted _ former _ _ hholder _ hstate =>
    have hkept := congrArg Tenure.holder (tenure_queueOrDeny (t := t) former true)
    exact lasts_revokeHolder (t := Turn.update _ _) _ (hkept.trans hholder) hstate
  | displaced => exact .of_eq (tenure_queueOrDeny (t := Turn.update _ _) _ _)
  | enlisted => exact .of_eq (tenure_queueOrDeny _ _)

include hsound hout in
private theorem lasts_receiveRelease (ssrc : Ssrc) :
    t.machine.tenure.Lasts (receiveRelease ssrc t).machine.tenure := by
  obtain ⟨who, hholder, hending⟩ := exists_ending hsound hoccupied
  simp only [receiveRelease, hoccupied, Bool.not_true, Bool.false_eq_true, if_false]
  split
  · exact lasts_endHolder hending hout hholder
  split
  · simp only [Turn.machine_update, hholder]
    exact .of_eq rfl
  · refine .of_eq ?_
    rw [tenure_refreshT4, sendTaken, Turn.machine_update, hholder, machine_sendTo]
    rfl

include hsound hout in
private theorem lasts_receive (message : Message) :
    t.machine.tenure.Lasts (receive message t).machine.tenure := by
  cases message with
  | request wish =>
    simp only [receive, receiveRequest]
    split
    · exact .of_eq rfl
    · rcases taken_or_pendingRevoke hoccupied with hstate | hstate <;> simp only [hstate] <;>
        exact lasts_requestWhileOccupied _ _
  | release ssrc => exact lasts_receiveRelease hsound hout hoccupied ssrc
  | queuePositionRequest ssrc =>
    simp only [receive, receiveQueuePositionRequest]
    split
    · exact .of_eq (by rw [machine_sendPosition])
    · split
      · exact .of_eq (by rw [machine_sendPreemptorPosition])
      · exact .of_eq rfl
  | ack ssrc acked =>
    refine .of_eq ?_
    simp only [receive, Turn.machine_update, receiveAck]
    split <;> rfl
  | granted | denied | idle | taken | revoke | queuePositionInfo => exact .of_eq rfl

include hsound hout in
private theorem lasts_expire (ticket : Ticket) :
    t.machine.tenure.Lasts (expire ticket t).machine.tenure := by
  obtain ⟨who, hholder, hending⟩ := exists_ending hsound hoccupied
  simp only [expire]
  split
  · split
    · exact .of_eq (tenure_expireT1 (t := Turn.update _ _))
    · exact .of_eq rfl
  · split
    · rcases taken_or_pendingRevoke hoccupied with hstate | hstate <;>
        simp only [expireT2, Turn.machine_update, hstate, if_true, reduceCtorEq, if_false]
      · exact lasts_revokeHolder (t := Turn.update _ _) _ hholder hstate
      · exact .of_tickets rfl rfl
    · exact .of_eq rfl
  · split
    · rcases taken_or_pendingRevoke hoccupied with hstate | hstate <;>
        simp only [expireT3, Turn.machine_update, hstate, if_true, reduceCtorEq, if_false]
      · exact .of_tickets rfl rfl
      · exact lasts_endHolder (t := Turn.update _ _) hending hout hholder
    · exact .of_eq rfl
  · split
    · exact .of_eq (tenure_expireT4 (t := Turn.update _ _))
    · exact .of_eq rfl
  · split
    · exact .of_eq (tenure_expireT7 (t := Turn.update _ _))
    · exact .of_eq rfl
  · exact .of_eq (tenure_expireT20 ticket)
  all_goals exact .of_eq rfl

end Steps

/-- Whatever happens to an arbitrator: as long as the same party has the floor in the same state,
neither T2 nor T3 is started again. -/
theorem lasts_handle {a : Arbitrator} {input : Input} (hsound : a.places.Sound)
    (hoccupied : a.occupied = true) (hu : a.handle input = .ok u) :
    a.tenure.Lasts u.machine.tenure := by
  cases input with
  | add ssrc priority originator =>
    simp only [handle, addParticipant] at hu
    split at hu
    · cases hu
    · cases hu
      exact .of_eq rfl
  | initialized => exact lasts_callInitialized (t := ⟨a, {}⟩) hoccupied hu
  | implicitRequest => exact lasts_implicitFloorRequest (t := ⟨a, {}⟩) hoccupied hu
  | leave => exact lasts_clientRelease (t := ⟨a, {}⟩) hsound rfl hoccupied hu
  | receive message =>
    cases hu
    exact lasts_receive (t := ⟨a, {}⟩) hsound rfl hoccupied message
  | expire ticket =>
    cases hu
    exact lasts_expire (t := ⟨a, {}⟩) hsound rfl hoccupied ticket
  | beginRelease =>
    cases hu
    have hstate : (beginRelease ⟨a, {}⟩).machine.state = .releasing :=
      congrArg Places.state places_beginRelease
    refine .of_state_ne ?_
    rcases taken_or_pendingRevoke (t := ⟨a, {}⟩) hoccupied with h | h <;> simp_all [tenure]
  | finishRelease =>
    cases hu
    refine .of_eq ?_
    rcases taken_or_pendingRevoke (t := ⟨a, {}⟩) hoccupied with h | h <;>
      simp_all [finishRelease]
  | stopTimers =>
    cases hu
    exact fun _ _ => ⟨by simp [tenure, stopTimers], by simp [tenure, stopTimers]⟩

end FloorControl.Arbitrator
