import FloorControl.Proofs.ArbitratorPath
import FloorControl.Proofs.CallChanges
import FloorControl.Server

/-!
# Refusals

An operation is refused for one of three reasons: the call is down, somebody who is asked for is not
there, or somebody who joins is there already. Setting a call up at a party and granting the floor
to it let the party take its turn before the arbitrator is asked, and setting up all parties does so
again and again; that nothing is left of it when the arbitrator refuses comes from the arbitrator
and the call agreeing on who is there, so that it never does. Stamping media is a question about a
call that gives no call back, so there is nothing to show of it.
-/

namespace FloorControl.Session

def refusalFor? (s : Session) (x : Ssrc) : Option FloorError :=
  if !s.active then some (.callNotActive s.callId)
  else if s.participants.contains x then none else some (.participantNotFound x)

def Operation.refusal? (s : Session) : Operation → Option FloorError
  | .join x _ _ =>
    if !s.active then some (.callNotActive s.callId)
    else if s.participants.contains x then some (.duplicateParticipant x) else none
  | .setUp x | .establish x _ | .push x | .releaseTalk x | .accept x | .askPosition x
  | .setDual x _ | .setIndicator x _ | .leave x => s.refusalFor? x
  | .setUpAll =>
    if s.active || s.participants.ssrcs.isEmpty then none else some (.callNotActive s.callId)
  | .release | .runUntilIdle | .advanceTo _ | .advanceBy _ => none

/-- An answer refuses for the given reason, with nothing changed and nothing told, and it does not
refuse where there is none. -/
def Settles (refusal : Option FloorError) (r : Run) (answer : Answer) : Prop :=
  match refusal with
  | some e => answer = (.error e, r)
  | none => answer.1 = .ok ()

variable {config : SessionConfig} {phase : Phase} {h : History} {r : Run} {x : Ssrc}
  {p : Participant}

/-- Setting a party up keeps who is there, at the call and at the arbitrator. -/
private theorem attendance_setUp (hknown : r.state.arbitrator.roster.contains x = true)
    (hactive : r.state.active = true) (hget : r.state.participants.get? x = some p) :
    ∃ r', setUp x r = (.ok (), r') ∧ r'.state.active = true ∧ ∀ y,
      r'.state.participants.contains y = r.state.participants.contains y ∧
        r'.state.arbitrator.roster.contains y = r.state.arbitrator.roster.contains y := by
  obtain ⟨u, hu, heq⟩ := exists_setUp hknown hactive hget
  refine ⟨_, heq, ?_, fun y => ?_⟩
  · rw [state_dispatch]
    exact hactive
  · rw [state_dispatch]
    refine ⟨Roster.contains_modify .., ?_⟩
    have hroster := (Arbitrator.passes_callInitialized hu).roster
    rw [← Roster.contains_modify r.state.arbitrator.roster x y]
    exact congrArg (·.contains y) hroster

private theorem setUpEach_ok (ssrcs : List Ssrc) (hactive : r.state.active = true)
    (hknown : ∀ y, r.state.arbitrator.roster.contains y = r.state.participants.contains y)
    (hthere : ∀ y ∈ ssrcs, r.state.participants.contains y = true) :
    (setUpEach ssrcs r).1 = .ok () := by
  induction ssrcs generalizing r with
  | nil => rfl
  | cons x rest ih =>
    have hx := hthere x List.mem_cons_self
    obtain ⟨p, hget⟩ := Roster.exists_get?_of_contains hx
    obtain ⟨r', heq, hactive', hsame⟩ := attendance_setUp ((hknown x).trans hx) hactive hget
    simp only [setUpEach, heq]
    refine ih hactive' (fun y => ?_) (fun y hy => ?_)
    · rw [(hsame y).1, (hsame y).2]
      exact hknown y
    · rw [(hsame y).1]
      exact hthere y (List.mem_cons_of_mem _ hy)

/-- An operation with one of the parties is refused before anything is done, unless what is done
refuses it. -/
private theorem settles_withParticipant {f : Participant → Run → Answer}
    (hdone : ∀ p, r.state.active = true → r.state.participants.get? x = some p →
      (f p r).1 = .ok ()) : Settles (r.state.refusalFor? x) r (withParticipant x f r) := by
  rw [refusalFor?, withParticipant, whenActive]
  cases hactive : r.state.active with
  | false => rfl
  | true =>
    cases hget : r.state.participants.get? x with
    | none => simp [Roster.contains_eq_isSome_get?, hget, Settles, refuse]
    | some p =>
      simp only [Roster.contains_of_get? hget, Bool.not_true, Bool.false_eq_true, if_false, if_true]
      exact hdone p hactive hget

/-- As long as the arbitrator and the call agree on who is there, every operation is refused for the
reason that the call itself can see, or not at all. -/
theorem settles_perform (op : Operation) (hknown : r.state.active = true →
      ∀ y, r.state.arbitrator.roster.contains y = r.state.participants.contains y) :
    Settles (op.refusal? r.state) r (perform op r) := by
  have hthere {x : Ssrc} {p : Participant} (hactive : r.state.active = true)
      (hget : r.state.participants.get? x = some p) :
      r.state.arbitrator.roster.contains x = true :=
    (hknown hactive x).trans (Roster.contains_of_get? hget)
  cases op with
  | join x priority originator =>
    rw [Operation.refusal?, perform, join, whenActive]
    cases hactive : r.state.active with
    | false => rfl
    | true =>
      simp only [Arbitrator.addParticipant, hknown hactive x, Bool.not_true, Bool.false_eq_true,
        if_false, if_true]
      cases r.state.participants.contains x <;> rfl
  | leave x =>
    rw [Operation.refusal?, refusalFor?, perform, clientRelease, whenActive]
    cases hactive : r.state.active with
    | false => rfl
    | true =>
      simp only [Arbitrator.clientRelease, hknown hactive x, Bool.not_true, Bool.false_eq_true,
        if_false, if_true]
      cases hpresent : r.state.participants.contains x with
      | false => rfl
      | true =>
        obtain ⟨p, hget⟩ := Roster.exists_get?_of_contains hpresent
        simp only [Bool.not_true, Bool.false_eq_true, if_false, if_true, setArbitrator, hget]
        rfl
  | setUpAll =>
    rw [Operation.refusal?, perform, setUpAll]
    cases hactive : r.state.active with
    | false =>
      cases r.state.participants.ssrcs with
      | nil => rfl
      | cons x rest =>
        simp [setUpEach, setUp, withParticipant, whenActive, hactive, refuse, Settles]
    | true =>
      exact setUpEach_ok _ hactive (hknown hactive) fun y hy => (Roster.contains_iff_mem _ y).mpr hy
  | setUp x =>
    rw [Operation.refusal?, perform, setUp]
    refine settles_withParticipant fun p hactive hget => ?_
    obtain ⟨u, hu⟩ := Arbitrator.exists_callInitialized
      (t := ⟨r.state.arbitrator, (Participant.callInitialized ⟨p, {}⟩).out⟩) (hthere hactive hget)
    simp only [setParticipant, hu]
  | establish x granted =>
    rw [Operation.refusal?, perform, establish]
    refine settles_withParticipant fun p hactive hget => ?_
    cases granted with
    | false => rfl
    | true =>
      obtain ⟨u, hu⟩ := Arbitrator.exists_implicitFloorRequest (t := ⟨r.state.arbitrator,
        (Participant.callEstablished true p.priority ⟨p, {}⟩).out⟩) (hthere hactive hget)
      simp only [setParticipant, hu, if_true]
  | push x | releaseTalk x | accept x | askPosition x | setDual x | setIndicator x =>
    rw [Operation.refusal?, perform, act]
    exact settles_withParticipant fun _ _ _ => rfl
  | release | runUntilIdle | advanceTo | advanceBy => rfl

/-- Whatever is refused leaves no trace, and only what there is a reason for is refused. The call is
as it was, with its arbitrator, its parties, its scheduler and its clock, and nobody was told
anything, however long its observers have been there; and a server that does not create a call, or
does not take one down, is as it was. -/
theorem refused_iff_unchanged (hr : Reached config phase h r) (server : Server.Run)
    (e : FloorError) :
    (∀ log op r', perform op ⟨r.state, log⟩ = (.error e, r') ↔
        op.refusal? r.state = some e ∧ r' = ⟨r.state, log⟩) ∧
      (∀ callType server', Server.createCall callType server = (.error e, server') ↔
        server.state.ids.allocate = .error e ∧ server' = server) ∧
      ∀ id server', Server.releaseCall id server = (.error e, server') ↔
        server.state.call? id = .error e ∧ server' = server := by
  refine ⟨fun log op r' => ?_, fun callType server' => ?_, fun id server' => ?_⟩
  · have hsettles : Settles (op.refusal? r.state) ⟨r.state, log⟩ (perform op ⟨r.state, log⟩) :=
      settles_perform (r := ⟨r.state, log⟩) op fun hactive => (hr.stage.fit hactive).known
    cases hrefusal : op.refusal? r.state with
    | some e' =>
      rw [hrefusal] at hsettles
      have hperform : perform op ⟨r.state, log⟩ = (.error e', ⟨r.state, log⟩) := hsettles
      simp [hperform, eq_comm]
    | none =>
      rw [hrefusal] at hsettles
      have hperform : (perform op ⟨r.state, log⟩).1 = .ok () := hsettles
      simp [Prod.ext_iff, hperform]
  · simp only [Server.createCall]
    cases server.state.ids.allocate with
    | error e' => simp [eq_comm]
    | ok allocated => simp
  · simp only [Server.releaseCall, Server.withCall]
    cases server.state.call? id with
    | error e' => simp [eq_comm]
    | ok call => simp

/-- A party that is there joins a second time, and a server has no number left. -/
theorem refused_iff_unchanged_rejoin :
    ∃ h r, play? handover ⟨Session.create 1 .basic {} 0, []⟩ = some r ∧
      Reached {} .resting h r ∧
      (perform (.join 1 5 true) r).1 = .error (.duplicateParticipant 1) ∧
      (perform (.join 1 5 true) r).2 = r ∧
      (Server.createCall .basic ⟨Server.create {} ⟨1, 0, 0⟩, []⟩).1 =
        .error (.callIdOutOfRange 0) ∧
      (Server.createCall .basic ⟨Server.create {} ⟨1, 0, 0⟩, []⟩).2 =
        ⟨Server.create {} ⟨1, 0, 0⟩, []⟩ := by
  obtain ⟨r, hr, hrefused⟩ : ∃ r, play? handover ⟨Session.create 1 .basic {} 0, []⟩ = some r ∧
      decide ((perform (.join 1 5 true) r).1 = .error (.duplicateParticipant 1)) = true :=
    (Option.any_eq_true _ _).mp (by decide +kernel)
  rw [decide_eq_true_eq] at hrefused
  obtain ⟨h, hreached, -⟩ := (Reached.created 1 .basic 0).play? hr
  have hunchanged := refused_iff_unchanged hreached ⟨Server.create {} ⟨1, 0, 0⟩, []⟩
  have hjoin := ((hunchanged _).1 r.log (.join 1 5 true) _).mp (Prod.ext hrefused rfl)
  have hcreate := ((hunchanged (.callIdOutOfRange 0)).2.1 .basic _).mp rfl
  exact ⟨h, r, hr, hreached, hrefused, hjoin.2, rfl, hcreate.2⟩

end FloorControl.Session
