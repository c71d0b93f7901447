import FloorControl.Session
import FloorControl.Proofs.Places

/-!
# What the parts of a turn keep

A turn of a machine is put together from a few kinds of steps: the machine is changed, letters are
posted, a ticket is drawn, and the observers are told something. Whatever every such step keeps is
kept by the whole turn. This module goes through the turns of both machines once, for any property,
and names the steps that are out of the ordinary: the second place is filled, the second talker is
not waited for any longer, and a participant gives up.
-/

namespace FloorControl

/-- Whether the message tells a talker to give way because its grant was never acknowledged. -/
def Message.blames : Message → Bool
  | .revoke _ .noResources _ => true
  | _ => false

/-- Whether the event tells of an ordinary step of a machine, by which nobody gives up. A machine
does not tell of its messages itself. -/
def FloorEvent.ordinary : FloorEvent → Bool
  | .failure .. | .messageSent .. => false
  | _ => true

def FloorEvent.reports (kind : FailureKind) : FloorEvent → Bool
  | .failure _ _ other => other = kind
  | _ => false

namespace Arbitrator

/-- An ordinary change of the arbitrator. It does not start T20, it does not make the lack of an
acknowledgement the reason for a revocation, a message is repeated as often as before, and nobody
gets the second place. -/
structure Mild (a b : Arbitrator) : Prop where
  callId : b.callId = a.callId
  c7 : b.c7.limit = a.c7.limit
  c20 : b.dual.c20.limit = a.dual.c20.limit
  cause : b.revokeCause = a.revokeCause ∨ b.revokeCause ≠ .noResources
  dual : b.dual = a.dual ∨ b.dual.t20.running = false
  second : b.dual.talker = a.dual.talker ∨ b.dual.talker = none

/-- What every ordinary step of a turn keeps. -/
structure Upheld (P : Turn Arbitrator → Prop) : Prop where
  update : ∀ {t : Turn Arbitrator} (f : Arbitrator → Arbitrator), Mild t.machine (f t.machine) →
    P t → P (t.update f)
  post : ∀ {t : Turn Arbitrator} (letters : List Envelope),
    (∀ e ∈ letters, e.message.blames = true → t.machine.revokeCause = .noResources) →
    P t → P (t.post letters)
  moved : ∀ {t : Turn Arbitrator} (before after : ArbitratorState), P t →
    P (t.tell (.arbitratorMoved t.machine.callId t.machine.config.ssrc before after))
  arm : ∀ {t : Turn Arbitrator} (timer : Timer), P t → P (t.arm timer)

namespace Upheld

variable {P : Turn Arbitrator → Prop} {t : Turn Arbitrator} {message : Message}

/-- A change that T20 and the reason of a revocation have no part in. -/
private theorem mild (hP : Upheld P) (f : Arbitrator → Arbitrator)
    (hcall : (f t.machine).callId = t.machine.callId)
    (hc7 : (f t.machine).c7.limit = t.machine.c7.limit)
    (hcause : (f t.machine).revokeCause = t.machine.revokeCause)
    (hdual : (f t.machine).dual = t.machine.dual) (h : P t) : P (t.update f) :=
  hP.update f ⟨hcall, hc7, congrArg (·.c20.limit) hdual, .inl hcause, .inl hdual,
    .inl (congrArg (·.talker) hdual)⟩ h

theorem sendTo (hP : Upheld P) (ssrc : Ssrc) (hmild : message.blames = false) (h : P t) :
    P (sendTo ssrc message t) := by
  simp only [Arbitrator.sendTo]
  split
  · apply hP.post _ _ h
    intro e he hblames
    rw [List.mem_singleton.mp he, hmild] at hblames
    cases hblames
  · exact h

theorem broadcastExcept (hP : Upheld P) (except : Option Ssrc) (hmild : message.blames = false)
    (h : P t) : P (broadcastExcept except message t) := by
  apply hP.post _ _ h
  intro e he hblames
  obtain ⟨ssrc, -, rfl⟩ := List.mem_map.mp he
  rw [hmild] at hblames
  cases hblames

theorem startT1 (hP : Upheld P) (h : P t) : P (startT1 t) := hP.arm _ (hP.mild _ rfl rfl rfl rfl h)

theorem startT2 (hP : Upheld P) (h : P t) : P (startT2 t) := hP.arm _ (hP.mild _ rfl rfl rfl rfl h)

theorem startT3 (hP : Upheld P) (h : P t) : P (startT3 t) := hP.arm _ (hP.mild _ rfl rfl rfl rfl h)

theorem startT4 (hP : Upheld P) (h : P t) : P (startT4 t) := hP.arm _ (hP.mild _ rfl rfl rfl rfl h)

theorem startT7 (hP : Upheld P) (h : P t) : P (startT7 t) := hP.arm _ (hP.mild _ rfl rfl rfl rfl h)

theorem startStateTimers (hP : Upheld P) (h : P t) : P (startStateTimers t) := by
  simp only [Arbitrator.startStateTimers]
  split
  · exact hP.startT7 (hP.mild _ rfl rfl rfl rfl h)
  · exact hP.startT3 (hP.startT1 h)
  all_goals exact h

theorem moveTo (hP : Upheld P) (next : ArbitratorState) (h : P t) : P (moveTo next t) := by
  simp only [Arbitrator.moveTo]
  split
  · exact h
  · apply hP.startStateTimers
    apply hP.moved
    apply hP.mild _ _ _ _ _ h
    all_goals cases t.machine.state <;> rfl

theorem refreshT4 (hP : Upheld P) (h : P t) : P (refreshT4 t) := by
  simp only [Arbitrator.refreshT4]
  split
  · split
    · exact h
    · exact hP.startT4 h
  · exact hP.mild _ rfl rfl rfl rfl h

theorem grant (hP : Upheld P) (who : Talker) (h : P t) : P (grant who t) := by
  apply hP.refreshT4
  apply hP.moveTo
  apply hP.startT2
  apply hP.broadcastExcept _ rfl
  apply hP.sendTo _ rfl
  exact hP.mild _ rfl rfl rfl rfl h

theorem grantImplicit (hP : Upheld P) (ssrc : Ssrc) (h : P t) : P (grantImplicit ssrc t) := by
  simp only [Arbitrator.grantImplicit]
  split
  · exact h
  · split
    · exact h
    · exact hP.grant _ h

theorem becomeIdle (hP : Upheld P) (h : P t) : P (becomeIdle t) := by
  simp only [Arbitrator.becomeIdle]
  split
  · exact h
  · split
    · exact hP.moveTo _ h
    · exact hP.grantImplicit _ (hP.mild _ rfl rfl rfl rfl (hP.moveTo _ h))

theorem checkReady (hP : Upheld P) (h : P t) : P (checkReady t) := by
  simp only [Arbitrator.checkReady]
  split
  · exact hP.becomeIdle (hP.broadcastExcept _ rfl h)
  · exact h

theorem revokeHolder (hP : Upheld P) {cause : RevokeCause} (hcause : cause ≠ .noResources)
    (h : P t) : P (revokeHolder cause t) := by
  simp only [Arbitrator.revokeHolder]
  split
  · exact h
  · apply hP.moveTo
    apply hP.sendTo
    · cases cause <;> first | rfl | exact absurd rfl hcause
    · exact hP.update _ ⟨rfl, rfl, rfl, .inr hcause, .inl rfl, .inl rfl⟩ h

theorem queueOrDeny (hP : Upheld P) (who : Talker) (willing : Bool) (h : P t) :
    P (queueOrDeny who willing t) := by
  simp only [Arbitrator.queueOrDeny]
  split
  · split
    · exact hP.refreshT4 (hP.sendTo _ rfl (hP.mild _ rfl rfl rfl rfl h))
    · exact hP.sendTo _ rfl h
  · exact hP.sendTo _ rfl h

theorem dismiss (hP : Upheld P) (former : Option Talker) (h : P t) : P (dismiss former t) := by
  cases former with
  | none => exact h
  | some who => exact hP.sendTo _ rfl h

theorem promote (hP : Upheld P) (former : Option Talker) (second : Talker) (h : P t) :
    P (promote former second t) := by
  have hheld (ack : Bool) : P (Arbitrator.refreshT4 <| Arbitrator.moveTo .taken <|
      Arbitrator.startT2 <| Arbitrator.broadcastExcept (some second.ssrc)
        (.taken second.ssrc false ack) <|
          (Arbitrator.dismiss former t).update fun a => { a with holder := some second }) := by
    apply hP.refreshT4
    apply hP.moveTo
    apply hP.startT2
    apply hP.broadcastExcept _ rfl
    exact hP.mild _ rfl rfl rfl rfl (hP.dismiss former h)
  simp only [Arbitrator.promote]
  split
  · exact hheld _
  · split
    · exact hP.revokeHolder (by decide) (hheld _)
    · exact hP.queueOrDeny _ _ (hP.mild _ rfl rfl rfl rfl (hheld _))

theorem endHolder (hP : Upheld P) (h : P t) : P (endHolder t) := by
  have hnext (a : Arbitrator) : Mild a (nextTalker a).2 := by
    simp only [nextTalker]
    split
    · exact ⟨rfl, rfl, rfl, .inl rfl, .inl rfl, .inl rfl⟩
    · split <;> exact ⟨rfl, rfl, rfl, .inl rfl, .inl rfl, .inl rfl⟩
  have hvacated : P (t.update fun a => { a with holder := none, dual := a.dual.vacate }) :=
    hP.update _ ⟨rfl, rfl, rfl, .inl rfl, .inr (Timer.running_stop _), .inr rfl⟩ h
  simp only [Arbitrator.endHolder]
  split
  · exact hP.promote _ _ hvacated
  · split
    · exact hP.grant _ (hP.dismiss _ (hP.update _ (hnext _) hvacated))
    · exact hP.becomeIdle (hP.broadcastExcept _ rfl (hP.update _ (hnext _) hvacated))

/-- A request gets an ordinary answer while somebody has the floor, or the second place. -/
private theorem requestWhileOccupied (hP : Upheld P) (r : Request) (receiveOnly : Bool) (h : P t) :
    P (requestWhileOccupied r receiveOnly t) ∨
      t.machine.state = .taken ∧ t.machine.dual.talker = none ∧
        requestWhileOccupied r receiveOnly t =
          onDual (DualFloor.grant r.talker t.machine.roster.ssrcs) t := by
  have hreaction := reaction_requestWhileOccupied r receiveOnly t
  generalize Arbitrator.requestWhileOccupied r receiveOnly t = u at hreaction ⊢
  cases hreaction with
  | holder | waiting | preemptor | listens => exact .inl (hP.sendTo _ rfl h)
  | second =>
    left
    simp only [onDual, DualFloor.resendGrant]
    split
    · apply hP.post _ _ h
      intro e he hblames
      rw [List.mem_singleton.mp he] at hblames
      cases hblames
    · exact h
  | seconded _ _ _ _ _ _ hsecond hstate => exact .inr ⟨hstate, hsecond, rfl⟩
  | preempted => exact .inl (hP.revokeHolder (by decide) (hP.mild _ rfl rfl rfl rfl h))
  | supplanted =>
    exact .inl (hP.revokeHolder (by decide) (hP.mild _ rfl rfl rfl rfl (hP.queueOrDeny _ _ h)))
  | parked => exact .inl (hP.mild _ rfl rfl rfl rfl h)
  | displaced => exact .inl (hP.queueOrDeny _ _ (hP.mild _ rfl rfl rfl rfl h))
  | enlisted => exact .inl (hP.queueOrDeny _ _ h)

private theorem receiveRelease (hP : Upheld P) (ssrc : Ssrc) (h : P t) :
    P (receiveRelease ssrc t) := by
  have htaken {u : Turn Arbitrator} (hu : P u) : P (sendTaken ssrc u) := by
    simp only [sendTaken]
    split
    · exact hP.sendTo _ rfl hu
    · exact hu
  have hvacated : P (t.update fun a => { a with dual := a.dual.vacate }) :=
    hP.update _ ⟨rfl, rfl, rfl, .inl rfl, .inr (Timer.running_stop _), .inr rfl⟩ h
  simp only [Arbitrator.receiveRelease]
  split
  · split
    · exact hP.sendTo _ rfl h
    · exact h
  split
  · exact hP.endHolder h
  split
  · split
    · exact hP.broadcastExcept _ rfl hvacated
    · exact hvacated
  · exact hP.refreshT4 (htaken (hP.mild _ rfl rfl rfl rfl h))

/-- A message makes an ordinary turn, unless it is a request that gets the second place. -/
theorem receive (hP : Upheld P) (message : Message) (h : P t) :
    P (receive message t) ∨ ∃ r, message = .request r ∧
      t.machine.roster.contains r.ssrc = true ∧ t.machine.state = .taken ∧
      t.machine.dual.talker = none ∧
      Arbitrator.receive message t =
        onDual (DualFloor.grant r.talker t.machine.roster.ssrcs) t := by
  cases message with
  | request r =>
    simp only [Arbitrator.receive, receiveRequest]
    split
    · exact .inl h
    · next proxy hproxy =>
      have hknown : t.machine.roster.contains r.ssrc = true := by
        rw [Roster.contains_eq_isSome_get?, hproxy]
        rfl
      split
      · split
        · exact .inl (hP.sendTo _ rfl h)
        · exact .inl (hP.grant _ h)
      · refine (hP.requestWhileOccupied r _ h).imp_right ?_
        rintro ⟨hstate, hvacant, heq⟩
        exact ⟨r, rfl, hknown, hstate, hvacant, heq⟩
      · refine (hP.requestWhileOccupied r _ h).imp_right ?_
        rintro ⟨hstate, hvacant, heq⟩
        exact ⟨r, rfl, hknown, hstate, hvacant, heq⟩
      all_goals exact .inl h
  | release ssrc => exact .inl (hP.receiveRelease ssrc h)
  | queuePositionRequest ssrc =>
    left
    simp only [Arbitrator.receive, receiveQueuePositionRequest]
    split
    · exact hP.sendTo _ rfl h
    · split
      · exact hP.sendTo _ rfl h
      · exact h
  | ack ssrc acked =>
    left
    refine hP.update _ ?_ h
    simp only [receiveAck, DualFloor.acknowledge]
    split
    · split
      · exact ⟨rfl, rfl, rfl, .inl rfl, .inr (Timer.running_stop _), .inl rfl⟩
      · exact ⟨rfl, rfl, rfl, .inl rfl, .inl rfl, .inl rfl⟩
    · exact ⟨rfl, rfl, rfl, .inl rfl, .inl rfl, .inl rfl⟩
  | granted | denied | idle | taken | revoke | queuePositionInfo => exact .inl h

private theorem sendPositions (hP : Upheld P) (positions : List (QueueEntry × Nat)) (h : P t) :
    P (positions.foldl (fun t (entry, position) => sendPosition entry.ssrc position t) t) := by
  induction positions generalizing t with
  | nil => exact h
  | cons _ _ ih => exact ih (hP.sendTo _ rfl h)

private theorem expireT1 (hP : Upheld P) (h : P t) : P (expireT1 t) := by
  simp only [Arbitrator.expireT1]
  split
  · next who _ _ =>
    apply hP.startT1
    simp only [Arbitrator.sendTo]
    split
    · apply hP.post _ _ h
      intro e he hblames
      rw [List.mem_singleton.mp he] at hblames
      cases hcause : t.machine.revokeCause with
      | noResources => rfl
      | _ => simp [revokeMessage, Message.blames, hcause] at hblames
    · exact h
  · exact h

/-- A ticket makes an ordinary turn, unless it is the one that T20 waits for. -/
theorem expire (hP : Upheld P) (ticket : Ticket) (h : P t) :
    P (expire ticket t) ∨ t.machine.dual.t20.accepts ticket = true ∧
      Arbitrator.expire ticket t = expireT20 ticket t := by
  have hrest (f : Arbitrator → Arbitrator)
      (hf : (f t.machine).callId = t.machine.callId ∧ (f t.machine).c7 = t.machine.c7 ∧
        (f t.machine).revokeCause = t.machine.revokeCause ∧ (f t.machine).dual = t.machine.dual) :
      P (t.update f) := hP.mild f hf.1 (congrArg (·.limit) hf.2.1) hf.2.2.1 hf.2.2.2 h
  simp only [Arbitrator.expire]
  split
  · left
    split
    · exact hP.expireT1 (hrest _ ⟨rfl, rfl, rfl, rfl⟩)
    · exact h
  · left
    split
    · simp only [expireT2]
      split
      · exact hP.revokeHolder (by decide) (hrest _ ⟨rfl, rfl, rfl, rfl⟩)
      · exact hrest _ ⟨rfl, rfl, rfl, rfl⟩
    · exact h
  · left
    split
    · simp only [expireT3]
      split
      · exact hP.endHolder (hrest _ ⟨rfl, rfl, rfl, rfl⟩)
      · exact hrest _ ⟨rfl, rfl, rfl, rfl⟩
    · exact h
  · left
    split
    · exact hP.refreshT4 (hP.sendPositions _ (hrest _ ⟨rfl, rfl, rfl, rfl⟩))
    · exact h
  · left
    split
    · simp only [expireT7]
      split
      · split
        · exact hP.mild _ rfl (Counter.increment_limit _) rfl rfl (hrest _ ⟨rfl, rfl, rfl, rfl⟩)
        · apply hP.startT7
          apply hP.broadcastExcept _ rfl
          exact hP.mild _ rfl (Counter.increment_limit _) rfl rfl (hrest _ ⟨rfl, rfl, rfl, rfl⟩)
      · exact hrest _ ⟨rfl, rfl, rfl, rfl⟩
    · exact h
  · cases haccepts : t.machine.dual.t20.accepts ticket with
    | true => exact .inr ⟨rfl, rfl⟩
    | false =>
      left
      simp only [expireT20, DualFloor.expire, haccepts, Bool.not_false, if_true]
      exact h
  all_goals exact .inl h

theorem callInitialized (hP : Upheld P) {ssrc : Ssrc} {u : Turn Arbitrator} (h : P t)
    (hu : callInitialized ssrc t = .ok u) : P u := by
  simp only [Arbitrator.callInitialized] at hu
  split at hu
  · cases hu
  cases hu
  have hready : P (t.update fun a =>
      { a with roster := a.roster.modify ssrc fun proxy => { proxy with ready := true } }) :=
    hP.mild _ rfl rfl rfl rfl h
  split
  · exact hP.checkReady (hP.moveTo _ hready)
  · exact hP.checkReady hready
  · exact hP.sendTo _ rfl hready
  · split
    · exact hP.sendTo _ rfl hready
    · exact hready
  · split
    · exact hP.sendTo _ rfl hready
    · exact hready
  · exact hready

theorem implicitFloorRequest (hP : Upheld P) {ssrc : Ssrc} {u : Turn Arbitrator} (h : P t)
    (hu : implicitFloorRequest ssrc t = .ok u) : P u := by
  simp only [Arbitrator.implicitFloorRequest] at hu
  split at hu
  · cases hu
  cases hu
  split
  · exact hP.grantImplicit _ h
  · exact hP.mild _ rfl rfl rfl rfl h
  all_goals exact h

/-- A party leaves, and everything else follows from its having left. -/
theorem clientRelease (hP : Upheld P) {ssrc : Ssrc} {u : Turn Arbitrator}
    (h : P (t.update fun a => forget ssrc { a with roster := a.roster.erase ssrc }))
    (hu : clientRelease ssrc t = .ok u) : P u := by
  simp only [Arbitrator.clientRelease] at hu
  split at hu
  · cases hu
  cases hu
  have hrelieved := hP.endHolder h
  have hrefreshed := hP.refreshT4 h
  split <;> split <;> first
    | exact hP.checkReady hrelieved
    | exact hP.checkReady hrefreshed
    | exact hrelieved
    | exact hrefreshed

theorem beginRelease (hP : Upheld P) (h : P t) : P (beginRelease t) := by
  have hrevoke (who : Option Talker) {u : Turn Arbitrator} (hu : P u) :
      P (revokeForRelease who u) := by
    cases who with
    | none => exact hu
    | some _ => exact hP.sendTo _ rfl hu
  have hdeny (entries : List QueueEntry) {u : Turn Arbitrator} (hu : P u) :
      P (entries.foldl (fun t entry => deny entry.ssrc .callReleased t) u) := by
    induction entries generalizing u with
    | nil => exact hu
    | cons entry rest ih => exact ih (hP.sendTo _ rfl hu)
  have hstopped : P (t.update fun a => { a.stopTimers with
      holder := none, preemptor := none, implicitRequest := none
      dual := a.stopTimers.dual.vacate
      queue := a.queue.clear }) :=
    hP.update _ ⟨rfl, rfl, rfl, .inl rfl, .inr (Timer.running_stop _), .inr rfl⟩ h
  have hrevoked := hrevoke t.machine.dual.talker (hrevoke t.machine.holder hstopped)
  simp only [Arbitrator.beginRelease]
  apply hP.moveTo
  apply hdeny
  split
  · exact hP.sendTo _ rfl hrevoked
  · exact hrevoked

theorem finishRelease (hP : Upheld P) (h : P t) : P (finishRelease t) := by
  simp only [Arbitrator.finishRelease]
  split
  · exact hP.moveTo _ (hP.mild _ rfl rfl rfl rfl h)
  · exact h

/-- Whatever happens to an arbitrator makes an ordinary turn, unless it is a request that gets the
second place, or the ticket that T20 waits for. -/
theorem handle (hP : Upheld P) {a : Arbitrator} {input : Input} (h : P ⟨a, {}⟩)
    (ht : a.handle input = .ok t) :
    P t ∨ (∃ r, input = .receive (.request r) ∧ a.dual.talker = none ∧
        t = onDual (DualFloor.grant r.talker a.roster.ssrcs) ⟨a, {}⟩) ∨
      ∃ ticket, input = .expire ticket ∧ a.dual.t20.accepts ticket = true ∧
        t = expireT20 ticket ⟨a, {}⟩ := by
  cases input with
  | add ssrc priority originator =>
    simp only [Arbitrator.handle, addParticipant] at ht
    split at ht
    · cases ht
    · cases ht
      left
      let receiveOnly := a.callType = .broadcast && !originator
      exact hP.mild (fun a =>
        { a with roster := a.roster.insert ssrc { priority, originator, receiveOnly } })
        rfl rfl rfl rfl h
  | initialized ssrc => exact .inl (hP.callInitialized h ht)
  | implicitRequest ssrc => exact .inl (hP.implicitFloorRequest h ht)
  | leave ssrc =>
    refine .inl (hP.clientRelease ?_ ht)
    refine hP.update _ ?_ h
    by_cases hsecond : a.dual.isTalker ssrc = true
    · simp only [forget, hsecond, if_true]
      exact ⟨rfl, rfl, rfl, .inl rfl, .inr (Timer.running_stop _), .inr rfl⟩
    · simp only [forget, hsecond]
      exact ⟨rfl, rfl, rfl, .inl rfl, .inl rfl, .inl rfl⟩
  | receive message =>
    cases ht
    refine (hP.receive message h).imp_right ?_
    rintro ⟨r, rfl, -, -, hvacant, heq⟩
    exact .inl ⟨r, rfl, hvacant, heq⟩
  | expire ticket =>
    cases ht
    refine (hP.expire ticket h).imp_right ?_
    rintro ⟨haccepts, heq⟩
    exact .inr ⟨ticket, rfl, haccepts, heq⟩
  | beginRelease =>
    cases ht
    exact .inl (hP.beginRelease h)
  | finishRelease =>
    cases ht
    exact .inl (hP.finishRelease h)
  | stopTimers =>
    cases ht
    refine .inl (hP.update stopTimers ?_ h)
    exact ⟨rfl, rfl, rfl, .inl rfl, .inr (Timer.running_stop _), .inl rfl⟩

end Upheld

end Arbitrator

namespace Participant

def Exhausts (p : Participant) (ticket : Ticket) : FailureKind → Prop
  | .requestUnanswered =>
    p.t101.accepts ticket = true ∧ p.state = .pendingRequest ∧ p.c101.arrives = true
  | .releaseUnconfirmed =>
    p.t100.accepts ticket = true ∧ p.state = .pendingRelease ∧ p.c100.arrives = true
  | .queuePositionUnanswered =>
    p.t104.accepts ticket = true ∧ p.state = .queued ∧ p.c104.arrives = true
  | .grantNotAccepted => p.t132.accepts ticket = true ∧ p.grantPending = true
  | .dualGrantUnacknowledged => False

/-- What no step of a participant touches: whose it is, and how often it repeats a message. -/
structure Mild (p q : Participant) : Prop where
  callId : q.callId = p.callId
  ssrc : q.ssrc = p.ssrc
  c100 : q.c100.limit = p.c100.limit
  c101 : q.c101.limit = p.c101.limit

/-- What every ordinary step of a turn keeps. -/
structure Upheld (P : Turn Participant → Prop) : Prop where
  update : ∀ {t : Turn Participant} (f : Participant → Participant),
    Mild t.machine (f t.machine) → P t → P (t.update f)
  post : ∀ {t : Turn Participant} (letters : List Envelope),
    (∀ e ∈ letters, e.message.blames = false) → P t → P (t.post letters)
  tell : ∀ {t : Turn Participant} (event : FloorEvent), event.call = t.machine.callId →
    event.ordinary = true → P t → P (t.tell event)
  arm : ∀ {t : Turn Participant} (timer : Timer), P t → P (t.arm timer)

namespace Upheld

variable {P : Turn Participant → Prop} {t : Turn Participant}

theorem moveTo (hP : Upheld P) (next : ParticipantState) (h : P t) : P (moveTo next t) := by
  simp only [Participant.moveTo]
  split
  · exact h
  · apply hP.tell _ rfl rfl
    exact hP.update _ ⟨rfl, rfl, rfl, rfl⟩ h

theorem send (hP : Upheld P) {message : Message} (hmild : message.blames = false) (h : P t) :
    P (send message t) := by
  apply hP.post _ _ h
  intro e he
  rw [List.mem_singleton.mp he]
  exact hmild

theorem takeFloor (hP : Upheld P) (h : P t) : P (takeFloor t) := by
  apply hP.tell _ rfl rfl
  exact hP.moveTo _ (hP.update _ ⟨rfl, rfl, rfl, rfl⟩ h)

theorem tellDenied (hP : Upheld P) (cause : DenyCause) (onSite : Bool) (h : P t) :
    P (tellDenied cause onSite t) := hP.tell _ rfl rfl h

theorem tellRevoked (hP : Upheld P) (cause : RevokeCause) (h : P t) : P (tellRevoked cause t) :=
  hP.tell _ rfl rfl h

theorem startRelease (hP : Upheld P) (h : P t) : P (startRelease t) := by
  apply hP.moveTo
  apply hP.arm
  apply hP.update _ ⟨rfl, rfl, rfl, rfl⟩
  apply hP.update _ ⟨rfl, rfl, rfl, rfl⟩
  exact hP.send rfl (hP.update _ ⟨rfl, rfl, rfl, rfl⟩ h)

theorem acknowledge (hP : Upheld P) (message : Message) (h : P t) :
    P (acknowledge message t) := by
  simp only [Participant.acknowledge]
  split
  · exact hP.send rfl h
  · exact h

private theorem receivePendingRequest (hP : Upheld P) (message : Message) (h : P t) :
    P (receivePendingRequest message t) := by
  cases message with
  | granted => exact hP.takeFloor (hP.update _ ⟨rfl, rfl, rfl, rfl⟩ h)
  | denied => exact hP.tellDenied _ _ (hP.moveTo _ (hP.update _ ⟨rfl, rfl, rfl, rfl⟩ h))
  | queuePositionInfo => exact hP.moveTo _ (hP.update _ (by exact ⟨rfl, rfl, rfl, rfl⟩) h)
  | taken =>
    simp only [Participant.receivePendingRequest]
    exact hP.update _ ⟨rfl, rfl, rfl, rfl⟩ h
  | request | release | idle | revoke | queuePositionRequest | ack => exact h

private theorem receiveQueued (hP : Upheld P) (message : Message) (h : P t) :
    P (receiveQueued message t) := by
  cases message with
  | granted =>
    simp only [Participant.receiveQueued]
    split
    · exact h
    · apply hP.tell _ (by rfl) rfl
      apply hP.arm
      apply hP.update _ (by exact ⟨rfl, rfl, rfl, rfl⟩)
      exact hP.update _ ⟨rfl, rfl, rfl, rfl⟩ h
  | denied => exact hP.tellDenied _ _ (hP.moveTo _ (hP.update _ ⟨rfl, rfl, rfl, rfl⟩ h))
  | revoke =>
    simp only [Participant.receiveQueued]
    split
    · exact hP.startRelease (hP.tellRevoked _ (hP.update _ ⟨rfl, rfl, rfl, rfl⟩ h))
    · exact h
  | idle => exact hP.moveTo _ (hP.update _ (by exact ⟨rfl, rfl, rfl, rfl⟩) h)
  | queuePositionInfo | taken =>
    simp only [Participant.receiveQueued]
    exact hP.update _ ⟨rfl, rfl, rfl, rfl⟩ h
  | request | release | queuePositionRequest | ack => exact h

private theorem loseFloor (hP : Upheld P) (talker : Option Ssrc) (h : P t) :
    P (loseFloor talker t) := hP.moveTo _ (hP.update _ (by exact ⟨rfl, rfl, rfl, rfl⟩) h)

private theorem receiveHasPermission (hP : Upheld P) (message : Message) (h : P t) :
    P (receiveHasPermission message t) := by
  cases message with
  | revoke => exact hP.startRelease (hP.tellRevoked _ h)
  | taken ssrc dual ack =>
    simp only [Participant.receiveHasPermission]
    split
    · exact hP.update _ ⟨rfl, rfl, rfl, rfl⟩ h
    · split
      · exact hP.update _ ⟨rfl, rfl, rfl, rfl⟩ h
      · exact hP.loseFloor _ h
  | idle => exact hP.loseFloor _ h
  | request | granted | denied | release | queuePositionRequest | queuePositionInfo | ack => exact h

private theorem receivePendingRelease (hP : Upheld P) (message : Message) (h : P t) :
    P (receivePendingRelease message t) := by
  cases message with
  | idle | taken | denied => exact hP.moveTo _ (hP.update _ (by exact ⟨rfl, rfl, rfl, rfl⟩) h)
  | request | granted | release | revoke | queuePositionRequest | queuePositionInfo | ack => exact h

private theorem receiveIdle (hP : Upheld P) (message : Message) (h : P t) :
    P (receiveIdle message t) := by
  cases message with
  | granted =>
    simp only [Participant.receiveIdle]
    split
    · exact hP.startRelease h
    · exact h
  | taken | idle =>
    simp only [Participant.receiveIdle]
    exact hP.update _ ⟨rfl, rfl, rfl, rfl⟩ h
  | request | denied | release | revoke | queuePositionRequest | queuePositionInfo | ack => exact h

/-- Where the call is set up, everything that a message brings about comes after its
acknowledgement. -/
theorem receive_of_acknowledge (hP : Upheld P) (message : Message)
    (hset : t.machine.state ≠ .startStop) (h : P (Participant.acknowledge message t)) :
    P (receive message t) := by
  simp only [Participant.receive]
  split
  · next hstate => exact absurd hstate hset
  · exact hP.receivePendingRequest _ h
  · exact hP.receiveQueued _ h
  · exact hP.receiveHasPermission _ h
  · exact hP.receivePendingRelease _ h
  · exact hP.receiveIdle _ h

theorem receive (hP : Upheld P) (message : Message) (h : P t) : P (receive message t) := by
  by_cases hstate : t.machine.state = .startStop
  · simp only [Participant.receive, hstate]
    exact h
  · exact hP.receive_of_acknowledge message hstate (hP.acknowledge message h)

/-- A ticket makes an ordinary turn, except that the participant may give up. -/
theorem expire (hP : Upheld P) (ticket : Ticket)
    (hfailure : ∀ {u : Turn Participant} (kind : FailureKind), t.machine.Exhausts ticket kind →
      P u → P (tellFailure kind u)) (h : P t) : P (expire ticket t) := by
  simp only [Participant.expire]
  split
  · split
    · next haccepts =>
      have hrests : P (t.update fun p => { p with t101 := p.t101.rest }) :=
        hP.update _ ⟨rfl, rfl, rfl, rfl⟩ h
      have hcounts := hP.update (fun p => { p with c101 := p.c101.increment })
        ⟨rfl, rfl, rfl, Counter.increment_limit _⟩ hrests
      simp only [expireT101]
      split
      · next hstate =>
        split
        · next harrives =>
          exact hfailure .requestUnanswered ⟨haccepts, hstate, harrives⟩ (hP.moveTo _ hcounts)
        · apply hP.arm
          apply hP.update _ (by exact ⟨rfl, rfl, rfl, rfl⟩)
          exact hP.send rfl hcounts
      · exact hrests
    · exact h
  · split
    · next haccepts =>
      have hrests : P (t.update fun p => { p with t100 := p.t100.rest }) :=
        hP.update _ ⟨rfl, rfl, rfl, rfl⟩ h
      have hcounts := hP.update (fun p => { p with c100 := p.c100.increment })
        ⟨rfl, rfl, Counter.increment_limit _, rfl⟩ hrests
      simp only [expireT100]
      split
      · next hstate =>
        split
        · next harrives =>
          exact hfailure .releaseUnconfirmed ⟨haccepts, hstate, harrives⟩ (hP.moveTo _ hcounts)
        · apply hP.arm
          apply hP.update _ (by exact ⟨rfl, rfl, rfl, rfl⟩)
          exact hP.send rfl hcounts
      · exact hrests
    · exact h
  · split
    · next haccepts =>
      have hrests : P (t.update fun p => { p with t104 := p.t104.rest }) :=
        hP.update _ ⟨rfl, rfl, rfl, rfl⟩ h
      simp only [expireT104]
      split
      · next hstate =>
        split
        · next harrives =>
          exact hfailure .queuePositionUnanswered ⟨haccepts, hstate, harrives⟩
            (hP.moveTo _ (hP.update _ ⟨rfl, rfl, rfl, rfl⟩
              (hP.update _ ⟨rfl, rfl, rfl, rfl⟩ hrests)))
        · apply hP.arm
          apply hP.update _ (by exact ⟨rfl, rfl, rfl, rfl⟩)
          exact hP.send rfl (hP.update _ ⟨rfl, rfl, rfl, rfl⟩ hrests)
      · exact hrests
    · exact h
  · split
    · next haccepts =>
      have hrests : P (t.update fun p => { p with t132 := p.t132.rest }) :=
        hP.update _ ⟨rfl, rfl, rfl, rfl⟩ h
      simp only [expireT132]
      split
      · next hpending =>
        apply hP.startRelease
        exact hfailure .grantNotAccepted ⟨haccepts, hpending⟩
          (hP.update _ ⟨rfl, rfl, rfl, rfl⟩ hrests)
      · exact hrests
    · exact h
  all_goals exact h

theorem beginRelease (hP : Upheld P) (h : P t) : P (beginRelease t) :=
  hP.moveTo _ (hP.update _ ⟨rfl, rfl, rfl, rfl⟩ h)

/-- Whatever comes but a ticket makes an ordinary turn. -/
theorem handle (hP : Upheld P) {p : Participant} (input : Input)
    (hexpire : ∀ ticket, input ≠ .expire ticket) (h : P ⟨p, {}⟩) : P (p.handle input) := by
  cases input with
  | initialized =>
    simp only [Participant.handle, callInitialized]
    split
    · exact hP.moveTo _ (hP.update _ ⟨rfl, rfl, rfl, rfl⟩ h)
    · exact h
  | established granted priority =>
    simp only [Participant.handle, callEstablished]
    split
    · exact hP.takeFloor (hP.update _ ⟨rfl, rfl, rfl, rfl⟩ h)
    · exact hP.update _ ⟨rfl, rfl, rfl, rfl⟩ h
  | push =>
    simp only [Participant.handle, pushToTalk]
    split
    · exact hP.tellDenied _ _ h
    split
    · apply hP.moveTo
      apply hP.arm
      apply hP.update _ (by exact ⟨rfl, rfl, rfl, rfl⟩)
      exact hP.update _ ⟨rfl, rfl, rfl, rfl⟩ (hP.send rfl h)
    · exact h
  | release =>
    simp only [Participant.handle, releaseToTalk]
    split
    · exact hP.startRelease h
    · exact hP.startRelease (hP.update _ ⟨rfl, rfl, rfl, rfl⟩ h)
    · exact hP.startRelease (hP.update _ ⟨rfl, rfl, rfl, rfl⟩ h)
    all_goals exact h
  | accept =>
    simp only [Participant.handle, acceptGrant]
    split
    · exact hP.takeFloor (hP.update _ ⟨rfl, rfl, rfl, rfl⟩ h)
    · exact h
  | askPosition =>
    simp only [Participant.handle, askQueuePosition]
    split
    · apply hP.arm
      apply hP.update _ (by exact ⟨rfl, rfl, rfl, rfl⟩)
      exact hP.update _ ⟨rfl, rfl, rfl, rfl⟩ (hP.send rfl h)
    · exact h
  | receive message => exact hP.receive message h
  | expire ticket => exact absurd rfl (hexpire ticket)
  | beginRelease => exact hP.beginRelease h
  | setDual on => exact hP.update (fun p => { p with dual := on }) ⟨rfl, rfl, rfl, rfl⟩ h
  | setIndicator wanted =>
    exact hP.update (fun p => { p with wanted := wanted }) ⟨rfl, rfl, rfl, rfl⟩ h
  | finishRelease => exact hP.update (fun p => p.finishRelease) ⟨rfl, rfl, rfl, rfl⟩ h
  | stopTimers => exact hP.update (fun p => p.stopTimers) ⟨rfl, rfl, rfl, rfl⟩ h

end Upheld

end Participant
end FloorControl
