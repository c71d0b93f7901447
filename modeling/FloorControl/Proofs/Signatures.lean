import FloorControl.Proofs.Upkeep

/-!
# Whose events are told

The observers of a server hear many calls at once and tell them apart by the number that every
event carries. Whatever happens to a machine, it keeps the number of its call, and all that it tells
in a turn carries that number.
-/

namespace FloorControl

/-- The machine belongs to the call, and all that is told in the turn is told of that call. -/
structure Turn.Signed {σ : Type} (callOf : σ → CallId) (call : CallId) (t : Turn σ) : Prop where
  machine : callOf t.machine = call
  events : ∀ e ∈ t.out.events, e.call = call

namespace Turn.Signed

variable {σ : Type} {callOf : σ → CallId} {call : CallId} {t : Turn σ}

theorem tell {e : FloorEvent} (h : t.Signed callOf call) (he : e.call = callOf t.machine) :
    (t.tell e).Signed callOf call := by
  refine ⟨h.machine, fun told htold => ?_⟩
  rcases List.mem_append.mp htold with hbefore | hnow
  · exact h.events told hbefore
  · rw [List.mem_singleton.mp hnow, he, h.machine]

end Turn.Signed

namespace Arbitrator

abbrev Signed (call : CallId) (t : Turn Arbitrator) : Prop := t.Signed Arbitrator.callId call

variable {call : CallId} {t : Turn Arbitrator}

theorem upheld_signed (call : CallId) : Upheld (Signed call) where
  update _ hmild h := ⟨hmild.callId.trans h.machine, h.events⟩
  post _ _ h := ⟨h.machine, h.events⟩
  moved _ _ h := h.tell rfl
  arm _ h := ⟨h.machine, h.events⟩

private theorem signed_onDual {f : Turn DualFloor → Turn DualFloor} (h : Signed call t)
    (hf : ∀ u, (f u).out.events = u.out.events) : Signed call (onDual f t) :=
  ⟨h.machine, fun e he => h.events e (by simpa [onDual, hf] using he)⟩

theorem signed_receive (message : Message) (h : Signed call t) :
    Signed call (receive message t) := by
  rcases (upheld_signed call).receive message h with hsigned | ⟨r, -, -, -, -, heq⟩
  · exact hsigned
  · rw [heq]
    refine signed_onDual h fun u => ?_
    simp only [DualFloor.grant]
    split <;> rfl

private theorem signed_expireT20 (ticket : Ticket) (h : Signed call t) :
    Signed call (expireT20 ticket t) := by
  have hinner : (DualFloor.expire ticket ⟨t.machine.dual, t.out⟩).2.out.events = t.out.events := by
    simp only [DualFloor.expire]
    split
    · rfl
    split
    · rfl
    split
    · rfl
    · simp only [DualFloor.resendGrant]
      split <;> rfl
  have hmiddle : Signed call ⟨{ t.machine with
      dual := (DualFloor.expire ticket ⟨t.machine.dual, t.out⟩).2.machine },
      (DualFloor.expire ticket ⟨t.machine.dual, t.out⟩).2.out⟩ :=
    ⟨h.machine, fun e he => h.events e (hinner ▸ he)⟩
  have hsent (ssrc : Ssrc) (message : Message) {u : Turn Arbitrator} (hu : Signed call u) :
      Signed call (sendTo ssrc message u) := by
    simp only [sendTo]
    split
    · exact ⟨hu.machine, hu.events⟩
    · exact hu
  simp only [expireT20]
  split
  · refine (hsent _ _ hmiddle).tell ?_
    rw [(hsent _ _ hmiddle).machine]
    exact hmiddle.machine
  · exact hmiddle
  · exact hmiddle

theorem signed_expire (ticket : Ticket) (h : Signed call t) : Signed call (expire ticket t) := by
  rcases (upheld_signed call).expire ticket h with hsigned | ⟨-, heq⟩
  · exact hsigned
  · rw [heq]
    exact signed_expireT20 ticket h

theorem callId_addParticipant {a b : Arbitrator} {ssrc : Ssrc} {priority : Priority}
    {originator : Bool} (h : addParticipant ssrc priority originator a = .ok b) :
    b.callId = a.callId := by
  simp only [addParticipant] at h
  split at h
  · cases h
  · cases h
    rfl

theorem signed_clientRelease {ssrc : Ssrc} {u : Turn Arbitrator} (h : Signed call t)
    (hu : clientRelease ssrc t = .ok u) : Signed call u :=
  (upheld_signed call).clientRelease ⟨h.machine, h.events⟩ hu

end Arbitrator

namespace Participant

abbrev Signed (call : CallId) (t : Turn Participant) : Prop := t.Signed Participant.callId call

theorem upheld_signed (call : CallId) : Upheld (Signed call) where
  update _ hmild h := ⟨hmild.callId.trans h.machine, h.events⟩
  post _ _ h := ⟨h.machine, h.events⟩
  tell _ hcall _ h := h.tell hcall
  arm _ h := ⟨h.machine, h.events⟩

/-- Whatever a participant does, it tells of its own call. -/
theorem signed_handle (input : Input) (p : Participant) :
    Signed p.callId (p.handle input) := by
  have hready : Signed p.callId ⟨p, {}⟩ := ⟨rfl, by simp⟩
  by_cases hexpire : ∃ ticket, input = .expire ticket
  · obtain ⟨ticket, rfl⟩ := hexpire
    exact (upheld_signed p.callId).expire ticket (fun _ _ hu => hu.tell rfl) hready
  · exact (upheld_signed p.callId).handle input (fun ticket heq => hexpire ⟨ticket, heq⟩) hready

end Participant

namespace Session

/-- All machines belong to the call, and all that was told since then was told of it. -/
structure Signed (call : CallId) (earlier : List TraceEvent) (r : Run) : Prop where
  callId : r.state.callId = call
  arbitrator : r.state.arbitrator.callId = call
  participants : ∀ ssrc p, r.state.participants.get? ssrc = some p → p.callId = call
  log : ∃ told, r.log = told ++ earlier ∧ ∀ e ∈ told, e.event.call = call

namespace Signed

variable {call : CallId} {earlier : List TraceEvent} {r : Run}

theorem tell {event : FloorEvent} (he : event.call = call) (h : Signed call earlier r) :
    Signed call earlier (tell event r) := by
  obtain ⟨told, hlog, htold⟩ := h.log
  refine ⟨h.callId, h.arbitrator, h.participants, ⟨r.state.scheduler.now, event⟩ :: told,
    congrArg _ hlog, fun e hmem => ?_⟩
  rcases List.mem_cons.mp hmem with rfl | hmem
  · exact he
  · exact htold e hmem

theorem schedule (delay : Nat) (event : SessionEvent) (h : Signed call earlier r) :
    Signed call earlier (schedule delay event r) :=
  ⟨h.callId, h.arbitrator, h.participants, h.log⟩

theorem settle (t : Nat) (h : Signed call earlier r) : Signed call earlier (settle t r) :=
  ⟨h.callId, h.arbitrator, h.participants, h.log⟩

private theorem foldl {α : Type} {f : Run → α → Run} {xs : List α}
    (hf : ∀ r, ∀ x ∈ xs, Signed call earlier r → Signed call earlier (f r x))
    (h : Signed call earlier r) : Signed call earlier (xs.foldl f r) := by
  induction xs generalizing r with
  | nil => exact h
  | cons x xs ih =>
    exact ih (fun r y hy => hf r y (.tail _ hy)) (hf r x (.head _) h)

theorem dispatch {out : Outbox} (hout : ∀ e ∈ out.events, e.call = call)
    (h : Signed call earlier r) : Signed call earlier (dispatch out r) := by
  refine foldl (fun r e he hr => hr.tell (hout e he)) ?_
  refine foldl (fun r e _ hr => (hr.tell ?_).schedule _ _) ?_
  · exact hr.callId
  · exact foldl (fun r armed _ hr => hr.schedule _ _) h

theorem setArbitrator {a : Arbitrator} (ha : a.callId = call) (h : Signed call earlier r) :
    Signed call earlier (setArbitrator a r) :=
  ⟨h.callId, ha, h.participants, h.log⟩

theorem setParticipant (ssrc : Ssrc) {p : Participant} (hp : p.callId = call)
    (h : Signed call earlier r) : Signed call earlier (setParticipant ssrc p r) := by
  refine ⟨h.callId, h.arbitrator, fun other q hq => ?_, h.log⟩
  simp only [Session.setParticipant, Roster.get?_modify] at hq
  split at hq
  · obtain ⟨-, -, rfl⟩ := Option.map_eq_some_iff.mp hq
    exact hp
  · exact h.participants other q hq

theorem onArbitrator {f : Turn Arbitrator → Turn Arbitrator}
    (hf : ∀ t, Arbitrator.Signed call t → Arbitrator.Signed call (f t))
    (h : Signed call earlier r) : Signed call earlier (onArbitrator f r) := by
  have hturn := hf ⟨r.state.arbitrator, {}⟩ ⟨h.arbitrator, by simp⟩
  exact (h.setArbitrator hturn.machine).dispatch hturn.events

/-- A participant takes its turn. -/
theorem turn {ssrc : Ssrc} {p : Participant} {input : Participant.Input}
    (hget : r.state.participants.get? ssrc = some p) (h : Signed call earlier r) :
    Signed call earlier
      (Session.dispatch (p.handle input).out
        (Session.setParticipant ssrc (p.handle input).machine r)) := by
  have hturn := Participant.signed_handle input p
  rw [h.participants ssrc p hget] at hturn
  exact (h.setParticipant ssrc hturn.machine).dispatch hturn.events

theorem deliver (event : SessionEvent) (h : Signed call earlier r) :
    Signed call earlier (deliver event r) := by
  have hparticipant : ∀ (ssrc : Ssrc) (input : Participant.Input)
      (f : Turn Participant → Turn Participant), (∀ p, f ⟨p, {}⟩ = p.handle input) →
      Signed call earlier (onParticipant ssrc f r) := by
    intro ssrc input f hf
    simp only [onParticipant]
    split
    · exact h
    · next p hget =>
      rw [hf p]
      exact h.turn hget
  cases event with
  | expiry ticket =>
    simp only [Session.deliver]
    split
    · exact h.onArbitrator fun t ht => Arbitrator.signed_expire ticket ht
    · exact hparticipant _ (.expire ticket) _ fun _ => rfl
  | toArbitrator message => exact h.onArbitrator fun t ht => Arbitrator.signed_receive message ht
  | toParticipant ssrc message => exact hparticipant ssrc (.receive message) _ fun _ => rfl

theorem deliverNext? {t : Nat} {next : Run} (hnext : deliverNext? t r = some next)
    (h : Signed call earlier r) : Signed call earlier next := by
  simp only [Session.deliverNext?, Option.map_eq_some_iff] at hnext
  obtain ⟨⟨event, scheduler⟩, -, rfl⟩ := hnext
  exact deliver event ⟨h.callId, h.arbitrator, h.participants, h.log⟩

theorem advances {t : Nat} {last : Run} (hlast : Advances t r last)
    (h : Signed call earlier r) : Signed call earlier last := by
  induction hlast with
  | settled => exact h.settle t
  | delivered hnext _ ih => exact ih (h.deliverNext? hnext)

theorem advanceTo (t : Nat) (h : Signed call earlier r) :
    Signed call earlier (advanceTo t r) := by
  rw [Session.advanceTo]
  cases hlast : advance? stepLimit t r with
  | none => exact h
  | some last => exact h.advances (.of_advance? hlast)

private theorem whenActive {f : Run → Answer} (hf : Signed call earlier (f r).2)
    (h : Signed call earlier r) : Signed call earlier (whenActive f r).2 := by
  simp only [Session.whenActive]
  split
  · exact hf
  · exact h

private theorem withParticipant {ssrc : Ssrc} {f : Participant → Run → Answer}
    (hf : ∀ p, r.state.participants.get? ssrc = some p → Signed call earlier (f p r).2)
    (h : Signed call earlier r) : Signed call earlier (withParticipant ssrc f r).2 := by
  refine whenActive ?_ h
  split
  · exact h
  · next p hget => exact hf p hget

private theorem act {input : Participant.Input} {ssrc : Ssrc} (h : Signed call earlier r) :
    Signed call earlier (act input ssrc r).2 :=
  withParticipant (fun _ hget => h.turn hget) h

private theorem join {ssrc : Ssrc} {priority : Priority} {originator : Bool}
    (h : Signed call earlier r) : Signed call earlier (join ssrc priority originator r).2 := by
  refine whenActive ?_ h
  split
  · exact h
  · next a ha =>
    refine ⟨h.callId, (Arbitrator.callId_addParticipant ha).trans h.arbitrator,
      fun other p hp => ?_, h.log⟩
    simp only [Roster.get?_insert] at hp
    split at hp
    · cases hp
      exact h.callId
    · exact h.participants other p hp

private theorem setUp (ssrc : Ssrc) (h : Signed call earlier r) :
    Signed call earlier (setUp ssrc r).2 := by
  refine withParticipant (fun p hget => ?_) h
  have hturn := Participant.signed_handle .initialized p
  rw [h.participants ssrc p hget] at hturn
  have hset := h.setParticipant ssrc hturn.machine
  simp only
  split
  · exact hset
  · next u hu =>
    have hinitialized := (Arbitrator.upheld_signed call).callInitialized
      ⟨h.arbitrator, hturn.events⟩ hu
    exact (hset.setArbitrator hinitialized.machine).dispatch hinitialized.events

private theorem setUpEach {ssrcs : List Ssrc} (h : Signed call earlier r) :
    Signed call earlier (setUpEach ssrcs r).2 := by
  induction ssrcs generalizing r with
  | nil => exact h
  | cons ssrc rest ih =>
    have hfirst := h.setUp ssrc
    simp only [Session.setUpEach]
    split
    · next heq =>
      rw [heq] at hfirst
      exact ih hfirst
    · exact hfirst

private theorem establish {ssrc : Ssrc} {granted : Bool} (h : Signed call earlier r) :
    Signed call earlier (establish ssrc granted r).2 := by
  refine withParticipant (fun p hget => ?_) h
  have hturn := Participant.signed_handle (.established granted p.priority) p
  rw [h.participants ssrc p hget] at hturn
  have hset := h.setParticipant ssrc hturn.machine
  simp only
  split
  · split
    · exact hset
    · next u hu =>
      have himplicit := (Arbitrator.upheld_signed call).implicitFloorRequest
        ⟨h.arbitrator, hturn.events⟩ hu
      exact (hset.setArbitrator himplicit.machine).dispatch himplicit.events
  · exact hset.dispatch hturn.events

private theorem erase {ssrc : Ssrc} (h : Signed call earlier r) :
    Signed call earlier
      { r with state := { r.state with participants := r.state.participants.erase ssrc } } := by
  refine ⟨h.callId, h.arbitrator, fun other p hp => ?_, h.log⟩
  simp only [Roster.get?_erase] at hp
  split at hp
  · cases hp
  · exact h.participants other p hp

private theorem clientRelease {ssrc : Ssrc} (h : Signed call earlier r) :
    Signed call earlier (clientRelease ssrc r).2 := by
  refine whenActive ?_ h
  split
  · exact h
  · next u hu =>
    have hturn := Arbitrator.signed_clientRelease (t := ⟨r.state.arbitrator, {}⟩)
      ⟨h.arbitrator, by simp⟩ hu
    have hset := h.setArbitrator hturn.machine
    simp only
    split
    · exact hset.dispatch hturn.events
    · next p hget =>
      have hgone := (Participant.upheld_signed call).beginRelease (t := ⟨p, u.out⟩)
        ⟨h.participants ssrc p hget, hturn.events⟩
      exact hset.erase.dispatch hgone.events

private theorem signed_releaseEach (ssrcs : List Ssrc) {participants : Roster Participant}
    {out : Outbox} (hparticipants : ∀ ssrc p, participants.get? ssrc = some p → p.callId = call)
    (hout : ∀ e ∈ out.events, e.call = call) :
    (∀ ssrc p, (releaseEach ssrcs participants out).1.get? ssrc = some p → p.callId = call) ∧
      ∀ e ∈ (releaseEach ssrcs participants out).2.events, e.call = call := by
  induction ssrcs generalizing participants out with
  | nil => exact ⟨hparticipants, hout⟩
  | cons ssrc rest ih =>
    simp only [releaseEach]
    split
    · exact ih hparticipants hout
    · next p hget =>
      have hgone := (Participant.upheld_signed call).beginRelease (t := ⟨p, out⟩)
        ⟨hparticipants ssrc p hget, hout⟩
      refine ih (fun other q hq => ?_) hgone.events
      rw [Roster.get?_modify] at hq
      split at hq
      · obtain ⟨-, -, rfl⟩ := Option.map_eq_some_iff.mp hq
        exact hgone.machine
      · exact hparticipants other q hq

private theorem beginRelease (h : Signed call earlier r) :
    Signed call earlier (beginRelease r) := by
  have hturn := (Arbitrator.upheld_signed call).beginRelease (t := ⟨r.state.arbitrator, {}⟩)
    ⟨h.arbitrator, by simp⟩
  obtain ⟨hparticipants, hout⟩ :=
    signed_releaseEach r.state.participants.ssrcs h.participants hturn.events
  exact dispatch hout ⟨h.callId, hturn.machine, hparticipants, h.log⟩

private theorem finishRelease (h : Signed call earlier r) :
    Signed call earlier (finishRelease r) := by
  have hturn := (Arbitrator.upheld_signed call).finishRelease (t := ⟨r.state.arbitrator, {}⟩)
    ⟨h.arbitrator, by simp⟩
  have hstopped : Signed call earlier { r with state := { r.state with
      arbitrator := (Arbitrator.finishRelease ⟨r.state.arbitrator, {}⟩).machine
      participants := r.state.participants.mapWith fun _ p => p.finishRelease } } := by
    refine ⟨h.callId, hturn.machine, fun ssrc p hp => ?_, h.log⟩
    simp only [Roster.get?_mapWith, Option.map_eq_some_iff] at hp
    obtain ⟨q, hq, rfl⟩ := hp
    exact h.participants ssrc q hq
  have hdone := hstopped.dispatch hturn.events
  exact tell hdone.callId ⟨hdone.callId, hdone.arbitrator, hdone.participants, hdone.log⟩

theorem release (h : Signed call earlier r) : Signed call earlier (release r) := by
  simp only [Session.release]
  split
  · exact h
  · exact (h.beginRelease.advanceTo _).finishRelease

/-- Whatever is done with a call, it is told of that call. -/
theorem perform (op : Operation) (h : Signed call earlier r) :
    Signed call earlier (perform op r).2 := by
  cases op with
  | join => exact h.join
  | setUp ssrc => exact h.setUp ssrc
  | setUpAll => exact h.setUpEach
  | establish => exact h.establish
  | push | releaseTalk | accept | askPosition | setDual | setIndicator => exact h.act
  | leave => exact h.clientRelease
  | release => exact h.release
  | runUntilIdle | advanceTo | advanceBy => exact h.advanceTo _

end Signed
end Session
end FloorControl
