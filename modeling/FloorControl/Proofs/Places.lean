import FloorControl.ArbitratorStep

/-!
# The places of the floor

An arbitrator without its timers and counters: the state, the roster, and who is in which place.
This module says for each step by which the floor changes hands what it does to the places and
which messages it adds to the outbox, so that nothing later has to look at the timers.
-/

namespace FloorControl.Arbitrator

/-- Who is in which place, with all that decides about it. -/
structure Places where
  config : ArbitratorConfig
  state : ArbitratorState
  roster : Roster Proxy
  queue : FloorQueue
  holder : Option Talker
  second : Option Talker
  preemptor : Option Talker
  implicitRequest : Option Ssrc

def places (a : Arbitrator) : Places where
  config := a.config
  state := a.state
  roster := a.roster
  queue := a.queue
  holder := a.holder
  second := a.dual.talker
  preemptor := a.preemptor
  implicitRequest := a.implicitRequest

def letterTo (ssrc : Ssrc) (message : Message) : Envelope :=
  ⟨.arbitrator, .participant ssrc, message⟩

def lettersTo (roster : Roster Proxy) (ssrc : Ssrc) (message : Message) : List Envelope :=
  if roster.contains ssrc then [letterTo ssrc message] else []

def lettersExcept (roster : Roster Proxy) (except : Option Ssrc) (message : Message) :
    List Envelope :=
  (roster.ssrcs.filter fun ssrc => some ssrc ≠ except).map fun ssrc => letterTo ssrc message

theorem mem_lettersTo {roster : Roster Proxy} {ssrc : Ssrc} {message : Message} {e : Envelope} :
    e ∈ lettersTo roster ssrc message ↔
      roster.contains ssrc = true ∧ e = letterTo ssrc message := by
  by_cases h : roster.contains ssrc = true <;> simp [lettersTo, h]

theorem mem_lettersExcept {roster : Roster Proxy} {except : Option Ssrc} {message : Message}
    {e : Envelope} :
    e ∈ lettersExcept roster except message ↔
      ∃ ssrc, roster.contains ssrc = true ∧ some ssrc ≠ except ∧ e = letterTo ssrc message := by
  simp only [lettersExcept, List.mem_map, List.mem_filter, decide_eq_true_eq,
    roster.contains_iff_mem, and_assoc]
  constructor
  · rintro ⟨ssrc, hmem, hne, rfl⟩
    exact ⟨ssrc, hmem, hne, rfl⟩
  · rintro ⟨ssrc, hmem, hne, rfl⟩
    exact ⟨ssrc, hmem, hne, rfl⟩

variable {t : Turn Arbitrator}

@[simp] theorem machine_sendTo (ssrc : Ssrc) (message : Message) :
    (sendTo ssrc message t).machine = t.machine := by
  simp only [sendTo]
  split <;> rfl

theorem messages_sendTo (ssrc : Ssrc) (message : Message) :
    (sendTo ssrc message t).out.messages =
      t.out.messages ++ lettersTo t.machine.places.roster ssrc message := by
  by_cases h : t.machine.roster.contains ssrc = true
  all_goals simp [sendTo, lettersTo, places, letterTo, h]

@[simp] theorem machine_broadcastExcept (except : Option Ssrc) (message : Message) :
    (broadcastExcept except message t).machine = t.machine := rfl

theorem messages_broadcastExcept (except : Option Ssrc) (message : Message) :
    (broadcastExcept except message t).out.messages =
      t.out.messages ++ lettersExcept t.machine.places.roster except message := rfl

@[simp] theorem machine_broadcast (message : Message) :
    (broadcast message t).machine = t.machine := rfl

theorem messages_broadcast (message : Message) :
    (broadcast message t).out.messages =
      t.out.messages ++ lettersExcept t.machine.places.roster none message := rfl

@[simp] theorem machine_deny (ssrc : Ssrc) (cause : DenyCause) :
    (deny ssrc cause t).machine = t.machine := machine_sendTo _ _

@[simp] theorem machine_sendPosition (ssrc : Ssrc) (position : Nat) :
    (sendPosition ssrc position t).machine = t.machine := machine_sendTo _ _

@[simp] theorem machine_sendPreemptorPosition (who : Talker) :
    (sendPreemptorPosition who t).machine = t.machine := machine_sendTo _ _

@[simp] theorem machine_dismiss (former : Option Talker) :
    (dismiss former t).machine = t.machine := by
  cases former <;> simp [dismiss]

@[simp] theorem messages_dismiss (who : Talker) :
    (dismiss (some who) t).out.messages =
      t.out.messages ++ lettersTo t.machine.places.roster who.ssrc t.machine.idleMessage :=
  messages_sendTo _ _

@[simp] theorem places_startT1 : (startT1 t).machine.places = t.machine.places := rfl

@[simp] theorem places_startT2 : (startT2 t).machine.places = t.machine.places := rfl

@[simp] theorem places_startT3 : (startT3 t).machine.places = t.machine.places := rfl

@[simp] theorem places_startT4 : (startT4 t).machine.places = t.machine.places := rfl

@[simp] theorem places_startT7 : (startT7 t).machine.places = t.machine.places := rfl

@[simp] theorem messages_startT1 : (startT1 t).out.messages = t.out.messages := rfl

@[simp] theorem messages_startT2 : (startT2 t).out.messages = t.out.messages := rfl

@[simp] theorem messages_startT3 : (startT3 t).out.messages = t.out.messages := rfl

@[simp] theorem messages_startT4 : (startT4 t).out.messages = t.out.messages := rfl

@[simp] theorem messages_startT7 : (startT7 t).out.messages = t.out.messages := rfl

@[simp] theorem places_stopStateTimers (state : ArbitratorState) (a : Arbitrator) :
    (stopStateTimers state a).places = a.places := by
  cases state <;> rfl

@[simp] theorem places_startStateTimers :
    (startStateTimers t).machine.places = t.machine.places := by
  simp only [startStateTimers]
  split <;> rfl

@[simp] theorem messages_startStateTimers :
    (startStateTimers t).out.messages = t.out.messages := by
  simp only [startStateTimers]
  split <;> rfl

@[simp] theorem places_moveTo (next : ArbitratorState) :
    (moveTo next t).machine.places = { t.machine.places with state := next } := by
  simp only [moveTo]
  split
  · next h => subst h; rfl
  · rw [places_startStateTimers]
    exact congrArg (fun p : Places => { p with state := next }) (places_stopStateTimers _ _)

@[simp] theorem messages_moveTo (next : ArbitratorState) :
    (moveTo next t).out.messages = t.out.messages := by
  simp only [moveTo]
  split
  · rfl
  · simp

@[simp] theorem places_refreshT4 : (refreshT4 t).machine.places = t.machine.places := by
  simp only [refreshT4]
  split
  · split <;> rfl
  · rfl

@[simp] theorem messages_refreshT4 : (refreshT4 t).out.messages = t.out.messages := by
  simp only [refreshT4]
  split
  · split <;> rfl
  · rfl

@[simp] theorem places_grant (who : Talker) :
    (grant who t).machine.places =
      { t.machine.places with
        queue := t.machine.places.queue.remove who.ssrc, holder := some who, state := .taken } := by
  simp only [grant, places_refreshT4, places_moveTo, places_startT2, machine_broadcastExcept,
    machine_sendTo]
  rfl

theorem messages_grant (who : Talker) :
    (grant who t).out.messages = t.out.messages ++
      lettersTo t.machine.places.roster who.ssrc (t.machine.grantedMessage who) ++
      lettersExcept t.machine.places.roster (some who.ssrc) (t.machine.takenMessage who.ssrc) := by
  simp only [grant, messages_refreshT4, messages_moveTo, messages_startT2,
    messages_broadcastExcept, messages_sendTo, machine_sendTo]
  rfl

/-- Whether a party may have the floor: it is in the roster and not there to listen only. -/
def MayTalk (roster : Roster Proxy) (ssrc : Ssrc) : Prop :=
  ∃ proxy, roster.get? ssrc = some proxy ∧ proxy.receiveOnly = false

theorem MayTalk.contains {roster : Roster Proxy} {ssrc : Ssrc} (h : MayTalk roster ssrc) :
    roster.contains ssrc = true := by
  obtain ⟨proxy, hget, _⟩ := h
  simp [roster.contains_eq_isSome_get?, hget]

/-- A party without a place is granted the floor on behalf of its call only if it may talk. -/
theorem grantImplicit_cases (ssrc : Ssrc) (t : Turn Arbitrator) :
    ¬ MayTalk t.machine.places.roster ssrc ∧ grantImplicit ssrc t = t ∨
      ∃ who, who.ssrc = ssrc ∧ MayTalk t.machine.places.roster ssrc ∧
        grantImplicit ssrc t = grant who t := by
  simp only [grantImplicit]
  split
  · next hget =>
    refine .inl ⟨fun ⟨proxy, hproxy, _⟩ => ?_, rfl⟩
    cases hget.symm.trans hproxy
  · next proxy hget =>
    split
    · next hlisten =>
      refine .inl ⟨fun ⟨other, hother, htalks⟩ => ?_, rfl⟩
      cases hget.symm.trans hother
      simp [hlisten] at htalks
    · next hlisten => exact .inr ⟨_, rfl, ⟨proxy, hget, by simpa using hlisten⟩, rfl⟩

@[simp] theorem revokeHolder_none (cause : RevokeCause) (h : t.machine.holder = none) :
    revokeHolder cause t = t := by
  simp [revokeHolder, h]

theorem places_revokeHolder {who : Talker} (cause : RevokeCause)
    (h : t.machine.places.holder = some who) :
    (revokeHolder cause t).machine.places = { t.machine.places with state := .pendingRevoke } := by
  change t.machine.holder = some who at h
  simp only [revokeHolder, h, places_moveTo, machine_sendTo]
  rfl

theorem messages_revokeHolder {who : Talker} (cause : RevokeCause)
    (h : t.machine.places.holder = some who) :
    (revokeHolder cause t).out.messages = t.out.messages ++
      lettersTo t.machine.places.roster who.ssrc (t.machine.revokeMessage who.ssrc cause) := by
  change t.machine.holder = some who at h
  simp only [revokeHolder, h, messages_moveTo, messages_sendTo]
  rfl

/-- A party that may wait is told its place; any other is turned down. -/
theorem queueOrDeny_cases (who : Talker) (willing : Bool) (t : Turn Arbitrator) :
    (∃ queue position priority, t.machine.places.queue.enqueue who = .ok (queue, position) ∧
      (queueOrDeny who willing t).machine.places = { t.machine.places with queue := queue } ∧
      (queueOrDeny who willing t).out.messages = t.out.messages ++
        lettersTo t.machine.places.roster who.ssrc
          (.queuePositionInfo who.ssrc (UInt64.ofNat position) priority)) ∨
    (∃ cause ack, (queueOrDeny who willing t).machine.places = t.machine.places ∧
      (queueOrDeny who willing t).out.messages = t.out.messages ++
        lettersTo t.machine.places.roster who.ssrc (.denied who.ssrc cause ack)) := by
  simp only [queueOrDeny]
  split
  · split
    · next queue position hq =>
      refine .inl ⟨queue, position, ((queue.get? who.ssrc).map (·.priority)).getD 0, hq, ?_, ?_⟩
      · rw [places_refreshT4, machine_sendPosition]
        rfl
      · rw [messages_refreshT4, sendPosition, messages_sendTo]
        rfl
    · refine .inr ⟨.noResources, t.machine.config.ackRequired, ?_, ?_⟩
      · rw [machine_deny]
      · rw [deny, messages_sendTo]
  · refine .inr ⟨.anotherUserHasPermission, t.machine.config.ackRequired, ?_, ?_⟩
    · rw [machine_deny]
    · rw [deny, messages_sendTo]

theorem places_onDual (f : Turn DualFloor → Turn DualFloor) :
    (onDual f t).machine.places =
      { t.machine.places with second := (f ⟨t.machine.dual, t.out⟩).machine.talker } := rfl

theorem messages_onDual (f : Turn DualFloor → Turn DualFloor) :
    (onDual f t).out.messages = (f ⟨t.machine.dual, t.out⟩).out.messages := rfl

theorem places_onDual_grant (who : Talker) (others : List Ssrc) :
    (onDual (DualFloor.grant who others) t).machine.places =
      { t.machine.places with second := some who } := rfl

theorem messages_onDual_grant (who : Talker) (others : List Ssrc) :
    (onDual (DualFloor.grant who others) t).out.messages = t.out.messages ++
      t.machine.dual.grantMessage who ::
        (others.filter (· ≠ who.ssrc)).map (t.machine.dual.takenMessage who) := by
  simp only [messages_onDual, DualFloor.grant]
  split <;> rfl

theorem places_onDual_resendGrant :
    (onDual DualFloor.resendGrant t).machine.places = t.machine.places := by
  simp only [places_onDual, DualFloor.resendGrant]
  split <;> rfl

theorem messages_onDual_resendGrant {who : Talker} (h : t.machine.places.second = some who) :
    (onDual DualFloor.resendGrant t).out.messages =
      t.out.messages ++ [t.machine.dual.grantMessage who] := by
  change t.machine.dual.talker = some who at h
  simp [messages_onDual, DualFloor.resendGrant, h]

theorem becomeIdle_of_none (hstate : t.machine.places.state ≠ .idle)
    (h : t.machine.places.implicitRequest = none) : becomeIdle t = moveTo .idle t := by
  have hmoved : (moveTo .idle t).machine.implicitRequest = none := by
    rw [← h]
    exact congrArg Places.implicitRequest (places_moveTo .idle)
  change t.machine.state ≠ .idle at hstate
  simp [becomeIdle, hstate, hmoved]

theorem becomeIdle_of_some {ssrc : Ssrc} (hstate : t.machine.places.state ≠ .idle)
    (h : t.machine.places.implicitRequest = some ssrc) :
    becomeIdle t =
      grantImplicit ssrc ((moveTo .idle t).update fun a => { a with implicitRequest := none }) := by
  have hmoved : (moveTo .idle t).machine.implicitRequest = some ssrc := by
    rw [← h]
    exact congrArg Places.implicitRequest (places_moveTo .idle)
  change t.machine.state ≠ .idle at hstate
  simp [becomeIdle, hstate, hmoved]

def vacated (t : Turn Arbitrator) : Turn Arbitrator :=
  t.update fun a => { a with holder := none, dual := a.dual.vacate }

@[simp] theorem places_vacated :
    (vacated t).machine.places = { t.machine.places with holder := none, second := none } := rfl

@[simp] theorem messages_vacated : (vacated t).out.messages = t.out.messages := rfl

theorem endHolder_of_second {second : Talker} (h : t.machine.places.second = some second) :
    endHolder t = promote t.machine.places.holder second (vacated t) := by
  change t.machine.dual.talker = some second at h
  simp only [endHolder, h]
  rfl

/-- The second talker becomes the holder, and then the preemptor is looked at. -/
theorem promote_eq (former second : Talker) (t : Turn Arbitrator) :
    ∃ u : Turn Arbitrator,
      u.machine.places = { t.machine.places with holder := some second, state := .taken } ∧
      u.out.messages = t.out.messages ++
        (lettersTo t.machine.places.roster former.ssrc t.machine.idleMessage ++
          lettersExcept t.machine.places.roster (some second.ssrc)
            (t.machine.takenMessage second.ssrc)) ∧
      promote (some former) second t =
        match t.machine.places.preemptor with
        | none => u
        | some p =>
          if p.preempts second then revokeHolder .preempted u
          else queueOrDeny p true (u.update fun a => { a with preemptor := none }) := by
  let v : Turn Arbitrator :=
    broadcastExcept (some second.ssrc) (t.machine.takenMessage second.ssrc)
      ((dismiss (some former) t).update fun a => { a with holder := some second })
  have hplaces : (refreshT4 (moveTo .taken (startT2 v))).machine.places =
      { t.machine.places with holder := some second, state := .taken } := by
    have hv : v.machine.places = { t.machine.places with holder := some second } :=
      congrArg (fun a : Arbitrator => { a with holder := some second }.places)
        (machine_dismiss (some former))
    rw [places_refreshT4, places_moveTo, places_startT2, hv]
  refine ⟨refreshT4 (moveTo .taken (startT2 v)), hplaces, ?_, ?_⟩
  · rw [messages_refreshT4, messages_moveTo, messages_startT2, messages_broadcastExcept,
      Turn.out_update, messages_dismiss, Turn.machine_update, machine_dismiss, List.append_assoc]
    rfl
  · have hpreemptor : (refreshT4 (moveTo .taken (startT2 v))).machine.preemptor =
        t.machine.places.preemptor := congrArg Places.preemptor hplaces
    rw [← hpreemptor]
    simp only [promote, v, machine_dismiss, Turn.machine_update]
    rfl

private theorem nextTalker_of_preemptor {a : Arbitrator} {who : Talker}
    (h : a.preemptor = some who) :
    nextTalker a = (some who, { a with preemptor := none }) := by
  simp [nextTalker, h]

private theorem nextTalker_of_queue {a : Arbitrator} {entry : QueueEntry}
    {rest : List QueueEntry} (hpreemptor : a.preemptor = none)
    (h : a.queue.entries = entry :: rest) :
    nextTalker a =
      (some entry.talker, { a with queue := { a.queue with entries := rest } }) := by
  cases a
  subst hpreemptor
  simp only at h
  simp [nextTalker, FloorQueue.dequeue?, h]

private theorem nextTalker_of_nobody {a : Arbitrator} (hpreemptor : a.preemptor = none)
    (h : a.queue.entries = []) : nextTalker a = (none, a) := by
  simp [nextTalker, FloorQueue.dequeue?, hpreemptor, h]

private theorem endHolder_of_vacant (hsecond : t.machine.places.second = none) :
    endHolder t =
      match nextTalker (vacated t).machine with
      | (some who, machine) =>
        grant who (dismiss t.machine.places.holder ((vacated t).update fun _ => machine))
      | (none, machine) =>
        becomeIdle (broadcast machine.idleMessage ((vacated t).update fun _ => machine)) := by
  change t.machine.dual.talker = none at hsecond
  simp only [endHolder, hsecond]
  cases h : nextTalker (vacated t).machine with
  | mk next machine => cases next <;> (simp only [vacated, Turn.update] at h; simp [h]; rfl)

theorem endHolder_of_preemptor {who : Talker} (hsecond : t.machine.places.second = none)
    (h : t.machine.places.preemptor = some who) :
    endHolder t = grant who (dismiss t.machine.places.holder
      ((vacated t).update fun a => { a with preemptor := none })) := by
  rw [endHolder_of_vacant hsecond, nextTalker_of_preemptor (a := (vacated t).machine) h]
  rfl

theorem endHolder_of_queue {entry : QueueEntry} {rest : List QueueEntry}
    (hsecond : t.machine.places.second = none) (hpreemptor : t.machine.places.preemptor = none)
    (h : t.machine.places.queue.entries = entry :: rest) :
    endHolder t = grant entry.talker (dismiss t.machine.places.holder
      ((vacated t).update fun a => { a with queue := { a.queue with entries := rest } })) := by
  rw [endHolder_of_vacant hsecond, nextTalker_of_queue (a := (vacated t).machine) hpreemptor h]
  rfl

theorem endHolder_of_nobody (hsecond : t.machine.places.second = none)
    (hpreemptor : t.machine.places.preemptor = none)
    (h : t.machine.places.queue.entries = []) :
    endHolder t = becomeIdle (broadcast t.machine.idleMessage (vacated t)) := by
  rw [endHolder_of_vacant hsecond, nextTalker_of_nobody (a := (vacated t).machine) hpreemptor h]
  rfl

structure Placeless (a : Arbitrator) (ssrc : Ssrc) : Prop where
  holder : ∀ who, a.holder = some who → who.ssrc ≠ ssrc
  second : ∀ who, a.dual.talker = some who → who.ssrc ≠ ssrc
  queue : a.queue.position? ssrc = none
  preemptor : ∀ who, a.preemptor = some who → who.ssrc ≠ ssrc

/-- A request does not take the floor from its holder, or another one does so before. -/
def Withstands (a : Arbitrator) (r : Request) : Prop :=
  ∀ holder, a.holder = some holder → a.state.occupied = true →
    r.talker.preempts holder = false ∨
      ∃ former, a.preemptor = some former ∧ r.talker.preempts former = false

/-- What comes of a request while the floor is occupied, one constructor for each way that it can
go, with the conditions under which it goes that way. -/
inductive Reaction (r : Request) (receiveOnly : Bool) (t : Turn Arbitrator) :
    Turn Arbitrator → Prop
  /-- A party that has a place is told of it. -/
  | holder {who : Talker} : t.machine.holder = some who → who.ssrc = r.ssrc →
      Reaction r receiveOnly t (sendTo who.ssrc (t.machine.grantedMessage who) t)
  | second {who : Talker} : t.machine.dual.talker = some who → who.ssrc = r.ssrc →
      Reaction r receiveOnly t (onDual DualFloor.resendGrant t)
  | waiting {position : Nat} : t.machine.queue.position? r.ssrc = some position →
      Reaction r receiveOnly t (sendPosition r.ssrc position t)
  | preemptor {who : Talker} : t.machine.preemptor = some who → who.ssrc = r.ssrc →
      Reaction r receiveOnly t (sendPreemptorPosition who t)
  /-- A party may only listen. -/
  | listens : Placeless t.machine r.ssrc → receiveOnly = true →
      Reaction r receiveOnly t (deny r.ssrc .receiveOnly t)
  /-- A party that preempts the holder is content with the second place. -/
  | seconded {holder : Talker} : Placeless t.machine r.ssrc → receiveOnly = false →
      t.machine.holder = some holder → r.talker.preempts holder = true →
      r.dual = true → t.machine.config.dualFloorSupported = true →
      t.machine.dual.talker = none → t.machine.state = .taken →
      Reaction r receiveOnly t
        (onDual (DualFloor.grant r.talker t.machine.roster.ssrcs) t)
  /-- A party preempts the holder, who is told to give way. -/
  | preempted {holder : Talker} : Placeless t.machine r.ssrc → receiveOnly = false →
      t.machine.holder = some holder → r.talker.preempts holder = true →
      (r.dual && t.machine.config.dualFloorSupported && t.machine.dual.talker.isNone) = false →
      t.machine.state = .taken → t.machine.preemptor = none →
      Reaction r receiveOnly t
        (revokeHolder .preempted (t.update fun a => { a with preemptor := some r.talker }))
  | supplanted {holder former : Talker} : Placeless t.machine r.ssrc → receiveOnly = false →
      t.machine.holder = some holder → r.talker.preempts holder = true →
      t.machine.state = .taken → t.machine.preemptor = some former →
      Reaction r receiveOnly t (revokeHolder .preempted
        ((queueOrDeny former true t).update fun a => { a with preemptor := some r.talker }))
  /-- A party preempts the holder, who was told to give way before. -/
  | parked {holder : Talker} : Placeless t.machine r.ssrc → receiveOnly = false →
      t.machine.holder = some holder → r.talker.preempts holder = true →
      t.machine.state = .pendingRevoke → t.machine.preemptor = none →
      Reaction r receiveOnly t (t.update fun a => { a with preemptor := some r.talker })
  /-- A party preempts the holder and the preemptor. -/
  | displaced {holder former : Talker} : Placeless t.machine r.ssrc → receiveOnly = false →
      t.machine.holder = some holder → r.talker.preempts holder = true →
      t.machine.state = .pendingRevoke → t.machine.preemptor = some former →
      r.talker.preempts former = true →
      Reaction r receiveOnly t
        (queueOrDeny former true (t.update fun a => { a with preemptor := some r.talker }))
  /-- A party preempts nobody, or not the preemptor. -/
  | enlisted : Placeless t.machine r.ssrc → receiveOnly = false → t.machine.Withstands r →
      Reaction r receiveOnly t (queueOrDeny r.talker r.queueing t)

private theorem ssrc_ne_of_filter {o : Option Talker} {ssrc : Ssrc}
    (h : o.filter (·.ssrc = ssrc) = none) (who : Talker) (hwho : o = some who) :
    who.ssrc ≠ ssrc := by
  simpa using Option.filter_eq_none_iff.mp h who hwho

theorem reaction_requestWhileOccupied (r : Request) (receiveOnly : Bool) (t : Turn Arbitrator) :
    Reaction r receiveOnly t (requestWhileOccupied r receiveOnly t) := by
  simp only [requestWhileOccupied]
  -- a party that has a place
  split
  · next who hfilter =>
    obtain ⟨hwho, hsame⟩ := Option.filter_eq_some_iff.mp hfilter
    exact .holder hwho (by simpa using hsame)
  next hnotholder =>
  split
  · next hsecond =>
    obtain ⟨who, hwho, hsame⟩ := (Option.any_eq_true _ _).mp hsecond
    exact .second hwho (by simpa using hsame)
  next hnotsecond =>
  split
  · next position hposition => exact .waiting hposition
  next hnotwaiting =>
  split
  · next who hfilter =>
    obtain ⟨hwho, hsame⟩ := Option.filter_eq_some_iff.mp hfilter
    exact .preemptor hwho (by simpa using hsame)
  next hnotpreemptor =>
  -- a party that has none
  have hplaceless : Placeless t.machine r.ssrc := by
    refine ⟨ssrc_ne_of_filter hnotholder, fun who hwho hsame => hnotsecond ?_, hnotwaiting,
      ssrc_ne_of_filter hnotpreemptor⟩
    simp [DualFloor.isTalker, hwho, hsame]
  split
  · next hlistens => exact .listens hplaceless hlistens
  next hspeaks =>
  have hspeaks : receiveOnly = false := Bool.not_eq_true _ ▸ hspeaks
  split
  rotate_left
  · next hyields =>
    refine .enlisted hplaceless hspeaks fun holder hholder _ => .inl ?_
    rw [wouldPreempt, hholder] at hyields
    exact Bool.not_eq_true _ ▸ hyields
  next hwould =>
  obtain ⟨holder, hholder, hpreempts⟩ := (Option.any_eq_true _ _).mp hwould
  have hpreempts : r.talker.preempts holder = true := hpreempts
  split
  · next hdual =>
    simp only [Bool.and_eq_true, Bool.not_eq_true', decide_eq_true_eq, DualFloor.started,
      Option.isSome_eq_false_iff, Option.isNone_iff_eq_none] at hdual
    obtain ⟨⟨⟨hdual, hsupported⟩, hsecond⟩, hstate⟩ := hdual
    exact .seconded hplaceless hspeaks hholder hpreempts hdual hsupported hsecond hstate
  next hdual =>
  split
  · next hstate =>
    cases hpreemptor : t.machine.preemptor with
    | none =>
      refine .preempted hplaceless hspeaks hholder hpreempts ?_ hstate hpreemptor
      rw [Bool.eq_false_iff]
      simpa only [DualFloor.started, Option.not_isSome, hstate, decide_true, Bool.and_true]
        using hdual
    | some former => exact .supplanted hplaceless hspeaks hholder hpreempts hstate hpreemptor
  · next hstate hpreemptor =>
    exact .parked hplaceless hspeaks hholder hpreempts hstate hpreemptor
  · next former hstate hpreemptor =>
    split
    · next hstronger =>
      exact .displaced hplaceless hspeaks hholder hpreempts hstate hpreemptor hstronger
    · next hweaker =>
      exact .enlisted hplaceless hspeaks fun _ _ _ =>
        .inr ⟨former, hpreemptor, Bool.not_eq_true _ ▸ hweaker⟩
  · next htaken hnone hsome =>
    refine .enlisted hplaceless hspeaks fun _ _ hoccupied => ?_
    exfalso
    cases hstate : t.machine.state with
    | taken => exact htaken hstate
    | pendingRevoke =>
      cases hpreemptor : t.machine.preemptor with
      | none => exact hnone hstate hpreemptor
      | some former => exact hsome former hstate hpreemptor
    | startStop | initialising | idle | releasing =>
      simp [hstate, ArbitratorState.occupied] at hoccupied

/-- A party that comes is entered in the roster, and nothing else changes. -/
theorem exists_insert_of_addParticipant {a b : Arbitrator} {ssrc : Ssrc} {priority : Priority}
    {originator : Bool} (h : addParticipant ssrc priority originator a = .ok b) :
    a.roster.contains ssrc = false ∧
      ∃ proxy, b = { a with roster := a.roster.insert ssrc proxy } := by
  simp only [addParticipant] at h
  split at h
  · cases h
  · next hnew =>
    cases h
    exact ⟨Bool.not_eq_true _ ▸ hnew, _, rfl⟩

end FloorControl.Arbitrator
