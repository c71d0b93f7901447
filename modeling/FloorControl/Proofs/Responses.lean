import FloorControl.Proofs.Succession

/-!
# What becomes of a request

The answers to a request that is heard while the floor is open, one for each way that it can go, with
the conditions under which it goes that way. A party in a place is told again where it stands; any
other is granted the floor or the second place, is remembered as the preemptor, waits or is turned
down.
-/

namespace FloorControl.Arbitrator

variable {t : Turn Arbitrator} {input : Input}

namespace Places

/-- What the arbitrator does with a request. -/
inductive Response (p : Places) (r : Request) : List Envelope → Places → Prop
  /-- A party that has a place is told of it. -/
  | again {message : Message} : r.ssrc ∈ p.placed → p.Attests r.ssrc message →
      message.kind = .granted ∨ message.kind = .queuePositionInfo →
      Response p r [letterTo r.ssrc message] p
  /-- A party may only listen. -/
  | listens : r.ssrc ∉ p.placed → ¬ MayTalk p.roster r.ssrc →
      Response p r [letterTo r.ssrc (.denied r.ssrc .receiveOnly p.config.ackRequired)] p
  /-- The floor is idle. -/
  | granted : p.state = .idle → Newcomer p r.talker →
      Response p r (p.grantLetters r.talker)
        { p with holder := some r.talker, state := .taken, implicitRequest := none }
  /-- A party that preempts the holder is content with the second place. -/
  | seconded {holder : Talker} {duration : UInt64} {ack : Bool} : p.state = .taken →
      Newcomer p r.talker → p.holder = some holder → r.talker.preempts holder = true →
      r.dual = true → p.config.dualFloorSupported = true → p.second = none →
      Response p r
        (letterTo r.ssrc (.granted r.ssrc r.priority duration true ack) ::
          lettersExcept p.roster (some r.ssrc) (.taken r.ssrc true ack))
        { p with second := some r.talker }
  /-- A party preempts the holder, who is told to give way. -/
  | preempted {holder : Talker} : p.state = .taken → Newcomer p r.talker →
      p.holder = some holder → r.talker.preempts holder = true →
      (r.dual && p.config.dualFloorSupported && p.second.isNone) = false →
      Response p r
        (lettersTo p.roster holder.ssrc (.revoke holder.ssrc .preempted p.config.ackRequired))
        { p with preemptor := some r.talker, state := .pendingRevoke }
  /-- A party preempts the holder, who was told to give way before. -/
  | parked {holder : Talker} : p.state = .pendingRevoke → Newcomer p r.talker →
      p.holder = some holder → r.talker.preempts holder = true → p.preemptor = none →
      Response p r [] { p with preemptor := some r.talker }
  /-- A party preempts the holder and the preemptor. -/
  | displaced {holder former : Talker} {messages : List Envelope} {q : Places} :
      p.state = .pendingRevoke → Newcomer p r.talker → p.holder = some holder →
      r.talker.preempts holder = true → p.preemptor = some former →
      r.talker.preempts former = true →
      ({ p with preemptor := some r.talker } : Places).Enlists former true messages q →
      Response p r messages q
  /-- A party preempts nobody, or not the preemptor. -/
  | enlisted {holder : Talker} {messages : List Envelope} {q : Places} :
      p.state.occupied = true → Newcomer p r.talker → p.holder = some holder →
      (r.talker.preempts holder = false ∨
        ∃ former, p.preemptor = some former ∧ r.talker.preempts former = false) →
      p.Enlists r.talker r.queueing messages q → Response p r messages q

variable {p q : Places} {r : Request} {messages : List Envelope}

theorem Response.deed (h : p.Response r messages q) (hsound : p.Sound)
    (hknown : p.roster.contains r.ssrc = true) : Deed input p messages q := by
  have hanswer {message : Message} (hattests : p.Attests r.ssrc message)
      (hrepeats : p.Repeats message) : Deed input p [letterTo r.ssrc message] p := by
    refine .still fun e he => ?_
    rw [List.mem_singleton.mp he]
    exact ⟨r.ssrc, message, rfl, hknown, hattests, hrepeats⟩
  cases h with
  | @again message _ hattests hkind =>
    refine hanswer hattests ?_
    cases message with
    | granted | queuePositionInfo => trivial
    | _ => simp [Message.kind] at hkind
  | listens hunplaced _ => exact hanswer ⟨rfl, hunplaced⟩ trivial
  | granted hstate hnew => exact .granted hstate hnew.entitled
  | seconded hstate hnew _ _ _ _ hsecond =>
    have hentered : p.roster.contains r.talker.ssrc = true := hknown
    exact .seconded hstate hsecond hnew.unplaced hentered
  | preempted hstate hnew hholder _ _ =>
    have hpreemptor := hsound.preemptor_eq_none (by simp [hstate])
    exact .preempted hstate hholder hpreemptor hnew.unplaced
  | parked hstate hnew _ _ hpreemptor => exact .parked hstate hpreemptor hnew.unplaced
  | displaced hstate hnew _ _ hpreemptor _ henlists =>
    exact .displaced hstate hpreemptor hnew.unplaced henlists.lines
  | enlisted hoccupied hnew _ _ henlists => exact .lined hoccupied hnew.unplaced henlists.lines

end Places

theorem attests_position {ssrc : Ssrc} {position : Nat}
    (hroomy : t.machine.places.queue.Roomy)
    (hposition : t.machine.queue.position? ssrc = some position) :
    t.machine.places.Attests ssrc (.queuePositionInfo ssrc (UInt64.ofNat position)
      (((t.machine.queue.get? ssrc).map (·.priority)).getD 0)) :=
  ⟨rfl, .inl (FloorQueue.tells_of_position? hroomy hposition)⟩

theorem attests_preemptor {who : Talker} (hpreemptor : t.machine.preemptor = some who) :
    t.machine.places.Attests who.ssrc (.queuePositionInfo who.ssrc 1 who.priority) :=
  ⟨rfl, .inr ⟨rfl, who, hpreemptor, rfl, rfl⟩⟩

/-- A message to the sender of a request is an answer to it. -/
private theorem response_sendTo {r : Request} {message : Message}
    (hout : t.out.messages = []) (hknown : t.machine.places.roster.contains r.ssrc = true)
    (h : t.machine.places.Response r [letterTo r.ssrc message] t.machine.places) :
    t.machine.places.Response r (sendTo r.ssrc message t).out.messages
      (sendTo r.ssrc message t).machine.places := by
  rwa [machine_sendTo, messages_sendTo, hout, List.nil_append, lettersTo, if_pos hknown]

theorem response_requestWhileOccupied {r : Request} {proxy : Proxy}
    (hsound : t.machine.places.Sound) (hroomy : t.machine.places.queue.Roomy)
    (hout : t.out.messages = []) (hoccupied : t.machine.places.state.occupied = true)
    (hproxy : t.machine.roster.get? r.ssrc = some proxy) :
    t.machine.places.Response r (requestWhileOccupied r proxy.receiveOnly t).out.messages
      (requestWhileOccupied r proxy.receiveOnly t).machine.places := by
  obtain ⟨holder, hheld⟩ := hsound.exists_holder hoccupied
  have hknown : t.machine.places.roster.contains r.ssrc = true := by
    change t.machine.roster.contains r.ssrc = true
    rw [Roster.contains_eq_isSome_get?, hproxy]
    rfl
  have hnew (hplaceless : Placeless t.machine r.ssrc) (hspeaks : proxy.receiveOnly = false) :
      Newcomer t.machine.places r.talker :=
    ⟨hplaceless.not_mem_placed, proxy, hproxy, hspeaks⟩
  have hreaction := reaction_requestWhileOccupied r proxy.receiveOnly t
  generalize requestWhileOccupied r proxy.receiveOnly t = u at hreaction ⊢
  cases hreaction with
  | @holder who hholder hsame =>
    have hplaced : r.ssrc ∈ t.machine.places.placed :=
      Places.talkers_subset_placed (Places.mem_talkers.mpr (.inl ⟨who, hholder, hsame⟩))
    rw [hsame]
    exact response_sendTo hout hknown (.again hplaced ⟨hsame, who, hholder, hsame, rfl⟩ (.inl rfl))
  | @second who hsecond hsame =>
    have hplaced : r.ssrc ∈ t.machine.places.placed :=
      Places.talkers_subset_placed (Places.mem_talkers.mpr (.inr ⟨who, hsecond, hsame⟩))
    rw [places_onDual_resendGrant, messages_onDual_resendGrant hsecond, hout, List.nil_append,
      DualFloor.grantMessage, hsame]
    exact .again hplaced ⟨rfl, who, hsecond, hsame, rfl⟩ (.inl rfl)
  | waiting hposition =>
    have hplaced : r.ssrc ∈ t.machine.places.placed := by
      rw [Places.mem_placed, Places.mem_awaiting]
      refine .inr (.inr ?_)
      by_contra hwaits
      cases hposition.symm.trans (FloorQueue.position?_eq_none.mpr hwaits)
    exact response_sendTo hout hknown
      (.again hplaced (attests_position hroomy hposition) (.inr rfl))
  | @preemptor who hpreemptor hsame =>
    have hplaced : r.ssrc ∈ t.machine.places.placed :=
      Places.mem_placed.mpr (.inr (Places.mem_awaiting.mpr (.inl ⟨who, hpreemptor, hsame⟩)))
    have hattests := attests_preemptor hpreemptor
    rw [sendPreemptorPosition, hsame]
    rw [hsame] at hattests
    exact response_sendTo hout hknown (.again hplaced hattests (.inr rfl))
  | listens hplaceless hlistens =>
    refine response_sendTo hout hknown (.listens hplaceless.not_mem_placed ?_)
    rintro ⟨other, hother, hspeaks⟩
    cases hproxy.symm.trans hother
    simp [hlistens] at hspeaks
  | seconded hplaceless hspeaks hholder hpreempts hdual hsupported hsecond hstate =>
    rw [places_onDual_grant, messages_onDual_grant, hout, List.nil_append]
    have hothers : (t.machine.roster.ssrcs.filter (· ≠ r.talker.ssrc)).map
        (t.machine.dual.takenMessage r.talker) =
          lettersExcept t.machine.places.roster (some r.talker.ssrc)
            (.taken r.talker.ssrc true t.machine.dual.ackRequired) := by
      simp only [lettersExcept, ne_eq, Option.some.injEq]
      rfl
    rw [hothers]
    exact .seconded hstate (hnew hplaceless hspeaks) hholder hpreempts hdual hsupported hsecond
  | @preempted holder hplaceless hspeaks hholder hpreempts hnodual hstate hpreemptor =>
    have hheld : (t.update fun a =>
        { a with preemptor := some r.talker }).machine.places.holder = some holder := hholder
    rw [places_revokeHolder _ hheld, messages_revokeHolder _ hheld, Turn.out_update, hout,
      List.nil_append]
    exact .preempted hstate (hnew hplaceless hspeaks) hholder hpreempts hnodual
  | supplanted _ _ _ _ hstate hpreemptor =>
    have hnobody : t.machine.preemptor = none :=
      hsound.preemptor_eq_none (by change t.machine.state ≠ _; simp [hstate])
    cases hnobody.symm.trans hpreemptor
  | parked hplaceless hspeaks hholder hpreempts hstate hpreemptor =>
    rw [Turn.out_update, hout]
    exact .parked hstate (hnew hplaceless hspeaks) hholder hpreempts hpreemptor
  | @displaced _ former hplaceless hspeaks hholder hpreempts hstate hpreemptor hstronger =>
    obtain ⟨messages, hmessages, henlists⟩ := enlists_queueOrDeny former true
      (t.update fun a => { a with preemptor := some r.talker })
    rw [hmessages, Turn.out_update, hout, List.nil_append]
    exact .displaced hstate (hnew hplaceless hspeaks) hholder hpreempts hpreemptor hstronger
      henlists
  | enlisted hplaceless hspeaks hwithstands =>
    obtain ⟨messages, hmessages, henlists⟩ := enlists_queueOrDeny r.talker r.queueing t
    rw [hmessages, hout, List.nil_append]
    exact .enlisted hoccupied (hnew hplaceless hspeaks) hheld
      (hwithstands holder hheld hoccupied) henlists

/-- A request that is heard while the floor is open. -/
theorem response_receiveRequest {r : Request} (hsound : t.machine.places.Sound)
    (hroomy : t.machine.places.queue.Roomy) (hout : t.out.messages = [])
    (hopen : t.machine.places.state = .idle ∨ t.machine.places.state.occupied = true)
    (hknown : t.machine.places.roster.contains r.ssrc = true) :
    t.machine.places.Response r (receiveRequest r t).out.messages
      (receiveRequest r t).machine.places := by
  obtain ⟨proxy, hproxy⟩ : ∃ proxy, t.machine.roster.get? r.ssrc = some proxy := by
    rw [← Option.isSome_iff_exists, ← Roster.contains_eq_isSome_get?]
    exact hknown
  simp only [receiveRequest, hproxy]
  rcases hopen with hidle | hoccupied
  · have hvacant : t.machine.places.state.occupied = false := by rw [hidle]; rfl
    have hunplaced : r.ssrc ∉ t.machine.places.placed := by
      rw [hsound.placed_eq_nil hvacant]
      exact List.not_mem_nil
    have hstate : t.machine.state = .idle := hidle
    simp only [hstate]
    split
    · next hlistens =>
      refine response_sendTo hout hknown (.listens hunplaced ?_)
      rintro ⟨other, hother, hspeaks⟩
      cases hproxy.symm.trans hother
      simp [hlistens] at hspeaks
    · next hspeaks =>
      have hnew : Newcomer t.machine.places r.talker :=
        ⟨hunplaced, proxy, hproxy, by simpa using hspeaks⟩
      have himplicit := hsound.implicit_eq_none (by simp [hidle])
      obtain ⟨hmessages, hplaces⟩ := granted_of_vacant r.talker hsound.toOrderly hvacant
        t.machine.places.state (by rw [← himplicit]) hout
      rw [hmessages, hplaces, List.nil_append]
      exact .granted hidle hnew
  · have hheard := response_requestWhileOccupied hsound hroomy hout hoccupied hproxy
    change t.machine.state.occupied = true at hoccupied
    cases hstate : t.machine.state with
    | taken | pendingRevoke => exact hheard
    | startStop | initialising | idle | releasing =>
      simp [hstate, ArbitratorState.occupied] at hoccupied

end FloorControl.Arbitrator
