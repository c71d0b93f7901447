import FloorControl.Proofs.Responses

/-!
# Every step is a deed

Each handler of the arbitrator does one of the deeds, from sound places and a queue that is no
longer than it may be.
-/

namespace FloorControl.Arbitrator

variable {t : Turn Arbitrator} {input : Input}

variable (input) in
/-- The end of a hold. The holder may have left. -/
theorem deed_endHolder {holder : Talker} (horderly : t.machine.places.Orderly)
    (hholder : t.machine.places.holder = some holder) (hout : t.out.messages = []) :
    Deed input t.machine.places (endHolder t).out.messages (endHolder t).machine.places :=
  (succession_endHolder horderly hholder hout).deed input hholder

/-- When a party has become ready, the floor is opened if everybody is, for the party that was
promised it if that one may talk. -/
theorem checkReady_cases (horderly : t.machine.places.Orderly)
    (hstate : t.machine.places.state = .initialising) (hout : t.out.messages = []) :
    t.machine.places.roster.values.all (·.ready) = false ∧
      (checkReady t).out.messages = [] ∧ (checkReady t).machine.places = t.machine.places ∨
    t.machine.places.roster.values.all (·.ready) = true ∧
      ((∀ ssrc ∈ t.machine.places.implicitRequest, ¬ MayTalk t.machine.places.roster ssrc) ∧
        (checkReady t).out.messages = lettersExcept t.machine.places.roster none
          (.idle t.machine.places.config.ackRequired) ∧
        (checkReady t).machine.places =
          { t.machine.places with state := .idle, implicitRequest := none } ∨
      ∃ who, t.machine.places.implicitRequest = some who.ssrc ∧
        MayTalk t.machine.places.roster who.ssrc ∧
        (checkReady t).out.messages = lettersExcept t.machine.places.roster none
            (.idle t.machine.places.config.ackRequired) ++ t.machine.places.grantLetters who ∧
        (checkReady t).machine.places = { t.machine.places with
          holder := some who, state := .taken, implicitRequest := none }) := by
  have hvacant : t.machine.places.state.occupied = false := by rw [hstate]; rfl
  have hnot : t.machine.places.state ≠ .idle := by simp [hstate]
  simp only [checkReady]
  split
  swap
  · next hmissing => exact .inl ⟨Bool.eq_false_iff.mpr hmissing, hout, rfl⟩
  next hready =>
  refine .inr ⟨hready, ?_⟩
  have hletters : (broadcast t.machine.idleMessage t).out.messages =
      lettersExcept t.machine.places.roster none
        (.idle t.machine.places.config.ackRequired) := by
    rw [messages_broadcast, hout]
    rfl
  cases himplicit : t.machine.places.implicitRequest with
  | none =>
    left
    have hafter : ({ t.machine.places with state := .idle } : Places) =
        { t.machine.places with state := .idle, implicitRequest := none } :=
      congrArg (fun promised => { t.machine.places with
        state := .idle, implicitRequest := promised }) himplicit
    rw [becomeIdle_of_none (t := broadcast t.machine.idleMessage t) hnot himplicit,
      messages_moveTo, hletters, places_moveTo, machine_broadcast, hafter]
    exact ⟨by simp, rfl, rfl⟩
  | some ssrc =>
    rw [becomeIdle_of_some (t := broadcast t.machine.idleMessage t) hnot himplicit]
    set u := (moveTo .idle (broadcast t.machine.idleMessage t)).update
      fun a => { a with implicitRequest := none } with hu
    have huplaces : u.machine.places =
        { t.machine.places with state := .idle, implicitRequest := none } :=
      congrArg (fun p : Places => { p with implicitRequest := none })
        (places_moveTo (t := broadcast t.machine.idleMessage t) .idle)
    have huout : u.out.messages = lettersExcept t.machine.places.roster none
        (.idle t.machine.places.config.ackRequired) := by
      rw [hu, Turn.out_update, messages_moveTo, hletters]
    rcases grantImplicit_cases ssrc u with ⟨hlisten, heq⟩ | ⟨who, rfl, hmay, heq⟩
    · rw [huplaces] at hlisten
      rw [heq, huplaces, huout]
      exact .inl ⟨by rintro _ ⟨⟩; exact hlisten, rfl, rfl⟩
    · rw [huplaces] at hmay
      rw [heq]
      exact .inr ⟨who, rfl, hmay, granted_of_vacant who horderly hvacant _ huplaces huout⟩

variable (input) in
private theorem deed_checkReady (horderly : t.machine.places.Orderly)
    (hstate : t.machine.places.state = .initialising) (hout : t.out.messages = []) :
    Deed input t.machine.places (checkReady t).out.messages (checkReady t).machine.places := by
  have hvacant : t.machine.places.state.occupied = false := by rw [hstate]; rfl
  have hnot : t.machine.places.state ≠ .idle := by simp [hstate]
  rcases checkReady_cases horderly hstate hout with ⟨-, hmessages, hplaces⟩ |
    ⟨-, ⟨-, hmessages, hplaces⟩ | ⟨who, himplicit, hmay, hmessages, hplaces⟩⟩
  · rw [hmessages, hplaces]
    exact .still (by simp)
  · rw [hmessages, hplaces]
    exact .opened hvacant hnot
  · rw [hmessages, hplaces]
    exact .openedFor hvacant hnot himplicit hmay

private theorem deed_quiet (hout : t.out.messages = []) :
    Deed input t.machine.places t.out.messages t.machine.places := by
  rw [hout]
  exact .still (by simp)

private theorem deed_sendTo (ssrc : Ssrc) (message : Message)
    (hattests : t.machine.places.Attests ssrc message)
    (hrepeats : t.machine.places.Repeats message) (hout : t.out.messages = []) :
    Deed input t.machine.places (sendTo ssrc message t).out.messages
      (sendTo ssrc message t).machine.places := by
  rw [machine_sendTo, messages_sendTo, hout, List.nil_append]
  refine .still fun e he => ?_
  obtain ⟨hknown, rfl⟩ := mem_lettersTo.mp he
  exact ⟨ssrc, message, rfl, hknown, hattests, hrepeats⟩

private theorem deed_receiveRequest (r : Request)
    (hsound : t.machine.places.Sound) (hroomy : t.machine.places.queue.Roomy)
    (hout : t.out.messages = []) :
    Deed input t.machine.places (receiveRequest r t).out.messages
      (receiveRequest r t).machine.places := by
  cases hproxy : t.machine.roster.get? r.ssrc with
  | none =>
    simp only [receiveRequest, hproxy]
    exact deed_quiet hout
  | some proxy =>
    have hknown : t.machine.places.roster.contains r.ssrc = true := by
      change t.machine.roster.contains r.ssrc = true
      rw [Roster.contains_eq_isSome_get?, hproxy]
      rfl
    have hheard (hopen : t.machine.places.state = .idle ∨ t.machine.places.state.occupied = true) :
        Deed input t.machine.places (receiveRequest r t).out.messages
          (receiveRequest r t).machine.places :=
      (response_receiveRequest hsound hroomy hout hopen hknown).deed hsound hknown
    cases hstate : t.machine.state with
    | idle => exact hheard (.inl hstate)
    | taken | pendingRevoke => exact hheard (.inr (congrArg ArbitratorState.occupied hstate))
    | startStop | initialising | releasing =>
      simp only [receiveRequest, hproxy, hstate]
      exact deed_quiet hout

private theorem deed_receiveRelease (ssrc : Ssrc) (hsound : t.machine.places.Sound)
    (hout : t.out.messages = []) :
    Deed (.receive (.release ssrc)) t.machine.places (receiveRelease ssrc t).out.messages
      (receiveRelease ssrc t).machine.places := by
  simp only [receiveRelease]
  cases hoccupied : t.machine.occupied with
  | false =>
    simp only [Bool.not_false, if_true]
    split
    · next hidle => exact deed_sendTo _ _ trivial hidle hout
    · exact deed_quiet hout
  | true =>
    obtain ⟨h, hholder⟩ := hsound.exists_holder hoccupied
    have hheld : t.machine.holder = some h := hholder
    simp only [Bool.not_true, Bool.false_eq_true, if_false]
    split
    · exact deed_endHolder _ hsound.toOrderly hholder hout
    next hnotholder =>
    split
    · next hissecond =>
      simp only [DualFloor.isTalker, Option.any_eq_true_iff_get, decide_eq_true_eq] at hissecond
      obtain ⟨hsome, rfl⟩ := hissecond
      have hsecond : t.machine.places.second = some (t.machine.dual.talker.get hsome) :=
        (Option.some_get hsome).symm
      simp only [Turn.machine_update, hheld]
      have hdeed := Deed.relieved rfl hholder hsecond
      rw [messages_broadcast, Turn.out_update, hout, List.nil_append]
      exact hdeed
    next hnotsecond =>
    set u := t.update fun a =>
      { a with
        queue := a.queue.remove ssrc
        preemptor := a.preemptor.filter (·.ssrc ≠ ssrc) } with hu
    have huheld : u.machine.holder = some h := hheld
    have huout : u.out.messages = [] := hout
    rw [places_refreshT4, messages_refreshT4, sendTaken, huheld]
    simp only [machine_sendTo, messages_sendTo, huout, List.nil_append]
    refine .withdrawn rfl hholder fun htalks => ?_
    rw [mem_talkers_places, Bool.or_eq_true] at htalks
    exact htalks.elim hnotholder hnotsecond

theorem deed_receive (message : Message) (hsound : t.machine.places.Sound)
    (hroomy : t.machine.places.queue.Roomy) (hout : t.out.messages = []) :
    Deed (.receive message) t.machine.places (receive message t).out.messages
      (receive message t).machine.places := by
  cases message with
  | request r => exact deed_receiveRequest r hsound hroomy hout
  | release ssrc => exact deed_receiveRelease ssrc hsound hout
  | queuePositionRequest ssrc =>
    simp only [receive, receiveQueuePositionRequest]
    split
    · next position hposition =>
      exact deed_sendTo _ _ (attests_position hroomy hposition)
        trivial hout
    · split
      · next p hfilter =>
        exact deed_sendTo _ _ (attests_preemptor (Option.filter_eq_some_iff.mp hfilter).1)
          trivial hout
      · exact deed_quiet hout
  | ack ssrc acked =>
    have hplaces : (receive (.ack ssrc acked) t).machine.places = t.machine.places :=
      places_receiveAck ssrc acked t.machine
    rw [hplaces]
    exact deed_quiet hout
  | granted | denied | idle | taken | revoke | queuePositionInfo => exact deed_quiet hout

/-- Once a ticket has been accepted, the step is seen from the places that it finds. -/
private theorem deed_of_rest {f : Turn Arbitrator → Turn Arbitrator} {g : Arbitrator → Arbitrator}
    (hg : ∀ a, (g a).places = a.places)
    (h : Deed input (t.update g).machine.places (f (t.update g)).out.messages
      (f (t.update g)).machine.places) :
    Deed input t.machine.places (f (t.update g)).out.messages (f (t.update g)).machine.places := by
  rwa [Turn.machine_update, hg] at h

private theorem deed_expireT1 (hout : t.out.messages = []) :
    Deed input t.machine.places (expireT1 t).out.messages (expireT1 t).machine.places := by
  simp only [expireT1]
  split
  · next h hstate hholder =>
    refine deed_sendTo _ _ ⟨rfl, .inl ⟨⟨h, hholder, rfl⟩, hstate⟩⟩ ?_ hout
    trivial
  · exact deed_quiet hout

private theorem occupied_of_state {state : ArbitratorState} (hstate : t.machine.state = state)
    (hoccupied : state.occupied = true) : t.machine.places.state.occupied = true := by
  change t.machine.state.occupied = true
  rw [hstate, hoccupied]

private theorem deed_expireT2
    (hsound : t.machine.places.Sound) (hout : t.out.messages = []) :
    Deed input t.machine.places (expireT2 t).out.messages (expireT2 t).machine.places := by
  simp only [expireT2]
  split
  · next hstate =>
    obtain ⟨h, hholder⟩ := hsound.exists_holder (occupied_of_state hstate rfl)
    rw [places_revokeHolder _ hholder, messages_revokeHolder _ hholder, hout, List.nil_append]
    exact .overdue hstate hholder
  · exact deed_quiet hout

private theorem deed_expireT3
    (hsound : t.machine.places.Sound) (hout : t.out.messages = []) :
    Deed input t.machine.places (expireT3 t).out.messages (expireT3 t).machine.places := by
  simp only [expireT3]
  split
  · next hstate =>
    obtain ⟨h, hholder⟩ := hsound.exists_holder (occupied_of_state hstate rfl)
    exact deed_endHolder _ hsound.toOrderly hholder hout
  · exact deed_quiet hout

/-- Where each of the waiting parties is told its place, each is told its own. -/
private theorem notes_sendPositions (positions : List (QueueEntry × Nat)) (t : Turn Arbitrator)
    (hroomy : t.machine.places.queue.Roomy)
    (hpositions : ∀ place ∈ positions,
      t.machine.queue.position? place.1.ssrc = some place.2)
    (hbefore : ∀ e ∈ t.out.messages, t.machine.places.Notes e) :
    ∀ e ∈ (positions.foldl (fun t (entry, position) => sendPosition entry.ssrc position t)
      t).out.messages, t.machine.places.Notes e := by
  induction positions generalizing t with
  | nil => exact hbefore
  | cons place rest ih =>
    have hmachine : (sendPosition place.1.ssrc place.2 t).machine = t.machine :=
      machine_sendPosition _ _
    have hrest := ih (sendPosition place.1.ssrc place.2 t)
    rw [hmachine] at hrest
    refine hrest hroomy (fun other hother => hpositions other (.tail _ hother)) fun e he => ?_
    rw [sendPosition, messages_sendTo] at he
    rcases List.mem_append.mp he with he | he
    · exact hbefore e he
    · obtain ⟨hknown, rfl⟩ := mem_lettersTo.mp he
      exact ⟨_, _, rfl, hknown, attests_position hroomy (hpositions place (.head _)),
        trivial⟩

/-- The place of an entry is where it stands, since nobody waits twice. -/
private theorem position?_of_mem_zipIdx {q : FloorQueue} (hdistinct : q.waiting.Nodup)
    {place : QueueEntry × Nat} (hplace : place ∈ q.entries.zipIdx 1) :
    q.position? place.1.ssrc = some place.2 := by
  obtain ⟨entry, position⟩ := place
  obtain ⟨hle, hlt, hentry⟩ := List.mem_zipIdx hplace
  rw [FloorQueue.position?, Option.map_eq_some_iff]
  refine ⟨position - 1, ?_, by omega⟩
  rw [List.findIdx?_eq_some_iff_getElem]
  refine ⟨by omega, by simp [hentry], fun j hj => ?_⟩
  have hdiffer : q.entries[j].ssrc ≠ q.entries[position - 1].ssrc :=
    List.pairwise_iff_getElem.mp (List.pairwise_map.mp hdistinct) j (position - 1) _ _ hj
  simpa [hentry] using hdiffer

private theorem deed_expireT4 (hsound : t.machine.places.Sound)
    (hroomy : t.machine.places.queue.Roomy) (hout : t.out.messages = []) :
    Deed input t.machine.places (expireT4 t).out.messages (expireT4 t).machine.places := by
  have hdistinct : t.machine.queue.waiting.Nodup := (List.nodup_append.mp hsound.distinct).2.1
  rw [expireT4, places_refreshT4, messages_refreshT4, machine_sendPositions]
  refine .still (notes_sendPositions _ t hroomy (fun place hplace => ?_) (by simp [hout]))
  exact position?_of_mem_zipIdx hdistinct hplace

private theorem deed_expireT7 (hout : t.out.messages = []) :
    Deed input t.machine.places (expireT7 t).out.messages (expireT7 t).machine.places := by
  simp only [expireT7]
  split
  swap
  · exact deed_quiet hout
  next hstate =>
  split
  · exact deed_quiet (t := t) hout
  · rw [messages_startT7, messages_broadcast, Turn.out_update, hout, List.nil_append]
    refine .still (p := t.machine.places) (fun e he => ?_)
    obtain ⟨ssrc, hknown, -, rfl⟩ := mem_lettersExcept.mp he
    exact ⟨ssrc, _, rfl, hknown, trivial, hstate⟩

/-- A turn of the second place in which the second talker stays. -/
private theorem deed_of_talker_eq (inner : Turn DualFloor)
    (htalker : inner.machine.talker = t.machine.dual.talker)
    (h : Deed input t.machine.places inner.out.messages t.machine.places) :
    Deed input t.machine.places inner.out.messages
      (places { t.machine with dual := inner.machine }) := by
  have hplaces : places { t.machine with dual := inner.machine } = t.machine.places :=
    congrArg (fun second => { t.machine.places with second := second }) htalker
  rwa [hplaces]

private theorem deed_expireT20 (ticket : Ticket) (hsound : t.machine.places.Sound)
    (hout : t.out.messages = []) :
    Deed (.expire ticket) t.machine.places (expireT20 ticket t).out.messages
      (expireT20 ticket t).machine.places := by
  cases haccepts : t.machine.dual.t20.accepts ticket with
  | false =>
    simp only [expireT20, DualFloor.expire, haccepts, Bool.not_false, if_true]
    exact deed_quiet hout
  | true =>
    cases htalker : t.machine.dual.talker with
    | none =>
      simp only [expireT20, DualFloor.expire, haccepts, Bool.not_true, Bool.false_eq_true, if_false,
        Turn.machine_update, htalker]
      exact deed_of_talker_eq ⟨{ t.machine.dual with
        talker := none, t20 := t.machine.dual.t20.rest }, t.out⟩ htalker.symm
        (deed_quiet hout)
    | some s =>
      have hsecond : t.machine.places.second = some s := htalker
      simp only [expireT20, DualFloor.expire, haccepts, Bool.not_true, Bool.false_eq_true, if_false,
        Turn.machine_update, htalker]
      cases t.machine.dual.c20.arrives with
      | false =>
        simp only [Bool.false_eq_true, if_false, DualFloor.resendGrant, Turn.machine_update,
          htalker]
        refine deed_of_talker_eq _ (by rfl) (.still (fun e he => ?_))
        change e ∈ t.out.messages ++ [_] at he
        rw [hout, List.nil_append, List.mem_singleton] at he
        have hin := Places.second_mem_talkers hsecond
        have hknown := (hsound.entitled _ (Places.talkers_subset_placed hin)).contains
        exact ⟨_, _, he, hknown, ⟨rfl, s, hsecond, rfl, rfl⟩, trivial⟩
      | true =>
        simp only [if_true]
        rw [Turn.machine_tell, machine_sendTo, Turn.messages_tell, messages_sendTo]
        simp only [Turn.out_update, hout, List.nil_append]
        exact .exhausted rfl hsecond

/-- A ticket of any timer but T20 is a deed that has nothing to do with the input. -/
private theorem deed_expire_other (ticket : Ticket) (hid : ticket.id ≠ .t20)
    (hsound : t.machine.places.Sound) (hroomy : t.machine.places.queue.Roomy)
    (hout : t.out.messages = []) :
    Deed input t.machine.places (expire ticket t).out.messages
      (expire ticket t).machine.places := by
  have hquiet : Deed input t.machine.places t.out.messages t.machine.places := deed_quiet hout
  simp only [expire]
  split
  · split
    · exact deed_of_rest (fun _ => rfl) (deed_expireT1 hout)
    · exact hquiet
  · split
    · exact deed_of_rest (fun _ => rfl) (deed_expireT2 hsound hout)
    · exact hquiet
  · split
    · exact deed_of_rest (fun _ => rfl) (deed_expireT3 hsound hout)
    · exact hquiet
  · split
    · exact deed_of_rest (fun _ => rfl) (deed_expireT4 hsound hroomy hout)
    · exact hquiet
  · split
    · exact deed_of_rest (fun _ => rfl) (deed_expireT7 hout)
    · exact hquiet
  · next heq => exact absurd heq hid
  all_goals exact hquiet

theorem deed_expire (ticket : Ticket) (hsound : t.machine.places.Sound)
    (hroomy : t.machine.places.queue.Roomy) (hout : t.out.messages = []) :
    Deed (.expire ticket) t.machine.places (expire ticket t).out.messages
      (expire ticket t).machine.places := by
  by_cases hid : ticket.id = .t20
  · simp only [expire, hid]
    exact deed_expireT20 ticket hsound hout
  · exact deed_expire_other ticket hid hsound hroomy hout

/-- A ticket takes the second place from its talker, and leaves the floor with its holder, only if
the grant was sent often enough. -/
theorem exhausts_of_expire {ticket : Ticket} {who : Talker} (hsound : t.machine.places.Sound)
    (hroomy : t.machine.places.queue.Roomy) (hout : t.out.messages = [])
    (hsecond : t.machine.places.second = some who)
    (hvacated : (expire ticket t).machine.places.second = none)
    (hholder : (expire ticket t).machine.places.holder = t.machine.places.holder) :
    ticket.id = .t20 ∧ t.machine.dual.t20.accepts ticket = true ∧
      t.machine.dual.c20.arrives = true := by
  by_cases hid : ticket.id = .t20
  swap
  · have hdeed : Deed .stopTimers _ _ _ := deed_expire_other ticket hid hsound hroomy hout
    have hstays := hdeed.second_stays hsound.toOrderly (by simp) (by simp) (by simp) hholder hsecond
    cases hvacated.symm.trans hstays
  have htalker : t.machine.dual.talker = some who := hsecond
  change (expire ticket t).machine.dual.talker = none at hvacated
  simp only [expire, hid, expireT20, DualFloor.expire] at hvacated
  cases haccepts : t.machine.dual.t20.accepts ticket with
  | false =>
    simp only [haccepts, Bool.not_false, if_true] at hvacated
    cases hvacated.symm.trans htalker
  | true =>
    refine ⟨hid, rfl, ?_⟩
    cases harrives : t.machine.dual.c20.arrives with
    | true => rfl
    | false =>
      simp only [haccepts, Bool.not_true, Bool.false_eq_true, if_false, Turn.machine_update,
        htalker, harrives, DualFloor.resendGrant] at hvacated
      cases hvacated.symm.trans htalker

theorem deed_callInitialized {ssrc : Ssrc} {u : Turn Arbitrator} (hsound : t.machine.places.Sound)
    (hout : t.out.messages = []) (h : callInitialized ssrc t = .ok u) :
    Deed (.initialized ssrc) { t.machine.places with
        roster := t.machine.places.roster.modify ssrc fun proxy => { proxy with ready := true } }
      u.out.messages u.machine.places := by
  simp only [callInitialized] at h
  split at h
  · cases h
  cases h
  set v := t.update fun a =>
    { a with roster := a.roster.modify ssrc fun proxy => { proxy with ready := true } } with hv
  have horderly : v.machine.places.Orderly := { hsound.toOrderly with }
  have hvout : v.out.messages = [] := hout
  have hanswer : ∀ message : Message, v.machine.places.Attests ssrc message →
      v.machine.places.Repeats message →
      Deed (.initialized ssrc) v.machine.places (sendTo ssrc message v).out.messages
        (sendTo ssrc message v).machine.places :=
    fun message hattests hrepeats => deed_sendTo ssrc message hattests hrepeats hvout
  change Deed _ v.machine.places _ _
  cases hstate : v.machine.places.state with
  | startStop =>
    change v.machine.state = .startStop at hstate
    simp only [hstate]
    have hplaces := places_moveTo (t := v) .initialising
    have hvacant : v.machine.places.state.occupied = false := by
      change v.machine.state.occupied = false
      rw [hstate]
      rfl
    have himplicit : v.machine.places.implicitRequest = none :=
      horderly.implicit_eq_none (by change v.machine.state ≠ _; simp [hstate])
    have hmoved : (moveTo .initialising v).machine.places.Sound := by
      rw [hplaces]
      exact .of_empty rfl (horderly.placed_eq_nil hvacant) himplicit
    rcases checkReady_cases hmoved.toOrderly (by rw [hplaces]) (by rw [messages_moveTo, hvout]) with
      ⟨-, hmessages, hafter⟩ | ⟨-, ⟨-, hmessages, hafter⟩ | ⟨who, hpromised, -⟩⟩
    · rw [hmessages, hafter, hplaces]
      exact .gathering hstate
    · rw [hmessages, hafter, hplaces]
      exact .opened hvacant (by change v.machine.state ≠ _; simp [hstate])
    · rw [hplaces] at hpromised
      cases himplicit.symm.trans hpromised
  | initialising =>
    have hchecked := deed_checkReady (.initialized ssrc) horderly hstate hvout
    change v.machine.state = .initialising at hstate
    simpa only [hstate] using hchecked
  | idle =>
    have hidle := hanswer v.machine.idleMessage trivial hstate
    change v.machine.state = .idle at hstate
    simpa only [hstate] using hidle
  | releasing =>
    have hquiet : Deed (.initialized ssrc) v.machine.places v.out.messages v.machine.places := by
      rw [hvout]
      exact .still (by simp)
    change v.machine.state = .releasing at hstate
    simpa only [hstate] using hquiet
  | taken | pendingRevoke =>
    obtain ⟨h, hholder⟩ : ∃ h, v.machine.places.holder = some h :=
      horderly.exists_holder (by rw [hstate]; rfl)
    have htaken := hanswer (v.machine.takenMessage h.ssrc) ⟨h, hholder, rfl⟩ rfl
    change v.machine.state = _ at hstate
    change v.machine.holder = _ at hholder
    simpa only [hstate, hholder] using htaken

theorem deed_implicitFloorRequest {ssrc : Ssrc} {u : Turn Arbitrator}
    (hsound : t.machine.places.Sound) (hout : t.out.messages = [])
    (h : implicitFloorRequest ssrc t = .ok u) :
    Deed (.implicitRequest ssrc) t.machine.places u.out.messages u.machine.places := by
  have hquiet : Deed (.implicitRequest ssrc) t.machine.places t.out.messages t.machine.places :=
    deed_quiet hout
  simp only [implicitFloorRequest] at h
  split at h
  · cases h
  cases h
  cases hstate : t.machine.places.state with
  | idle =>
    have hvacant : t.machine.places.state.occupied = false := by rw [hstate]; rfl
    have himplicit := hsound.implicit_eq_none (by simp [hstate])
    have hgranted : Deed (.implicitRequest ssrc) t.machine.places
        (grantImplicit ssrc t).out.messages (grantImplicit ssrc t).machine.places := by
      rcases grantImplicit_cases ssrc t with ⟨-, heq⟩ | ⟨who, rfl, hmay, heq⟩
      · rw [heq]
        exact hquiet
      · obtain ⟨hmessages, hplaces⟩ := granted_of_vacant who hsound.toOrderly hvacant
          t.machine.places.state (by rw [← himplicit]) hout
        rw [heq, hmessages, hplaces, List.nil_append]
        exact .granted hstate hmay
    change t.machine.state = .idle at hstate
    simpa only [hstate] using hgranted
  | initialising =>
    have hpromised : Deed (.implicitRequest ssrc) t.machine.places []
        { t.machine.places with implicitRequest := some ssrc } := .promised hstate
    change t.machine.state = .initialising at hstate
    simp only [hstate, Turn.out_update, hout]
    exact hpromised
  | startStop | taken | pendingRevoke | releasing =>
    change t.machine.state = _ at hstate
    simpa only [hstate] using hquiet

theorem deed_clientRelease {ssrc : Ssrc} {u : Turn Arbitrator} (hsound : t.machine.places.Sound)
    (hout : t.out.messages = []) (h : clientRelease ssrc t = .ok u) :
    Deed (.leave ssrc) (t.machine.places.without ssrc) u.out.messages u.machine.places := by
  rw [eq_of_clientRelease h]
  have hvout : (forgotten ssrc t).out.messages = [] := hout
  rw [← places_forgotten]
  have horderly : (forgotten ssrc t).machine.places.Orderly :=
    places_forgotten ssrc t ▸ orderly_without ssrc hsound.toOrderly
  set v := forgotten ssrc t
  by_cases hheld : (v.machine.isHolder ssrc && v.machine.occupied) = true
  · rw [relieved, if_pos hheld]
    simp only [isHolder, Bool.and_eq_true, Option.any_eq_true_iff_get, decide_eq_true_eq] at hheld
    obtain ⟨⟨hsome, -⟩, -⟩ := hheld
    have hholder : v.machine.places.holder = some (v.machine.holder.get hsome) :=
      (Option.some_get hsome).symm
    have hdeed := deed_endHolder (.leave ssrc) horderly hholder hvout
    have hoccupied : v.machine.places.state.occupied = true := by
      rw [← horderly.holder_occupied, hholder]
      rfl
    have hstate : (endHolder v).machine.state ≠ .initialising :=
      hdeed.state_ne_initialising hoccupied
    rwa [if_neg hstate]
  · rw [relieved, if_neg hheld]
    split
    · next hstate =>
      have hchecked := deed_checkReady (.leave ssrc) (t := refreshT4 v)
        (by rwa [places_refreshT4]) hstate (by rw [messages_refreshT4, hvout])
      rwa [places_refreshT4] at hchecked
    · have hquiet : Deed (.leave ssrc) _ _ _ := deed_quiet (t := refreshT4 v)
        (by rw [messages_refreshT4, hvout])
      rwa [places_refreshT4] at hquiet ⊢

private theorem messages_revokeForRelease (who : Option Talker) (t : Turn Arbitrator) :
    (revokeForRelease who t).out.messages = t.out.messages ++ who.toList.flatMap fun who =>
      lettersTo t.machine.places.roster who.ssrc
        (.revoke who.ssrc .callReleased t.machine.places.config.ackRequired) := by
  cases who with
  | none => simp [revokeForRelease]
  | some who =>
    rw [revokeForRelease, messages_sendTo, Option.toList_some, List.flatMap_singleton]
    rfl

private theorem messages_denyEach (entries : List QueueEntry) (t : Turn Arbitrator) :
    (entries.foldl (fun t entry => deny entry.ssrc .callReleased t) t).out.messages =
      t.out.messages ++ (entries.map (·.ssrc)).flatMap fun ssrc =>
        lettersTo t.machine.places.roster ssrc
          (.denied ssrc .callReleased t.machine.places.config.ackRequired) := by
  induction entries generalizing t with
  | nil => simp
  | cons entry rest ih =>
    rw [List.foldl_cons, ih, machine_deny, deny, messages_sendTo, List.map_cons, List.flatMap_cons,
      List.append_assoc]
    rfl

/-- The talkers are told to stop, and those that wait are turned down. -/
theorem messages_beginRelease (hout : t.out.messages = []) :
    (beginRelease t).out.messages =
      (t.machine.places.holder.toList ++ t.machine.places.second.toList).flatMap (fun who =>
          lettersTo t.machine.places.roster who.ssrc
            (.revoke who.ssrc .callReleased t.machine.places.config.ackRequired)) ++
        (t.machine.places.preemptor.toList.map (·.ssrc) ++
          t.machine.places.queue.waiting).flatMap fun ssrc =>
            lettersTo t.machine.places.roster ssrc
              (.denied ssrc .callReleased t.machine.places.config.ackRequired) := by
  simp only [beginRelease, messages_moveTo, messages_denyEach]
  split
  · next who hpreemptor =>
    have hwaits : t.machine.places.preemptor = some who := hpreemptor
    simp only [deny, messages_sendTo, machine_sendTo, messages_revokeForRelease,
      machine_revokeForRelease, Turn.out_update, hout, hwaits, List.flatMap_append,
      List.append_assoc, List.nil_append, Option.toList_some, List.map_cons, List.map_nil,
      List.flatMap_singleton]
    rfl
  · next hpreemptor =>
    have hwaits : t.machine.places.preemptor = none := hpreemptor
    simp only [messages_revokeForRelease, machine_revokeForRelease, Turn.out_update, hout, hwaits,
      List.flatMap_append, List.append_assoc, List.nil_append, Option.toList_none, List.map_nil]
    rfl

theorem deed_beginRelease (hout : t.out.messages = []) :
    Deed .beginRelease t.machine.places (beginRelease t).out.messages
      (beginRelease t).machine.places := by
  rw [places_beginRelease, messages_beginRelease hout]
  exact .closing rfl

theorem deed_finishRelease (hout : t.out.messages = []) :
    Deed .finishRelease t.machine.places (finishRelease t).out.messages
      (finishRelease t).machine.places := by
  simp only [finishRelease]
  split
  · next hstate =>
    rw [messages_moveTo, Turn.out_update, hout, places_moveTo]
    exact .closed rfl hstate
  · exact deed_quiet hout

/-- Every step that is not refused is a deed, after a change of the roster. -/
theorem deed_handle {a : Arbitrator} (hsound : a.places.Sound) (hroomy : a.places.queue.Roomy)
    (h : a.handle input = .ok t) :
    ∃ p, a.places.Adjusts input p ∧ p.Orderly ∧ Deed input p t.out.messages t.machine.places := by
  cases input with
  | add ssrc priority originator =>
    simp only [handle] at h
    cases hadd : a.addParticipant ssrc priority originator with
    | error e => simp [hadd, Except.map] at h
    | ok b =>
      simp only [hadd, Except.map] at h
      cases h
      obtain ⟨hnew, proxy, hb, hbsound⟩ := leads_addParticipant hsound hadd
      refine ⟨b.places, hb ▸ .came proxy hnew, hbsound.toOrderly, ?_⟩
      exact deed_quiet (t := ⟨b, {}⟩) rfl
  | initialized ssrc =>
    have hdeed := deed_callInitialized (t := ⟨a, {}⟩) hsound rfl h
    obtain ⟨hknown, -⟩ := leads_callInitialized (fun _ => False) (t := ⟨a, {}⟩) hsound rfl h
    exact ⟨_, .readied hknown, { hsound.toOrderly with }, hdeed⟩
  | implicitRequest ssrc =>
    exact ⟨_, .nobody rfl, hsound.toOrderly, deed_implicitFloorRequest (t := ⟨a, {}⟩) hsound rfl h⟩
  | leave ssrc =>
    have hdeed := deed_clientRelease (t := ⟨a, {}⟩) hsound rfl h
    obtain ⟨hknown, -⟩ := leads_clientRelease (fun _ => False) (t := ⟨a, {}⟩) hsound rfl h
    exact ⟨_, .left hknown, orderly_without ssrc hsound.toOrderly, hdeed⟩
  | receive message =>
    cases h
    exact ⟨_, .nobody rfl, hsound.toOrderly, deed_receive message (t := ⟨a, {}⟩) hsound hroomy rfl⟩
  | expire ticket =>
    cases h
    exact ⟨_, .nobody rfl, hsound.toOrderly, deed_expire ticket (t := ⟨a, {}⟩) hsound hroomy rfl⟩
  | beginRelease =>
    cases h
    exact ⟨_, .nobody rfl, hsound.toOrderly, deed_beginRelease (t := ⟨a, {}⟩) rfl⟩
  | finishRelease =>
    cases h
    exact ⟨_, .nobody rfl, hsound.toOrderly, deed_finishRelease (t := ⟨a, {}⟩) rfl⟩
  | stopTimers =>
    cases h
    exact ⟨_, .nobody rfl, hsound.toOrderly, deed_quiet (t := ⟨a.stopTimers, {}⟩) rfl⟩

theorem roomy_create (callId : CallId) (callType : CallType) (config : ArbitratorConfig) :
    (create callId callType config).places.queue.Roomy :=
  ⟨Nat.zero_le _, config.queueCapacity.toNat_lt_size⟩

theorem roomy_after {a : Arbitrator} (input : Input) (hsound : a.places.Sound)
    (hroomy : a.places.queue.Roomy) : (a.after input).places.queue.Roomy := by
  simp only [after]
  split
  · next t ht =>
    obtain ⟨p, hadjusts, -, hdeed⟩ := deed_handle hsound hroomy ht
    exact hdeed.queue_roomy (hadjusts.queue_roomy hroomy)
  · exact hroomy

/-- However an arbitrator is configured and whatever happens to it, its queue has room for those
that wait. -/
theorem roomy_run (callId : CallId) (callType : CallType) (config : ArbitratorConfig)
    (inputs : List Input) :
    ((create callId callType config).run inputs).places.queue.Roomy := by
  suffices hrun : ∀ (inputs : List Input) (a : Arbitrator), a.places.Sound →
      a.places.queue.Roomy → (a.run inputs).places.queue.Roomy from
    hrun inputs _ (sound_create callId callType config) (roomy_create callId callType config)
  intro inputs
  induction inputs with
  | nil => exact fun _ _ hroomy => hroomy
  | cons input inputs ih =>
    exact fun a hsound hroomy =>
      ih (a.after input) (sound_after input hsound) (roomy_after input hsound hroomy)

/-- However an arbitrator is configured and whatever happened to it, what happens next is refused or
is a deed. -/
theorem deed_run (callId : CallId) (callType : CallType) (config : ArbitratorConfig)
    (inputs : List Input) (input : Input) {a : Arbitrator}
    (ha : a = (create callId callType config).run inputs) :
    (a.sent input = [] ∧ a.after input = a) ∨
      ∃ p, a.places.Adjusts input p ∧ p.Orderly ∧ p.queue.Roomy ∧
        Deed input p (a.sent input) (a.after input).places := by
  have hsound : a.places.Sound := ha ▸ sound_run callId callType config inputs
  have hroomy : a.places.queue.Roomy := ha ▸ roomy_run callId callType config inputs
  cases hstep : a.handle input with
  | error e => exact .inl ⟨by simp [sent, hstep], by simp [after, hstep]⟩
  | ok t =>
    obtain ⟨p, hadjusts, horderly, hdeed⟩ := deed_handle hsound hroomy hstep
    have hsent : a.sent input = t.out.messages := by simp [sent, hstep]
    have hafter : a.after input = t.machine := by simp [after, hstep]
    rw [hsent, hafter]
    exact .inr ⟨p, hadjusts, horderly, hadjusts.queue_roomy hroomy, hdeed⟩

end FloorControl.Arbitrator
