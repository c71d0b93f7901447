import FloorControl.Proofs.PartyAnswers

/-!
# Messages and timers of the arbitrator

What the arbitrator does with each message and each ticket that comes due, from sound places. While
the floor is occupied a request moves its sender into at most one more place, and a release takes
its sender out of all of them.
-/

namespace FloorControl.Arbitrator

variable {t : Turn Arbitrator} {before after : Places} {asked : Ssrc → Prop}

private theorem leads_sendTo {ssrc : Ssrc} {message : Message} (hsound : t.machine.places.Sound)
    (hout : t.out.messages = [])
    (h : t.machine.places.Truthful t.machine.places ssrc message) :
    t.machine.places.Leads asked (sendTo ssrc message t).out.messages
      (sendTo ssrc message t).machine.places := by
  refine leads_of_places_eq hsound (by rw [machine_sendTo]) ?_
  rw [messages_sendTo, hout]
  exact Places.faithful_lettersTo rfl h

private theorem leads_quiet (hsound : t.machine.places.Sound) (hout : t.out.messages = []) :
    t.machine.places.Leads asked t.out.messages t.machine.places :=
  leads_of_places_eq hsound rfl (hout ▸ Places.faithful_nil)

/-- A step that moves parties only between the places of those that wait. -/
private theorem leads_waiting {h : Talker} {l : List Ssrc} {messages : List Envelope}
    (hsound : before.Sound) (hholder : before.holder = some h)
    (hconfig : after.config = before.config) (hroster : after.roster = before.roster)
    (hheld : after.holder = before.holder) (hsecond : after.second = before.second)
    (himplicit : after.implicitRequest = before.implicitRequest)
    (hoccupied : after.state.occupied = true)
    (hpreemptor : ∀ w ∈ after.preemptor, after.state = .pendingRevoke ∧ w.preempts h = true)
    (hmoved : after.placed.Subperm l) (hdistinct : l.Nodup)
    (hentitled : ∀ ssrc ∈ l, MayTalk before.roster ssrc)
    (hasked : ∀ ssrc ∈ l, ssrc ∈ before.placed ∨ asked ssrc)
    (hfaithful : before.Faithful after messages) : before.Leads asked messages after := by
  have hunpromised : before.implicitRequest = none := by
    apply hsound.implicit_eq_none
    intro hstate
    have := hsound.holder_occupied
    simp [hholder, hstate, ArbitratorState.occupied] at this
  refine .steady ?_ hconfig hroster hheld hsecond hfaithful
    (fun ssrc hs => hasked ssrc (hmoved.subset hs)) (himplicit.trans ·)
  refine .of_holder hoccupied (hheld.trans hholder) ?_ hpreemptor (himplicit.trans hunpromised)
    ?_ ?_
  · rw [hsecond, hconfig]
    exact hsound.second_supported
  · obtain ⟨l', hperm, hsub⟩ := hmoved
    exact hperm.nodup (hdistinct.sublist hsub)
  · intro ssrc hs
    rw [hroster]
    exact hentitled ssrc (hmoved.subset hs)

/-- A party that has no place yet, and may have one. -/
structure Newcomer (p : Places) (who : Talker) : Prop where
  unplaced : who.ssrc ∉ p.placed
  entitled : MayTalk p.roster who.ssrc

namespace Newcomer

variable {who : Talker}

theorem distinct (hn : Newcomer before who) (hsound : before.Sound) :
    (who.ssrc :: before.placed).Nodup :=
  List.nodup_cons.mpr ⟨hn.unplaced, hsound.distinct⟩

theorem all_entitled (hn : Newcomer before who) (hsound : before.Sound) :
    ∀ ssrc ∈ who.ssrc :: before.placed, MayTalk before.roster ssrc := by
  intro ssrc hs
  rcases List.mem_cons.mp hs with rfl | hs
  · exact hn.entitled
  · exact hsound.entitled ssrc hs

theorem placed_or_new {ssrc : Ssrc} (hs : ssrc ∈ who.ssrc :: before.placed) :
    ssrc ∈ before.placed ∨ ssrc = who.ssrc :=
  (List.mem_cons.mp hs).symm

theorem not_talker (hn : Newcomer before who) : who.ssrc ∉ before.talkers :=
  fun h => hn.unplaced (Places.talkers_subset_placed h)

end Newcomer

/-- A newcomer waits or is turned down. -/
private theorem leads_queueOrDeny {h who : Talker} (willing : Bool)
    (hsound : t.machine.places.Sound) (hout : t.out.messages = [])
    (hholder : t.machine.places.holder = some h) (hn : Newcomer t.machine.places who) :
    t.machine.places.Leads (· = who.ssrc) (queueOrDeny who willing t).out.messages
      (queueOrDeny who willing t).machine.places := by
  obtain ⟨queue, message, hplaces, hmessages, hqueue, htruthful⟩ :=
    queueOrDeny_outcome who willing t
  rw [hout, List.nil_append] at hmessages
  rw [hplaces, hmessages]
  have hoccupied : t.machine.places.state.occupied = true := by
    rw [← hsound.holder_occupied, hholder]
    rfl
  refine leads_waiting (l := who.ssrc :: t.machine.places.placed) hsound hholder rfl rfl rfl rfl rfl
    hoccupied ?_ ?_ (hn.distinct hsound) (hn.all_entitled hsound) (fun _ => Newcomer.placed_or_new)
    (Places.faithful_lettersTo rfl (htruthful _ _ hn.not_talker))
  · intro w hw
    exact ⟨hsound.preemptor_pending (by rw [hw]; rfl), hsound.preemptor_preempts w hw h hholder⟩
  · rcases hqueue with rfl | hq
    · exact (List.sublist_cons_self _ _).subperm
    · have hperm := hq.append_left
        (t.machine.places.talkers ++ t.machine.places.preemptor.toList.map (·.ssrc))
      exact (hperm.trans List.perm_middle).subperm

private theorem leads_onDual_grant {h who : Talker} (hsound : t.machine.places.Sound)
    (hout : t.out.messages = []) (hholder : t.machine.places.holder = some h)
    (hsecond : t.machine.places.second = none)
    (hsupported : t.machine.places.config.dualFloorSupported = true)
    (hn : Newcomer t.machine.places who) :
    t.machine.places.Leads (· = who.ssrc)
      (onDual (DualFloor.grant who t.machine.places.roster.ssrcs) t).out.messages
      (onDual (DualFloor.grant who t.machine.places.roster.ssrcs) t).machine.places := by
  rw [places_onDual_grant, messages_onDual_grant, hout, List.nil_append]
  have hoccupied : t.machine.places.state.occupied = true := by
    rw [← hsound.holder_occupied, hholder]
    rfl
  have hplaced : (Places.placed { t.machine.places with second := some who }).Perm
      (who.ssrc :: t.machine.places.placed) := by
    simp only [Places.placed, Places.talkers, hsecond, hholder, Option.toList_some,
      Option.toList_none, List.append_nil, List.map_cons, List.map_nil, List.cons_append,
      List.nil_append]
    exact List.Perm.swap _ _ _
  have hknown := hn.entitled.contains
  refine ⟨?_, rfl, rfl, ?_, ?_, by simp [hsecond], ?_, ?_, id⟩
  · refine .of_holder hoccupied hholder (fun _ => hsupported) ?_ ?_ ?_ ?_
    · intro w hw
      exact ⟨hsound.preemptor_pending (by rw [hw]; rfl), hsound.preemptor_preempts w hw h hholder⟩
    · apply hsound.implicit_eq_none
      intro hstate
      simp [hstate, ArbitratorState.occupied] at hoccupied
    · exact hplaced.nodup_iff.mpr (hn.distinct hsound)
    · intro ssrc hs
      exact hn.all_entitled hsound ssrc (hplaced.mem_iff.mp hs)
  · intro e he
    rcases List.mem_cons.mp he with rfl | he
    · exact ⟨_, _, rfl, hknown, rfl, Places.second_mem_talkers rfl⟩
    · obtain ⟨ssrc, hs, rfl⟩ := List.mem_map.mp he
      rw [List.mem_filter, ← Roster.contains_iff_mem] at hs
      exact ⟨_, _, rfl, hs.1, trivial⟩
  · intro former hformer hnot
    exact absurd rfl (hnot former hformer)
  · intro ssrc hnew hold
    rw [Places.mem_talkers] at hnew hold
    rcases hnew with hheld | ⟨s, hs, rfl⟩
    · exact absurd (.inl hheld) hold
    · cases hs
      exact ⟨_, List.mem_cons_self, rfl⟩
  · intro ssrc hs
    exact (Newcomer.placed_or_new (hplaced.mem_iff.mp hs)).imp_right .inr

/-- A newcomer that preempts the holder is remembered as the preemptor. -/
private theorem leads_remember {h who : Talker} (messages : List Envelope)
    (hsound : before.Sound) (hholder : before.holder = some h)
    (hpreemptor : before.preemptor = none) (hpreempts : who.preempts h = true)
    (hn : Newcomer before who) (hfaithful : before.Faithful
      { before with preemptor := some who, state := .pendingRevoke } messages) :
    before.Leads (· = who.ssrc) messages
      { before with preemptor := some who, state := .pendingRevoke } := by
  refine leads_waiting (l := who.ssrc :: before.placed) hsound hholder rfl rfl rfl rfl rfl rfl ?_ ?_
    (hn.distinct hsound) (hn.all_entitled hsound) (fun _ => Newcomer.placed_or_new) hfaithful
  · rintro w ⟨⟩
    exact ⟨rfl, hpreempts⟩
  · simp only [Places.placed, hpreemptor, Option.toList_some, Option.toList_none, List.map_cons,
      List.map_nil, List.append_nil, List.append_assoc, List.cons_append, List.nil_append]
    exact List.perm_middle.subperm

/-- A newcomer that preempts both the holder and the preemptor takes the place of the latter. -/
private theorem leads_replace {h who p : Talker} (hsound : t.machine.places.Sound)
    (hout : t.out.messages = []) (hholder : t.machine.places.holder = some h)
    (hpreemptor : t.machine.places.preemptor = some p) (hpreempts : who.preempts h = true)
    (hn : Newcomer t.machine.places who) :
    let u := t.update fun a => { a with preemptor := some who }
    t.machine.places.Leads (· = who.ssrc) (queueOrDeny p true u).out.messages
      (queueOrDeny p true u).machine.places := by
  intro u
  have hstate := hsound.preemptor_pending (by rw [hpreemptor]; rfl)
  have hu : u.machine.places = { t.machine.places with preemptor := some who } := rfl
  obtain ⟨queue, message, hplaces, hmessages, hqueue, htruthful⟩ := queueOrDeny_outcome p true u
  rw [show u.out.messages = [] from hout, List.nil_append] at hmessages
  rw [hu] at hplaces hmessages hqueue
  rw [hplaces, hmessages]
  have hplaced : t.machine.places.placed =
      t.machine.places.talkers ++ p.ssrc :: t.machine.places.queue.waiting := by
    simp [Places.placed, hpreemptor]
  have hdistinct := hsound.distinct
  rw [hplaced] at hdistinct
  refine leads_waiting (l := who.ssrc :: t.machine.places.placed) hsound hholder rfl rfl rfl rfl rfl
    (by rw [hstate]; rfl) ?_ ?_ (hn.distinct hsound) (hn.all_entitled hsound)
    (fun _ => Newcomer.placed_or_new) (Places.faithful_lettersTo rfl (htruthful _ _ ?_))
  · rintro w ⟨⟩
    exact ⟨hstate, hpreempts⟩
  · have hafter : Places.placed { t.machine.places with
        queue := queue, preemptor := some who } =
        t.machine.places.talkers ++ who.ssrc :: queue.waiting := by
      simp [Places.placed, Places.talkers]
    rw [hafter, hplaced]
    refine List.perm_middle.subperm.trans ((List.subperm_cons _).mpr ?_)
    refine (List.subperm_append_left _).mpr ?_
    rcases hqueue with rfl | hq
    · exact (List.sublist_cons_self _ _).subperm
    · exact hq.subperm
  · intro htalks
    exact (List.nodup_append.mp hdistinct).2.2 _ htalks _ List.mem_cons_self rfl

theorem leads_requestWhileOccupied {r : Request} {proxy : Proxy} (hsound : t.machine.places.Sound)
    (hout : t.out.messages = []) (hoccupied : t.machine.places.state.occupied = true)
    (hproxy : t.machine.roster.get? r.ssrc = some proxy) :
    t.machine.places.Leads (· = r.ssrc) (requestWhileOccupied r proxy.receiveOnly t).out.messages
      (requestWhileOccupied r proxy.receiveOnly t).machine.places := by
  obtain ⟨h, hheld⟩ := hsound.exists_holder hoccupied
  have hnew (hplaceless : Placeless t.machine r.ssrc) (hspeaks : proxy.receiveOnly = false) :
      Newcomer t.machine.places r.talker :=
    ⟨hplaceless.not_mem_placed, proxy, hproxy, hspeaks⟩
  have hreaction := reaction_requestWhileOccupied r proxy.receiveOnly t
  generalize requestWhileOccupied r proxy.receiveOnly t = u at hreaction ⊢
  cases hreaction with
  | holder hholder _ =>
    exact leads_sendTo hsound hout ⟨rfl, Places.holder_mem_talkers hholder⟩
  | @second who hsecond _ =>
    have htalker : t.machine.places.second = some who := hsecond
    refine leads_of_places_eq hsound places_onDual_resendGrant ?_
    rw [messages_onDual_resendGrant htalker, hout, List.nil_append]
    intro e he
    rw [List.mem_singleton.mp he]
    have hin := Places.second_mem_talkers htalker
    exact ⟨_, _, rfl, (hsound.entitled _ (Places.talkers_subset_placed hin)).contains, rfl, hin⟩
  | waiting _ | preemptor _ _ => exact leads_sendTo hsound hout trivial
  | listens hplaceless _ =>
    exact leads_sendTo hsound hout fun htalks =>
      hplaceless.not_mem_placed (Places.talkers_subset_placed htalks)
  | seconded hplaceless hspeaks _ _ _ hsupported hsecond _ =>
    exact leads_onDual_grant hsound hout hheld hsecond hsupported (hnew hplaceless hspeaks)
  | @preempted holder hplaceless hspeaks hholder hpreempts _ _ hpreemptor =>
    have hheld : (t.update fun a =>
        { a with preemptor := some r.talker }).machine.places.holder = some holder := hholder
    rw [places_revokeHolder _ hheld, messages_revokeHolder _ hheld, Turn.out_update, hout]
    exact leads_remember _ hsound hholder hpreemptor hpreempts (hnew hplaceless hspeaks)
      (Places.faithful_lettersTo rfl trivial)
  | supplanted _ _ _ _ hstate hpreemptor =>
    have hnobody : t.machine.preemptor = none :=
      hsound.preemptor_eq_none (by change t.machine.state ≠ _; simp [hstate])
    cases hnobody.symm.trans hpreemptor
  | parked hplaceless hspeaks hholder hpreempts hstate hpreemptor =>
    have hremember := leads_remember [] hsound hholder hpreemptor hpreempts
      (hnew hplaceless hspeaks) Places.faithful_nil
    rw [← hstate] at hremember
    rw [Turn.out_update, hout]
    exact hremember
  | displaced hplaceless hspeaks hholder hpreempts _ hpreemptor _ =>
    exact leads_replace hsound hout hholder hpreemptor hpreempts (hnew hplaceless hspeaks)
  | enlisted hplaceless hspeaks _ =>
    exact leads_queueOrDeny r.queueing hsound hout hheld (hnew hplaceless hspeaks)

theorem leads_receiveRequest (r : Request) (hsound : t.machine.places.Sound)
    (hout : t.out.messages = []) :
    t.machine.places.Leads (· = r.ssrc) (receiveRequest r t).out.messages
      (receiveRequest r t).machine.places := by
  simp only [receiveRequest]
  split
  · exact leads_quiet hsound hout
  next proxy hproxy =>
  split
  · next hstate =>
    have hvacant : t.machine.places.state.occupied = false := by
      change t.machine.state.occupied = false
      rw [hstate]
      rfl
    split
    · refine leads_sendTo hsound hout fun htalks => ?_
      have hplaced := Places.talkers_subset_placed htalks
      simp [hsound.placed_eq_nil hvacant] at hplaced
    · next hlisten =>
      have himplicit : t.machine.places.implicitRequest = none :=
        hsound.implicit_eq_none (by change t.machine.state ≠ _; simp [hstate])
      refine leads_grant t.machine.places.state hsound.toOrderly hvacant ?_
        ⟨proxy, hproxy, by simpa using hlisten⟩ (.inr rfl) ?_
      · rw [← himplicit]
      · intro after _ _
        rw [hout]
        exact Places.faithful_nil
  · next hstate =>
    refine leads_requestWhileOccupied hsound hout ?_ hproxy
    change t.machine.state.occupied = true
    rw [hstate]
    rfl
  · next hstate =>
    refine leads_requestWhileOccupied hsound hout ?_ hproxy
    change t.machine.state.occupied = true
    rw [hstate]
    rfl
  · exact leads_quiet hsound hout
  · exact leads_quiet hsound hout
  · exact leads_quiet hsound hout

/-- The second talker loses its place, and is told so. -/
private theorem leads_vacate {h s : Talker} {messages : List Envelope} (message : Message)
    (hsound : before.Sound) (hholder : before.holder = some h) (hsecond : before.second = some s)
    (hfaithful : before.Faithful { before with second := none } messages)
    (htold : before.roster.contains s.ssrc = true → letterTo s.ssrc message ∈ messages)
    (hends : message.endsSecond s.ssrc = true) :
    before.Leads asked messages { before with second := none } := by
  have hsub : (Places.placed { before with second := none }).Sublist before.placed := by
    simp only [Places.placed, Places.talkers, hsecond, Option.toList_some, Option.toList_none,
      List.append_nil]
    exact List.Sublist.append (List.Sublist.append
      ((List.sublist_append_left _ _).map _) (List.Sublist.refl _)) (List.Sublist.refl _)
  have hoccupied : before.state.occupied = true := by
    rw [← hsound.holder_occupied, hholder]
    rfl
  refine ⟨?_, rfl, rfl, hfaithful, ?_, ?_, ?_, fun ssrc hs => .inl (hsub.subset hs), id⟩
  · refine .of_holder hoccupied hholder (by simp) ?_ ?_ (hsound.distinct.sublist hsub)
      fun ssrc hs => hsound.entitled ssrc (hsub.subset hs)
    · intro w hw
      exact ⟨hsound.preemptor_pending (by rw [hw]; rfl), hsound.preemptor_preempts w hw h hholder⟩
    · apply hsound.implicit_eq_none
      intro hstate
      simp [hstate, ArbitratorState.occupied] at hoccupied
  · intro former hformer hnot
    exact absurd rfl (hnot former hformer)
  · intro s' hs' _ hknown
    rw [hsecond] at hs'
    cases hs'
    exact ⟨message, htold hknown, hends⟩
  · intro ssrc hnew hold
    rw [Places.mem_talkers] at hnew hold
    rcases hnew with hheld | ⟨_, ⟨⟩, _⟩
    exact absurd (.inl hheld) hold

private theorem not_placed_after_vacate {h s : Talker} (hsound : before.Sound)
    (hholder : before.holder = some h) (hsecond : before.second = some s) :
    s.ssrc ∉ Places.placed { before with second := none } := by
  have hperm : before.placed.Perm (s.ssrc :: Places.placed { before with second := none }) := by
    simp only [Places.placed, Places.talkers, hholder, hsecond, Option.toList_some,
      Option.toList_none, List.append_nil, List.map_cons, List.map_nil, List.cons_append,
      List.nil_append]
    exact List.Perm.swap _ _ _
  exact (List.nodup_cons.mp (hperm.nodup hsound.distinct)).1

private def Places.impatient (ssrc : Ssrc) (p : Places) : Places :=
  { p with
    queue := p.queue.remove ssrc
    preemptor := p.preemptor.filter (·.ssrc ≠ ssrc) }

private theorem leads_impatient {h : Talker} {ssrc : Ssrc} {messages : List Envelope}
    (hsound : before.Sound) (hholder : before.holder = some h) (hnotholder : h.ssrc ≠ ssrc)
    (hnotsecond : ∀ s ∈ before.second, s.ssrc ≠ ssrc)
    (hfaithful : before.Faithful (before.impatient ssrc) messages) :
    before.Leads asked messages (before.impatient ssrc) ∧
      ssrc ∉ (before.impatient ssrc).placed := by
  have hsub : (before.impatient ssrc).placed.Sublist before.placed := by
    refine List.Sublist.append (List.Sublist.append (List.Sublist.refl _) ?_) ?_
    · exact (filter_toList_sublist _ _).map _
    · exact List.filter_sublist.map _
  have hoccupied : before.state.occupied = true := by
    rw [← hsound.holder_occupied, hholder]
    rfl
  refine ⟨leads_waiting hsound hholder rfl rfl rfl rfl rfl hoccupied ?_ hsub.subperm hsound.distinct
    hsound.entitled (fun _ => .inl) hfaithful, ?_⟩
  · intro w hw
    simp only [Places.impatient, Option.mem_def, Option.filter_eq_some_iff] at hw
    exact ⟨hsound.preemptor_pending (by rw [hw.1]; rfl),
      hsound.preemptor_preempts w hw.1 h hholder⟩
  · simp only [Places.placed, List.mem_append, Places.mem_talkers, List.mem_map, Option.mem_toList,
      Places.impatient, FloorQueue.waiting_remove, List.mem_filter]
    rintro (((⟨w, hw, heq⟩ | ⟨w, hw, heq⟩) | ⟨w, hw, heq⟩) | ⟨-, hwaits⟩)
    · rw [hholder] at hw
      cases hw
      exact hnotholder heq
    · exact hnotsecond w hw heq
    · rw [Option.filter_eq_some_iff] at hw
      simp [heq] at hw
    · simp at hwaits

variable (asked) in
/-- A party gives the floor back, or any other place, and has none any longer. -/
theorem leads_receiveRelease (ssrc : Ssrc) (hsound : t.machine.places.Sound)
    (hout : t.out.messages = []) :
    t.machine.places.Leads asked (receiveRelease ssrc t).out.messages
        (receiveRelease ssrc t).machine.places ∧
      ssrc ∉ (receiveRelease ssrc t).machine.places.placed := by
  simp only [receiveRelease]
  cases hoccupied : t.machine.occupied with
  | false =>
    have hempty : t.machine.places.placed = [] := hsound.placed_eq_nil hoccupied
    simp only [Bool.not_false, if_true]
    split
    · refine ⟨leads_sendTo hsound hout fun htalks => ?_, ?_⟩
      · have hplaced := Places.talkers_subset_placed htalks
        simp [hempty] at hplaced
      · rw [machine_sendTo]
        simp [hempty]
    · exact ⟨leads_quiet hsound hout, by simp [hempty]⟩
  | true =>
    obtain ⟨h, hholder⟩ := hsound.exists_holder hoccupied
    have hheld : t.machine.holder = some h := hholder
    simp only [Bool.not_true, Bool.false_eq_true, if_false]
    split
    · next hisholder =>
      simp only [isHolder, hheld, Option.any_some, decide_eq_true_eq] at hisholder
      obtain ⟨hleads, hgone, -⟩ := leads_endHolder asked
        ⟨hsound.toOrderly, hholder, fun other hs _ => hsound.entitled other hs⟩ hout
      exact ⟨hleads, hisholder ▸ hgone⟩
    next hnotholder =>
    split
    · next hissecond =>
      simp only [DualFloor.isTalker, Option.any_eq_true_iff_get, decide_eq_true_eq] at hissecond
      obtain ⟨hsome, rfl⟩ := hissecond
      have hsecond : t.machine.places.second = some (t.machine.dual.talker.get hsome) :=
        (Option.some_get hsome).symm
      simp only [Turn.machine_update, hheld]
      refine ⟨?_, not_placed_after_vacate hsound hholder hsecond⟩
      have hmessages : (broadcast (t.machine.takenMessage h.ssrc)
          (t.update fun a => { a with dual := a.dual.vacate })).out.messages =
          lettersExcept t.machine.places.roster none (t.machine.takenMessage h.ssrc) := by
        rw [messages_broadcast, Turn.out_update, hout, List.nil_append]
        rfl
      refine leads_vacate (t.machine.takenMessage h.ssrc) hsound hholder hsecond ?_ ?_ ?_
      · exact hmessages ▸ Places.faithful_lettersExcept rfl fun _ _ => trivial
      · intro hknown
        exact hmessages ▸ mem_lettersExcept.mpr ⟨_, hknown, by simp, rfl⟩
      · simpa [takenMessage, Message.endsSecond, Message.yieldsTo] using
          hsound.holder_ne_second hholder hsecond
    next hnotsecond =>
    set u := t.update fun a =>
      { a with
        queue := a.queue.remove ssrc
        preemptor := a.preemptor.filter (·.ssrc ≠ ssrc) } with hu
    have hplaces : (refreshT4 (sendTaken ssrc u)).machine.places =
        t.machine.places.impatient ssrc := by
      rw [places_refreshT4, sendTaken, show u.machine.holder = some h from hheld]
      simp only [machine_sendTo]
      rfl
    have hmessages : (refreshT4 (sendTaken ssrc u)).out.messages =
        lettersTo t.machine.places.roster ssrc (u.machine.takenMessage h.ssrc) := by
      rw [messages_refreshT4, sendTaken, show u.machine.holder = some h from hheld]
      simp only [messages_sendTo]
      rw [show u.out.messages = [] from hout, List.nil_append]
      rfl
    rw [hplaces, hmessages]
    refine leads_impatient hsound hholder ?_ ?_ (Places.faithful_lettersTo rfl trivial)
    · simpa [isHolder, hheld] using hnotholder
    · intro s hs heq
      change t.machine.dual.talker = some s at hs
      simp [DualFloor.isTalker, hs, heq] at hnotsecond

theorem places_receiveAck (ssrc : Ssrc) (acked : MessageKind) (a : Arbitrator) :
    (receiveAck ssrc acked a).places = a.places := by
  have htalker : (a.dual.acknowledge ssrc).talker = a.dual.talker := by
    simp only [DualFloor.acknowledge]
    split <;> rfl
  simp only [receiveAck]
  split
  · exact congrArg (fun second => { a.places with second := second }) htalker
  · rfl

def Asks (message : Message) (ssrc : Ssrc) : Prop :=
  ∃ r, message = .request r ∧ ssrc = r.ssrc

theorem leads_receive (message : Message) (hsound : t.machine.places.Sound)
    (hout : t.out.messages = []) :
    t.machine.places.Leads (Asks message) (receive message t).out.messages
      (receive message t).machine.places := by
  cases message with
  | request r =>
    have hleads := leads_receiveRequest r hsound hout
    exact { hleads with
      placed := fun ssrc hs => (hleads.placed ssrc hs).imp_right
        (.imp_right fun heq => ⟨r, rfl, heq⟩) }
  | release ssrc => exact (leads_receiveRelease _ ssrc hsound hout).1
  | queuePositionRequest ssrc =>
    simp only [receive, receiveQueuePositionRequest]
    split
    · exact leads_sendTo hsound hout trivial
    · split
      · exact leads_sendTo hsound hout trivial
      · exact leads_quiet hsound hout
  | ack ssrc acked =>
    refine leads_of_places_eq hsound (places_receiveAck ssrc acked t.machine) ?_
    rw [receive, Turn.out_update, hout]
    exact Places.faithful_nil
  | granted | denied | idle | taken | revoke | queuePositionInfo => exact leads_quiet hsound hout

/-- Once a ticket has been accepted, the step is seen from the places that it finds. -/
private theorem leads_of_rest {f : Turn Arbitrator → Turn Arbitrator} {g : Arbitrator → Arbitrator}
    (hg : ∀ a, (g a).places = a.places) (hsound : t.machine.places.Sound)
    (hout : t.out.messages = [])
    (h : ∀ u : Turn Arbitrator, u.machine.places.Sound → u.out.messages = [] →
      u.machine.places.Leads asked (f u).out.messages (f u).machine.places) :
    t.machine.places.Leads asked (f (t.update g)).out.messages (f (t.update g)).machine.places := by
  have hleads := h (t.update g) (by rw [Turn.machine_update, hg]; exact hsound) hout
  rwa [Turn.machine_update, hg] at hleads

private theorem leads_expireT1 (hsound : t.machine.places.Sound) (hout : t.out.messages = []) :
    t.machine.places.Leads asked (expireT1 t).out.messages (expireT1 t).machine.places := by
  simp only [expireT1]
  split
  · exact leads_sendTo hsound hout trivial
  · exact leads_quiet hsound hout

private theorem leads_expireT2 (hsound : t.machine.places.Sound) (hout : t.out.messages = []) :
    t.machine.places.Leads asked (expireT2 t).out.messages (expireT2 t).machine.places := by
  simp only [expireT2]
  split
  · next hstate =>
    have hoccupied : t.machine.places.state.occupied = true := by
      change t.machine.state.occupied = true
      rw [hstate]
      rfl
    obtain ⟨h, hholder⟩ := hsound.exists_holder hoccupied
    rw [places_revokeHolder _ hholder, messages_revokeHolder _ hholder, hout]
    have hpreemptor : t.machine.places.preemptor = none :=
      hsound.preemptor_eq_none (by change t.machine.state ≠ _; simp [hstate])
    exact leads_waiting hsound hholder rfl rfl rfl rfl rfl rfl (by simp [hpreemptor])
      (List.Subperm.refl _) hsound.distinct hsound.entitled (fun _ => .inl)
      (Places.faithful_lettersTo rfl trivial)
  · exact leads_quiet hsound hout

private theorem leads_expireT3 (hsound : t.machine.places.Sound) (hout : t.out.messages = []) :
    t.machine.places.Leads asked (expireT3 t).out.messages (expireT3 t).machine.places := by
  simp only [expireT3]
  split
  · next hstate =>
    have hoccupied : t.machine.places.state.occupied = true := by
      change t.machine.state.occupied = true
      rw [hstate]
      rfl
    obtain ⟨h, hholder⟩ := hsound.exists_holder hoccupied
    exact (leads_endHolder _
      ⟨hsound.toOrderly, hholder, fun other hs _ => hsound.entitled other hs⟩ hout).1
  · exact leads_quiet hsound hout

theorem machine_sendPositions (l : List (QueueEntry × Nat)) (u : Turn Arbitrator) :
    (l.foldl (fun t (entry, position) => sendPosition entry.ssrc position t) u).machine =
      u.machine := by
  induction l generalizing u with
  | nil => rfl
  | cons e l ih => rw [List.foldl_cons, ih, machine_sendPosition]

private theorem faithful_sendPositions (l : List (QueueEntry × Nat)) (u : Turn Arbitrator)
    (h : before.Faithful u.machine.places u.out.messages) :
    before.Faithful u.machine.places
      (l.foldl (fun t (entry, position) => sendPosition entry.ssrc position t) u).out.messages := by
  induction l generalizing u with
  | nil => exact h
  | cons e l ih =>
    rw [List.foldl_cons]
    have hnext := ih (sendPosition e.1.ssrc e.2 u) (by
      rw [machine_sendPosition, sendPosition, messages_sendTo, Places.faithful_append]
      exact ⟨h, Places.faithful_lettersTo rfl trivial⟩)
    rwa [machine_sendPosition] at hnext

private theorem leads_expireT4 (hsound : t.machine.places.Sound) (hout : t.out.messages = []) :
    t.machine.places.Leads asked (expireT4 t).out.messages (expireT4 t).machine.places := by
  refine leads_of_places_eq hsound ?_ ?_
  · rw [expireT4, places_refreshT4, machine_sendPositions]
  · rw [expireT4, messages_refreshT4]
    exact faithful_sendPositions _ t (hout ▸ Places.faithful_nil)

private theorem leads_expireT7 (hsound : t.machine.places.Sound) (hout : t.out.messages = []) :
    t.machine.places.Leads asked (expireT7 t).out.messages (expireT7 t).machine.places := by
  simp only [expireT7]
  split
  swap
  · exact leads_quiet hsound hout
  next hstate =>
  split
  · exact leads_of_places_eq hsound rfl (by rw [Turn.out_update, hout]; exact Places.faithful_nil)
  · refine leads_of_places_eq hsound rfl ?_
    rw [messages_startT7, messages_broadcast, Turn.out_update, hout, List.nil_append]
    refine Places.faithful_lettersExcept rfl fun ssrc _ htalks => ?_
    have hvacant : t.machine.places.state.occupied = false := by
      change t.machine.state.occupied = false
      rw [hstate]
      rfl
    have hplaced := Places.talkers_subset_placed htalks
    simp [hsound.placed_eq_nil hvacant] at hplaced

private theorem leads_of_talker_eq (inner : Turn DualFloor) (hsound : t.machine.places.Sound)
    (htalker : inner.machine.talker = t.machine.dual.talker)
    (hfaithful : t.machine.places.Faithful t.machine.places inner.out.messages) :
    t.machine.places.Leads asked inner.out.messages
      (places { t.machine with dual := inner.machine }) := by
  refine leads_of_places_eq (u := ⟨{ t.machine with dual := inner.machine }, inner.out⟩) hsound ?_
    hfaithful
  exact congrArg (fun second => { t.machine.places with second := second }) htalker

private theorem leads_expireT20 (ticket : Ticket) (hsound : t.machine.places.Sound)
    (hout : t.out.messages = []) :
    t.machine.places.Leads asked (expireT20 ticket t).out.messages
      (expireT20 ticket t).machine.places := by
  cases haccepts : t.machine.dual.t20.accepts ticket with
  | false =>
    simp only [expireT20, DualFloor.expire, haccepts, Bool.not_false, if_true]
    exact leads_quiet hsound hout
  | true =>
    cases htalker : t.machine.dual.talker with
    | none =>
      simp only [expireT20, DualFloor.expire, haccepts, Bool.not_true, Bool.false_eq_true, if_false,
        Turn.machine_update, htalker]
      refine leads_of_talker_eq (⟨{ t.machine.dual with
        talker := none, t20 := t.machine.dual.t20.rest }, t.out⟩) hsound htalker.symm ?_
      exact hout ▸ Places.faithful_nil
    | some s =>
      have hsecond : t.machine.places.second = some s := htalker
      have hin := Places.second_mem_talkers hsecond
      have hknown := (hsound.entitled _ (Places.talkers_subset_placed hin)).contains
      simp only [expireT20, DualFloor.expire, haccepts, Bool.not_true, Bool.false_eq_true, if_false,
        Turn.machine_update, htalker]
      cases t.machine.dual.c20.arrives with
      | false =>
        simp only [Bool.false_eq_true, if_false, DualFloor.resendGrant, Turn.machine_update,
          htalker]
        refine leads_of_talker_eq _ hsound ?_ ?_
        · rfl
        · intro e he
          change e ∈ t.out.messages ++ [_] at he
          rw [hout, List.nil_append, List.mem_singleton] at he
          exact ⟨_, _, he, hknown, rfl, hin⟩
      | true =>
        simp only [if_true]
        have hsome := hsound.second_holder (by rw [hsecond]; rfl)
        obtain ⟨h, hholder⟩ := Option.isSome_iff_exists.mp hsome
        rw [Turn.machine_tell, machine_sendTo, Turn.messages_tell, messages_sendTo]
        simp only [Turn.out_update, hout, List.nil_append]
        refine leads_vacate (t.machine.revokeMessage s.ssrc .noResources) hsound hholder
          hsecond (Places.faithful_lettersTo rfl trivial) ?_ rfl
        intro hknown
        exact mem_lettersTo.mpr ⟨hknown, rfl⟩

variable (asked) in
theorem leads_expire (ticket : Ticket) (hsound : t.machine.places.Sound)
    (hout : t.out.messages = []) :
    t.machine.places.Leads asked (expire ticket t).out.messages
      (expire ticket t).machine.places := by
  have hquiet : t.machine.places.Leads asked t.out.messages t.machine.places :=
    leads_quiet hsound hout
  simp only [expire]
  split
  · split
    · exact leads_of_rest (fun _ => rfl) hsound hout fun _ => leads_expireT1
    · exact hquiet
  · split
    · exact leads_of_rest (fun _ => rfl) hsound hout fun _ => leads_expireT2
    · exact hquiet
  · split
    · exact leads_of_rest (fun _ => rfl) hsound hout fun _ => leads_expireT3
    · exact hquiet
  · split
    · exact leads_of_rest (fun _ => rfl) hsound hout fun _ => leads_expireT4
    · exact hquiet
  · split
    · exact leads_of_rest (fun _ => rfl) hsound hout fun _ => leads_expireT7
    · exact hquiet
  · exact leads_expireT20 ticket hsound hout
  all_goals exact hquiet

end FloorControl.Arbitrator
