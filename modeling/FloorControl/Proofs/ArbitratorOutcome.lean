import FloorControl.Proofs.SoundPlaces

/-!
# What a step of the arbitrator leads to

Every step of the arbitrator but the taking down of the call leaves the places sound, and what it
says is true of the places that it leaves: it grants the floor only to a talker and tells no talker
that the floor is idle or a request is denied. A holder that loses the floor is told so before
anybody is granted it, a second talker that loses its place is told so too, and every new talker
gets its grant. This module says so once, and proves it of the end of a hold.
-/

namespace FloorControl

namespace Message

def isGrant : Message → Bool
  | .granted .. => true
  | _ => false

def isIdle : Message → Bool
  | .idle .. => true
  | _ => false

def isDenial : Message → Bool
  | .denied .. => true
  | _ => false

def yieldsTo (ssrc : Ssrc) : Message → Bool
  | .taken named dual _ => named ≠ ssrc && !dual
  | _ => false

def endsSecond (ssrc : Ssrc) : Message → Bool
  | .revoke .. => true
  | message => message.yieldsTo ssrc

end Message

namespace Arbitrator

namespace Places

variable {before after : Places}

/-- What a message to a party says is true of the places that a step leaves. The floor is announced
as idle before the party that was promised it gets it. -/
def Truthful (before after : Places) (ssrc : Ssrc) : Message → Prop
  | .granted named .. => named = ssrc ∧ ssrc ∈ after.talkers
  | .idle .. => ssrc ∈ after.talkers → before.implicitRequest = some ssrc
  | .denied .. => ssrc ∉ after.talkers
  | _ => True

def Faithful (before after : Places) (messages : List Envelope) : Prop :=
  ∀ e ∈ messages, ∃ ssrc message, e = letterTo ssrc message ∧
    after.roster.contains ssrc = true ∧ before.Truthful after ssrc message

theorem faithful_nil : before.Faithful after [] := by simp [Faithful]

theorem faithful_append {first later : List Envelope} :
    before.Faithful after (first ++ later) ↔
      before.Faithful after first ∧ before.Faithful after later :=
  List.forall_mem_append

theorem faithful_lettersTo {roster : Roster Proxy} {ssrc : Ssrc} {message : Message}
    (hroster : after.roster = roster) (h : before.Truthful after ssrc message) :
    before.Faithful after (lettersTo roster ssrc message) := by
  intro e he
  obtain ⟨hknown, rfl⟩ := mem_lettersTo.mp he
  exact ⟨ssrc, message, rfl, hroster ▸ hknown, h⟩

theorem faithful_lettersExcept {roster : Roster Proxy} {except : Option Ssrc} {message : Message}
    (hroster : after.roster = roster)
    (h : ∀ ssrc, some ssrc ≠ except → before.Truthful after ssrc message) :
    before.Faithful after (lettersExcept roster except message) := by
  intro e he
  obtain ⟨ssrc, hknown, hne, rfl⟩ := mem_lettersExcept.mp he
  exact ⟨ssrc, message, rfl, hroster ▸ hknown, h ssrc hne⟩

/-- What a step leads to. A party comes into a place only if it was promised the floor or `asked`
for it in this step. -/
structure Leads (before : Places) (asked : Ssrc → Prop) (messages : List Envelope)
    (after : Places) : Prop where
  sound : after.Sound
  config : after.config = before.config
  roster : after.roster = before.roster
  faithful : before.Faithful after messages
  dismissed : ∀ h ∈ before.holder, (∀ who ∈ after.holder, who.ssrc ≠ h.ssrc) →
    after.roster.contains h.ssrc = true →
    ∃ first later ack, messages = first ++ later ∧ letterTo h.ssrc (.idle ack) ∈ first ∧
      ∀ e ∈ first, e.message.isGrant = false
  relieved : ∀ s ∈ before.second, s.ssrc ∉ after.talkers →
    after.roster.contains s.ssrc = true →
    ∃ message, letterTo s.ssrc message ∈ messages ∧ message.endsSecond s.ssrc = true
  granted : ∀ ssrc ∈ after.talkers, ssrc ∉ before.talkers →
    ∃ message, letterTo ssrc message ∈ messages ∧ message.isGrant = true
  placed : ∀ ssrc ∈ after.placed,
    ssrc ∈ before.placed ∨ before.implicitRequest = some ssrc ∨ asked ssrc
  unpromised : before.implicitRequest = none → after.implicitRequest = none

variable {asked : Ssrc → Prop} {messages rest : List Envelope} {h who : Talker} {ack : Bool}

theorem talkers_eq (hholder : after.holder = before.holder)
    (hsecond : after.second = before.second) : after.talkers = before.talkers := by
  simp only [talkers, hholder, hsecond]

theorem holder_mem_talkers (hholder : before.holder = some who) : who.ssrc ∈ before.talkers :=
  mem_talkers.mpr (.inl ⟨who, hholder, rfl⟩)

theorem second_mem_talkers (hsecond : before.second = some who) : who.ssrc ∈ before.talkers :=
  mem_talkers.mpr (.inr ⟨who, hsecond, rfl⟩)

/-- What is seen from places before a change that says nothing is seen from the places after it. -/
theorem Leads.of_before {former : Places} (h : Leads before asked messages after)
    (hconfig : before.config = former.config) (hroster : before.roster = former.roster)
    (hholder : before.holder = former.holder)
    (hsecond : ∀ s ∈ former.second, s ∈ before.second ∨ before.roster.contains s.ssrc = false)
    (htalkers : before.talkers ⊆ former.talkers) (hplaced : before.placed ⊆ former.placed)
    (himplicit : ∀ ssrc, before.implicitRequest = some ssrc →
      former.implicitRequest = some ssrc) : Leads former asked messages after where
  sound := h.sound
  config := h.config.trans hconfig
  roster := h.roster.trans hroster
  faithful e he := by
    obtain ⟨ssrc, message, rfl, hknown, htruthful⟩ := h.faithful e he
    refine ⟨ssrc, message, rfl, hknown, ?_⟩
    cases message <;> try exact htruthful
    exact fun htalks => himplicit ssrc (htruthful htalks)
  dismissed := hholder ▸ h.dismissed
  relieved s hs hnot hknown := by
    rcases hsecond s hs with hs | hleft
    · exact h.relieved s hs hnot hknown
    · rw [h.roster, hleft] at hknown
      cases hknown
  granted ssrc hnew hold := h.granted ssrc hnew fun hs => hold (htalkers hs)
  placed ssrc hs := (h.placed ssrc hs).imp (hplaced ·) (.imp_left (himplicit ssrc))
  unpromised hnone := h.unpromised <| by
    cases hi : before.implicitRequest with
    | none => rfl
    | some ssrc => exact absurd (hnone.symm.trans (himplicit ssrc hi)) (by simp)

/-- A step that leaves both talkers where they are. -/
theorem Leads.steady (hsound : after.Sound) (hconfig : after.config = before.config)
    (hroster : after.roster = before.roster) (hholder : after.holder = before.holder)
    (hsecond : after.second = before.second) (hfaithful : before.Faithful after messages)
    (hplaced : ∀ ssrc ∈ after.placed, ssrc ∈ before.placed ∨ asked ssrc)
    (hunpromised : before.implicitRequest = none → after.implicitRequest = none) :
    Leads before asked messages after where
  sound := hsound
  config := hconfig
  roster := hroster
  faithful := hfaithful
  dismissed h hh hnot _ := absurd rfl (hnot h (hholder ▸ hh))
  relieved _ hs hnot _ := absurd (second_mem_talkers (hsecond ▸ hs)) hnot
  granted _ hnew hold := absurd (talkers_eq hholder hsecond ▸ hnew) hold
  placed ssrc hs := (hplaced ssrc hs).imp_right .inr
  unpromised := hunpromised

/-- A step from an unoccupied floor. -/
theorem Leads.fresh (hholder : before.holder = none) (hsecond : before.second = none)
    (hsound : after.Sound) (hconfig : after.config = before.config)
    (hroster : after.roster = before.roster) (hfaithful : before.Faithful after messages)
    (hgranted : ∀ ssrc ∈ after.talkers,
      ∃ message, letterTo ssrc message ∈ messages ∧ message.isGrant = true)
    (hplaced : ∀ ssrc ∈ after.placed, before.implicitRequest = some ssrc ∨ asked ssrc)
    (hunpromised : after.implicitRequest = none) : Leads before asked messages after where
  sound := hsound
  config := hconfig
  roster := hroster
  faithful := hfaithful
  dismissed h hh := by simp [hholder] at hh
  relieved _ hs := by simp [hsecond] at hs
  granted _ hs _ := hgranted _ hs
  placed _ hs := .inr (hplaced _ hs)
  unpromised _ := hunpromised

/-- A step by which the holder gives way to another party, which talks alone. -/
theorem Leads.handover (hsound : after.Sound) (hconfig : after.config = before.config)
    (hroster : after.roster = before.roster) (hholder : before.holder = some h)
    (hsecond : ∀ s ∈ before.second, s = who) (hheld : after.holder = some who)
    (halone : after.second = none) (hne : who.ssrc ≠ h.ssrc)
    (hmessages : messages = lettersTo before.roster h.ssrc (.idle ack) ++ rest)
    (hrest : before.Faithful after rest)
    (hgrant : before.second = some who ∨
      ∃ message, letterTo who.ssrc message ∈ rest ∧ message.isGrant = true)
    (hplaced : after.placed ⊆ before.placed) (hunpromised : after.implicitRequest = none) :
    Leads before asked messages after := by
  have htalkers : after.talkers = [who.ssrc] := by
    simp [talkers, hheld, halone]
  refine ⟨hsound, hconfig, hroster, ?_, ?_, ?_, ?_, fun ssrc hs => .inl (hplaced hs),
    fun _ => hunpromised⟩
  · rw [hmessages, faithful_append]
    refine ⟨faithful_lettersTo hroster ?_, hrest⟩
    intro htalks
    rw [htalkers, List.mem_singleton] at htalks
    exact absurd htalks.symm hne
  · intro former hformer _ hknown
    rw [hholder] at hformer
    cases hformer
    refine ⟨_, rest, ack, hmessages, mem_lettersTo.mpr ⟨hroster ▸ hknown, rfl⟩, ?_⟩
    intro e he
    obtain ⟨_, rfl⟩ := mem_lettersTo.mp he
    rfl
  · intro s hs hnot
    rw [hsecond s hs] at hnot
    exact absurd (holder_mem_talkers hheld) hnot
  · intro ssrc hnew hold
    rw [htalkers, List.mem_singleton] at hnew
    subst hnew
    rcases hgrant with hs | ⟨message, hmem, hg⟩
    · exact absurd (second_mem_talkers hs) hold
    · exact ⟨message, hmessages ▸ List.mem_append_right _ hmem, hg⟩

end Places

variable {t u : Turn Arbitrator} {before : Places} {asked : Ssrc → Prop} {h who : Talker}

theorem leads_of_places_eq (hsound : t.machine.places.Sound)
    (hplaces : u.machine.places = t.machine.places)
    (hfaithful : t.machine.places.Faithful t.machine.places u.out.messages) :
    t.machine.places.Leads asked u.out.messages u.machine.places := by
  rw [hplaces]
  exact .steady hsound rfl rfl rfl rfl hfaithful (fun _ => .inl) id

/-- A party that is to wait gets an answer; if it is turned down, everything stays as it was. -/
theorem queueOrDeny_outcome (who : Talker) (willing : Bool) (t : Turn Arbitrator) :
    ∃ queue message,
      (queueOrDeny who willing t).machine.places = { t.machine.places with queue := queue } ∧
      (queueOrDeny who willing t).out.messages =
        t.out.messages ++ lettersTo t.machine.places.roster who.ssrc message ∧
      (queue = t.machine.places.queue ∨
        queue.waiting.Perm (who.ssrc :: t.machine.places.queue.waiting)) ∧
      ∀ before after : Places, who.ssrc ∉ after.talkers →
        before.Truthful after who.ssrc message := by
  rcases queueOrDeny_cases who willing t with
    ⟨queue, position, priority, hqueue, hplaces, hmessages⟩ | ⟨cause, ack, hplaces, hmessages⟩
  · exact ⟨queue, _, hplaces, hmessages, .inr (FloorQueue.waiting_enqueue hqueue),
      fun _ _ _ => trivial⟩
  · exact ⟨_, _, hplaces, hmessages, .inl rfl, fun _ _ hnot => hnot⟩

/-- A hold that ends. Everybody else in a place may still talk; the holder may have left. -/
structure Ending (before : Places) (h : Talker) : Prop where
  orderly : before.Orderly
  holder : before.holder = some h
  entitled : ∀ ssrc ∈ before.placed, ssrc ≠ h.ssrc → MayTalk before.roster ssrc

namespace Ending

theorem occupied (e : Ending before h) : before.state.occupied = true := by
  rw [← e.orderly.holder_occupied, e.holder]
  rfl

theorem not_idle (e : Ending before h) : before.state ≠ .idle := by
  intro hidle
  have hoccupied := e.occupied
  simp [hidle, ArbitratorState.occupied] at hoccupied

theorem implicit_eq_none (e : Ending before h) : before.implicitRequest = none := by
  apply e.orderly.implicit_eq_none
  intro hstate
  have hoccupied := e.occupied
  simp [hstate, ArbitratorState.occupied] at hoccupied

/-- Whoever else had a place may have any place after the holder. -/
theorem successors (e : Ending before h) {others : List Ssrc}
    (hmoved : (h.ssrc :: others).Subperm before.placed) :
    others.Nodup ∧ h.ssrc ∉ others ∧ others ⊆ before.placed ∧
      ∀ ssrc ∈ others, MayTalk before.roster ssrc := by
  obtain ⟨moved, hperm, hsub⟩ := hmoved
  have hnodup := hperm.nodup (e.orderly.distinct.sublist hsub)
  rw [List.nodup_cons] at hnodup
  have hin : others ⊆ before.placed := fun ssrc hs =>
    hsub.subset (hperm.mem_iff.mpr (List.mem_cons_of_mem _ hs))
  refine ⟨hnodup.2, hnodup.1, hin, fun ssrc hs => e.entitled ssrc (hin hs) ?_⟩
  rintro rfl
  exact hnodup.1 hs

end Ending

/-- The floor goes from its holder to the first of those that wait. -/
private theorem leads_grant_dismiss (queue : FloorQueue) (e : Ending before h)
    (hsecond : before.second = none)
    (hmoved : (h.ssrc :: who.ssrc :: queue.waiting).Subperm before.placed)
    (hplaces : t.machine.places = { before with
      holder := none, second := none, preemptor := none, queue := queue })
    (hout : t.out.messages = []) :
    before.Leads asked (grant who (dismiss (some h) t)).out.messages
        (grant who (dismiss (some h) t)).machine.places ∧
      h.ssrc ∉ (grant who (dismiss (some h) t)).machine.places.placed ∧
      (grant who (dismiss (some h) t)).machine.places.state ≠ .initialising := by
  obtain ⟨hnodup, hgone, hin, htalk⟩ := e.successors hmoved
  have hwho : who.ssrc ∉ queue.waiting := (List.nodup_cons.mp hnodup).1
  have hafter : (grant who (dismiss (some h) t)).machine.places = { before with
      holder := some who, second := none, preemptor := none, queue := queue
      state := .taken } := by
    simp [hplaces, FloorQueue.remove_of_not_mem hwho]
  have hroster : (dismiss (some h) t).machine.places.roster = before.roster := by
    simp [hplaces]
  have hmessages : (grant who (dismiss (some h) t)).out.messages =
      lettersTo before.roster h.ssrc t.machine.idleMessage ++
        (lettersTo before.roster who.ssrc ((dismiss (some h) t).machine.grantedMessage who) ++
          lettersExcept before.roster (some who.ssrc)
            ((dismiss (some h) t).machine.takenMessage who.ssrc)) := by
    rw [messages_grant, messages_dismiss, hroster, hout, hplaces, List.nil_append,
      List.append_assoc]
  rw [hafter, hmessages]
  have hplaced : Places.placed { before with
      holder := some who, second := none, preemptor := none, queue := queue
      state := .taken } = who.ssrc :: queue.waiting := rfl
  refine ⟨?_, by rwa [hplaced], by simp⟩
  refine .handover ?_ rfl rfl e.holder (by simp [hsecond]) rfl rfl ?_ rfl ?_ ?_ ?_
    e.implicit_eq_none
  · exact .of_holder rfl rfl (by simp) (by simp) e.implicit_eq_none (hplaced ▸ hnodup)
      (hplaced ▸ htalk)
  · rintro heq
    simp [heq] at hgone
  · rw [Places.faithful_append]
    refine ⟨Places.faithful_lettersTo rfl ⟨rfl, Places.holder_mem_talkers rfl⟩, ?_⟩
    exact Places.faithful_lettersExcept rfl fun _ _ => trivial
  · refine .inr ⟨_, List.mem_append_left _ (mem_lettersTo.mpr ⟨?_, rfl⟩), rfl⟩
    exact (htalk _ List.mem_cons_self).contains
  · rw [hplaced]
    exact hin

/-- The holder gives way and nobody waits. -/
private theorem leads_becomeIdle {ack : Bool} (e : Ending before h)
    (hsecond : before.second = none) (hpreemptor : before.preemptor = none)
    (hqueue : before.queue.entries = [])
    (hplaces : t.machine.places = { before with holder := none, second := none })
    (hout : t.out.messages = []) :
    before.Leads asked (becomeIdle (broadcast (.idle ack) t)).out.messages
        (becomeIdle (broadcast (.idle ack) t)).machine.places ∧
      h.ssrc ∉ (becomeIdle (broadcast (.idle ack) t)).machine.places.placed ∧
      (becomeIdle (broadcast (.idle ack) t)).machine.places.state ≠ .initialising := by
  have hidle : becomeIdle (broadcast (.idle ack) t) = moveTo .idle (broadcast (.idle ack) t) := by
    apply becomeIdle_of_none
    · rw [machine_broadcast, hplaces]
      exact e.not_idle
    · rw [machine_broadcast, hplaces]
      exact e.implicit_eq_none
  have hafter : (becomeIdle (broadcast (.idle ack) t)).machine.places =
      { before with holder := none, second := none, state := .idle } := by
    rw [hidle, places_moveTo, machine_broadcast, hplaces]
  have hmessages : (becomeIdle (broadcast (.idle ack) t)).out.messages =
      lettersExcept before.roster none (.idle ack) := by
    rw [hidle, messages_moveTo, messages_broadcast, hout, hplaces, List.nil_append]
  rw [hafter, hmessages]
  have hplaced : Places.placed { before with
      holder := none, second := none, state := ArbitratorState.idle } = [] := by
    simp [Places.placed, Places.talkers, hpreemptor, FloorQueue.waiting, hqueue]
  refine ⟨?_, by simp [hplaced], by simp⟩
  refine ⟨?_, rfl, rfl, ?_, ?_, by simp [hsecond], ?_, by simp [hplaced], id⟩
  · exact .of_empty rfl hplaced e.implicit_eq_none
  · refine Places.faithful_lettersExcept rfl fun ssrc _ htalks => ?_
    simp [Places.talkers] at htalks
  · intro former _ _ hknown
    refine ⟨_, [], ack, (List.append_nil _).symm, mem_lettersExcept.mpr ⟨_, hknown, ?_, rfl⟩, ?_⟩
    · simp
    · intro letter hletter
      obtain ⟨_, _, _, rfl⟩ := mem_lettersExcept.mp hletter
      rfl
  · intro ssrc htalks
    simp [Places.talkers] at htalks

/-- The holder gives way to the second talker, and the preemptor to whoever it does not preempt. -/
private theorem leads_promote {second : Talker} (e : Ending before h)
    (hsecond : before.second = some second)
    (hplaces : t.machine.places = { before with holder := none, second := none })
    (hout : t.out.messages = []) :
    before.Leads asked (promote (some h) second t).out.messages
        (promote (some h) second t).machine.places ∧
      h.ssrc ∉ (promote (some h) second t).machine.places.placed ∧
      (promote (some h) second t).machine.places.state ≠ .initialising := by
  obtain ⟨u, hu, hmessages, heq⟩ := promote_eq h second t
  rw [hplaces] at hu
  rw [hplaces, hout, List.nil_append] at hmessages
  -- Whatever comes after the hand-over moves only the preemptor.
  suffices hrest : ∀ (after : Places) (rest : List Envelope), after.config = before.config →
      after.roster = before.roster → after.state.occupied = true → after.holder = some second →
      after.second = none → after.implicitRequest = none →
      (∀ w ∈ after.preemptor, after.state = .pendingRevoke ∧ w.preempts second = true) →
      (h.ssrc :: after.placed).Subperm before.placed → before.Faithful after rest →
      before.Leads asked (u.out.messages ++ rest) after ∧ h.ssrc ∉ after.placed ∧
        after.state ≠ .initialising by
    have himplicit := e.implicit_eq_none
    have hwaiting : before.placed = h.ssrc :: second.ssrc ::
        (before.preemptor.toList.map (·.ssrc) ++ before.queue.waiting) := by
      simp [Places.placed, Places.talkers, e.holder, hsecond]
    rw [heq, hplaces]
    cases hp : before.preemptor with
    | none =>
      have := hrest u.machine.places [] (by rw [hu]) (by rw [hu]) (by rw [hu]; rfl) (by rw [hu])
        (by rw [hu]) (by rw [hu]; exact himplicit) (by simp [hu, hp])
        (by
          rw [hwaiting, hu]
          exact List.Perm.subperm (by simp [Places.placed, Places.talkers]))
        Places.faithful_nil
      rwa [List.append_nil] at this
    | some p =>
      simp only
      split
      · next hpreempts =>
        have hheld : u.machine.places.holder = some second := by rw [hu]
        rw [messages_revokeHolder _ hheld, places_revokeHolder _ hheld, hu]
        exact hrest _ _ rfl rfl rfl rfl rfl himplicit (by simp [hp, hpreempts])
          (by
            rw [hwaiting]
            exact List.Perm.subperm (by simp [Places.placed, Places.talkers]))
          (Places.faithful_lettersTo rfl trivial)
      · obtain ⟨queue, message, hplaces', hmessages', hqueue, htruthful⟩ :=
          queueOrDeny_outcome p true (u.update fun a => { a with preemptor := none })
        have hv : (u.update fun a => { a with preemptor := none }).machine.places =
            { u.machine.places with preemptor := none } := rfl
        rw [hv, hu] at hplaces' hmessages' hqueue
        rw [hplaces', hmessages']
        have hdistinct := e.orderly.distinct
        rw [hwaiting, hp] at hdistinct
        refine hrest _ _ rfl rfl rfl rfl rfl himplicit (by simp) ?_
          (Places.faithful_lettersTo rfl (htruthful _ _ ?_))
        · rw [hwaiting, hp]
          simp only [Places.placed, Places.talkers, Option.toList_some, Option.toList_none,
            List.append_nil, List.map_cons, List.map_nil, List.cons_append, List.nil_append]
          refine (List.subperm_cons _).mpr ((List.subperm_cons _).mpr ?_)
          rcases hqueue with hq | hq
          · rw [hq]
            exact (List.sublist_cons_self _ _).subperm
          · exact hq.subperm
        · simp only [Places.talkers, Option.toList_some, Option.toList_none, List.append_nil,
            List.map_cons, List.map_nil, List.mem_singleton]
          rintro hp'
          simp [hp'] at hdistinct
  intro after rest hconfig hroster hoccupied hheld halone himplicit hpreemptor hmoved hrest
  obtain ⟨hnodup, hgone, hin, htalk⟩ := e.successors hmoved
  refine ⟨?_, hgone, fun hstate => by simp [hstate, ArbitratorState.occupied] at hoccupied⟩
  rw [hmessages, List.append_assoc]
  refine .handover ?_ hconfig hroster e.holder (by simp [hsecond]) hheld halone ?_ rfl ?_
    (.inl hsecond) hin himplicit
  · exact .of_holder hoccupied hheld (by simp [halone]) hpreemptor himplicit hnodup
      (hroster ▸ htalk)
  · intro hsame
    have := Places.talkers_subset_placed (Places.holder_mem_talkers hheld)
    exact hgone (hsame ▸ this)
  · rw [Places.faithful_append]
    exact ⟨Places.faithful_lettersExcept hroster fun _ _ => trivial, hrest⟩

variable (asked) in
/-- The end of a hold: the next talker has the floor, and the former holder has no place. -/
theorem leads_endHolder (e : Ending t.machine.places h) (hout : t.out.messages = []) :
    t.machine.places.Leads asked (endHolder t).out.messages (endHolder t).machine.places ∧
      h.ssrc ∉ (endHolder t).machine.places.placed ∧
      (endHolder t).machine.places.state ≠ .initialising := by
  cases hsecond : t.machine.places.second with
  | some second =>
    rw [endHolder_of_second hsecond, e.holder]
    exact leads_promote e hsecond rfl hout
  | none =>
    have hplaced : t.machine.places.placed = h.ssrc ::
        (t.machine.places.preemptor.toList.map (·.ssrc) ++ t.machine.places.queue.waiting) := by
      simp [Places.placed, Places.talkers, e.holder, hsecond]
    cases hpreemptor : t.machine.places.preemptor with
    | some p =>
      rw [endHolder_of_preemptor hsecond hpreemptor, e.holder]
      refine leads_grant_dismiss _ e hsecond ?_ rfl hout
      rw [hplaced, hpreemptor]
      exact List.Subperm.refl _
    | none =>
      cases hqueue : t.machine.places.queue.entries with
      | nil =>
        rw [endHolder_of_nobody hsecond hpreemptor hqueue]
        exact leads_becomeIdle e hsecond hpreemptor hqueue rfl hout
      | cons entry rest =>
        rw [endHolder_of_queue hsecond hpreemptor hqueue, e.holder]
        refine leads_grant_dismiss { t.machine.places.queue with entries := rest } e hsecond ?_ ?_
          hout
        · rw [hplaced, hpreemptor]
          simp only [FloorQueue.waiting, hqueue, QueueEntry.talker, List.map_cons,
            Option.toList_none, List.map_nil, List.nil_append]
          exact List.Subperm.refl _
        · exact congrArg (fun preemptor => { t.machine.places with
            holder := none, second := none, preemptor := preemptor
            queue := { t.machine.places.queue with entries := rest } }) hpreemptor

end Arbitrator
end FloorControl
