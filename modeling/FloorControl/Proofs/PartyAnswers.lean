import FloorControl.Proofs.ArbitratorOutcome

/-!
# Parties that come and leave

What the arbitrator does when a party comes, is ready, is to have the floor without asking, or
leaves, from sound places. A party that comes or leaves changes the roster first, and the rest of
the step is seen from there.
-/

namespace FloorControl.Arbitrator

variable {t : Turn Arbitrator} {before : Places} {asked : Ssrc → Prop}

/-- The floor goes to a party while nobody has it. -/
theorem leads_grant {who : Talker} (state : ArbitratorState) (hordered : before.Orderly)
    (hvacant : before.state.occupied = false)
    (hplaces : t.machine.places = { before with state := state, implicitRequest := none })
    (hmay : MayTalk before.roster who.ssrc)
    (hasked : before.implicitRequest = some who.ssrc ∨ asked who.ssrc)
    (hout : ∀ after : Places, after.roster = before.roster → after.talkers = [who.ssrc] →
      before.Faithful after t.out.messages) :
    before.Leads asked (grant who t).out.messages (grant who t).machine.places := by
  have hempty := hordered.waiting_eq_nil hvacant
  have hafter : (grant who t).machine.places =
      { before with holder := some who, state := .taken, implicitRequest := none } := by
    have hqueue : before.queue.remove who.ssrc = before.queue :=
      FloorQueue.remove_of_not_mem (by simp [hempty])
    simp [hplaces, hqueue]
  have hsecond := hordered.second_eq_none hvacant
  have hpreemptor : before.preemptor = none := by
    apply hordered.preemptor_eq_none
    intro hstate
    simp [hstate, ArbitratorState.occupied] at hvacant
  have htalkers : Places.talkers { before with
      holder := some who, state := .taken, implicitRequest := none } = [who.ssrc] := by
    simp [Places.talkers, hsecond]
  have hplaced : Places.placed { before with
      holder := some who, state := .taken, implicitRequest := none } = [who.ssrc] := by
    rw [Places.placed, htalkers]
    simp [hpreemptor, hempty]
  have hmessages := messages_grant (t := t) who
  rw [hplaces] at hmessages
  rw [hafter, hmessages]
  refine .fresh (hordered.holder_eq_none hvacant) hsecond ?_ rfl rfl ?_ ?_ ?_ rfl
  · exact .of_holder rfl rfl (by simp [hsecond]) (by simp [hpreemptor]) rfl (by simp [hplaced])
      (by simp [hplaced, hmay])
  · rw [Places.faithful_append, Places.faithful_append]
    refine ⟨⟨hout _ rfl htalkers, Places.faithful_lettersTo rfl ⟨rfl, by simp [htalkers]⟩⟩, ?_⟩
    exact Places.faithful_lettersExcept rfl fun _ _ => trivial
  · intro ssrc hssrc
    rw [htalkers, List.mem_singleton] at hssrc
    subst hssrc
    refine ⟨t.machine.grantedMessage who, ?_, rfl⟩
    apply List.mem_append_left
    apply List.mem_append_right
    exact mem_lettersTo.mpr ⟨hmay.contains, rfl⟩
  · intro ssrc hssrc
    rw [hplaced, List.mem_singleton] at hssrc
    exact hssrc ▸ hasked

variable (asked) in
/-- As soon as everybody is ready the floor is announced as idle, and a party that was promised it
gets it. -/
private theorem leads_checkReady (hsound : t.machine.places.Sound)
    (hstate : t.machine.places.state = .initialising) (hout : t.out.messages = []) :
    t.machine.places.Leads asked (checkReady t).out.messages (checkReady t).machine.places := by
  have hvacant : t.machine.places.state.occupied = false := by rw [hstate]; rfl
  simp only [checkReady]
  split
  swap
  · exact leads_of_places_eq hsound rfl (hout ▸ Places.faithful_nil)
  have hplaces := places_moveTo (t := broadcast t.machine.idleMessage t) .idle
  have hmessages := messages_moveTo (t := broadcast t.machine.idleMessage t) .idle
  rw [messages_broadcast, hout, List.nil_append] at hmessages
  rw [machine_broadcast] at hplaces
  have hnot : (broadcast t.machine.idleMessage t).machine.places.state ≠ .idle := by
    rw [machine_broadcast, hstate]
    simp
  -- Nobody has the floor yet when it is announced.
  have hannounced : ∀ after : Places, after.roster = t.machine.places.roster →
      (∀ ssrc ∈ after.talkers, t.machine.places.implicitRequest = some ssrc) →
      t.machine.places.Faithful after
        (lettersExcept t.machine.places.roster none t.machine.idleMessage) :=
    fun after hroster hpromised =>
      Places.faithful_lettersExcept hroster fun ssrc _ => hpromised ssrc
  have hunplaced := hsound.placed_eq_nil hvacant
  have huntalked := List.subset_nil.mp (hunplaced ▸ Places.talkers_subset_placed)
  have hvacated : ∀ implicit : Option Ssrc, implicit = none →
      t.machine.places.Leads asked
        (lettersExcept t.machine.places.roster none t.machine.idleMessage)
        { t.machine.places with state := .idle, implicitRequest := implicit } := by
    rintro _ rfl
    refine .fresh (hsound.holder_eq_none hvacant) (hsound.second_eq_none hvacant) ?_ rfl rfl ?_ ?_
      ?_ rfl
    · exact .of_empty rfl hunplaced rfl
    · refine hannounced _ rfl fun ssrc hssrc => ?_
      have : ssrc ∈ t.machine.places.talkers := hssrc
      simp [huntalked] at this
    · intro ssrc hssrc
      have : ssrc ∈ t.machine.places.talkers := hssrc
      simp [huntalked] at this
    · intro ssrc hssrc
      have : ssrc ∈ t.machine.places.placed := hssrc
      simp [hunplaced] at this
  cases himplicit : t.machine.places.implicitRequest with
  | none =>
    rw [becomeIdle_of_none hnot (by rw [machine_broadcast, himplicit]), hplaces, hmessages]
    exact hvacated _ himplicit
  | some ssrc =>
    rw [becomeIdle_of_some hnot (by rw [machine_broadcast, himplicit])]
    set u := (moveTo .idle (broadcast t.machine.idleMessage t)).update
      fun a => { a with implicitRequest := none } with hu
    have huplaces : u.machine.places =
        { t.machine.places with state := .idle, implicitRequest := none } :=
      congrArg (fun p : Places => { p with implicitRequest := none }) hplaces
    have humessages : u.out.messages =
        lettersExcept t.machine.places.roster none t.machine.idleMessage := hmessages
    rcases grantImplicit_cases ssrc u with ⟨-, heq⟩ | ⟨who, rfl, hmay, heq⟩
    · rw [heq, huplaces, humessages]
      exact hvacated _ rfl
    · rw [heq]
      refine leads_grant _ hsound.toOrderly hvacant huplaces ?_ (.inl himplicit) ?_
      · rw [huplaces] at hmay
        exact hmay
      · intro after hroster htalkers
        rw [humessages]
        refine hannounced after hroster fun ssrc hssrc => ?_
        rw [htalkers, List.mem_singleton] at hssrc
        rw [himplicit, hssrc]

private theorem sound_of_roster {p : Places} {roster : Roster Proxy} (hsound : p.Sound)
    (hmay : ∀ ssrc ∈ p.placed, MayTalk p.roster ssrc → MayTalk roster ssrc)
    (hcontains : ∀ ssrc ∈ p.implicitRequest, p.roster.contains ssrc = true →
      roster.contains ssrc = true) : Places.Sound { p with roster := roster } where
  toOrderly := { hsound.toOrderly with }
  entitled ssrc hs := hmay ssrc hs (hsound.entitled ssrc hs)
  implicit_known ssrc hs := hcontains ssrc hs (hsound.implicit_known ssrc hs)

/-- A party comes into the call: nobody that was there before loses anything. -/
theorem leads_addParticipant {a b : Arbitrator} {ssrc : Ssrc} {priority : Priority}
    {originator : Bool} (hsound : a.places.Sound)
    (h : addParticipant ssrc priority originator a = .ok b) :
    a.places.roster.contains ssrc = false ∧
      ∃ proxy, b.places = { a.places with roster := a.places.roster.insert ssrc proxy } ∧
        b.places.Sound := by
  obtain ⟨hnew, proxy, rfl⟩ := exists_insert_of_addParticipant h
  refine ⟨hnew, proxy, rfl, sound_of_roster hsound ?_ ?_⟩
  · rintro other _ ⟨proxy, hget, hlisten⟩
    refine ⟨proxy, ?_, hlisten⟩
    change a.roster.get? other = some proxy at hget
    rw [Roster.get?_insert, if_neg, hget]
    rintro rfl
    simp [Roster.contains_eq_isSome_get?, hget] at hnew
  · intro other _ hknown
    rw [Roster.contains_eq_isSome_get?] at hknown ⊢
    rw [Roster.get?_insert]
    split
    · rfl
    · exact hknown

private theorem sound_modify {p : Places} (ssrc : Ssrc) (hsound : p.Sound) :
    Places.Sound { p with
      roster := p.roster.modify ssrc fun proxy => { proxy with ready := true } } := by
  refine sound_of_roster hsound ?_ ?_
  · rintro other _ ⟨proxy, hget, hlisten⟩
    rw [MayTalk, Roster.get?_modify, hget]
    split
    · exact ⟨{ proxy with ready := true }, rfl, hlisten⟩
    · exact ⟨proxy, rfl, hlisten⟩
  · intro other _ hknown
    rwa [Roster.contains_iff_mem, Roster.ssrcs_modify, ← Roster.contains_iff_mem]

variable (asked) in
theorem leads_callInitialized {ssrc : Ssrc} (hsound : t.machine.places.Sound)
    (hout : t.out.messages = []) {u : Turn Arbitrator} (h : callInitialized ssrc t = .ok u) :
    t.machine.places.roster.contains ssrc = true ∧
      Places.Leads { t.machine.places with
          roster := t.machine.places.roster.modify ssrc fun proxy => { proxy with ready := true } }
        asked u.out.messages u.machine.places := by
  simp only [callInitialized] at h
  split at h
  · cases h
  next hknown =>
  have hknown : t.machine.roster.contains ssrc = true := by simpa using hknown
  refine ⟨hknown, ?_⟩
  cases h
  set v := t.update fun a =>
    { a with roster := a.roster.modify ssrc fun proxy => { proxy with ready := true } } with hv
  have hvsound : v.machine.places.Sound := sound_modify ssrc hsound
  have hvout : v.out.messages = [] := hout
  change v.machine.places.Leads asked _ _
  have hvacant : v.machine.places.state.occupied = false → ∀ message,
      v.machine.places.Faithful v.machine.places
        (lettersTo v.machine.places.roster ssrc (.idle message)) := by
    intro hvacant message
    refine Places.faithful_lettersTo rfl fun htalks => ?_
    have := Places.talkers_subset_placed htalks
    simp [hvsound.placed_eq_nil hvacant] at this
  cases hstate : v.machine.places.state with
  | startStop =>
    change v.machine.state = .startStop at hstate
    simp only [hstate]
    have hplaces := places_moveTo (t := v) .initialising
    have hmoved : (moveTo .initialising v).machine.places.Sound := by
      rw [hplaces]
      have hvacant : v.machine.places.state.occupied = false := by
        change v.machine.state.occupied = false
        rw [hstate]
        rfl
      refine .of_empty rfl (hvsound.placed_eq_nil hvacant) (hvsound.implicit_eq_none ?_)
      change v.machine.state ≠ .initialising
      simp [hstate]
    have := leads_checkReady asked hmoved (by rw [hplaces])
      (by rw [messages_moveTo, hvout])
    rw [hplaces] at this
    exact this.of_before rfl rfl rfl (fun _ hs => .inl hs) (fun _ h => h) (fun _ h => h)
      fun _ h => h
  | initialising =>
    have hchecked := leads_checkReady asked hvsound hstate hvout
    change v.machine.state = .initialising at hstate
    simpa only [hstate] using hchecked
  | idle =>
    have hvacant := hvacant (by rw [hstate]; rfl) v.machine.config.ackRequired
    change v.machine.state = .idle at hstate
    simp only [hstate]
    refine leads_of_places_eq hvsound (by rw [machine_sendTo]) ?_
    rw [messages_sendTo, hvout]
    exact hvacant
  | releasing =>
    change v.machine.state = .releasing at hstate
    simp only [hstate]
    exact leads_of_places_eq hvsound rfl (hvout ▸ Places.faithful_nil)
  | taken | pendingRevoke =>
    obtain ⟨holder, hholder⟩ := hvsound.exists_holder (by rw [hstate]; rfl)
    change v.machine.state = _ at hstate
    change v.machine.holder = _ at hholder
    simp only [hstate, hholder]
    refine leads_of_places_eq hvsound (by rw [machine_sendTo]) ?_
    rw [messages_sendTo, hvout]
    exact Places.faithful_lettersTo rfl trivial

theorem sound_implicitFloorRequest {ssrc : Ssrc} (hsound : t.machine.places.Sound)
    (hout : t.out.messages = []) {u : Turn Arbitrator} (h : implicitFloorRequest ssrc t = .ok u) :
    u.machine.places.Sound := by
  simp only [implicitFloorRequest] at h
  split at h
  · cases h
  next hknown =>
  have hknown : t.machine.roster.contains ssrc = true := by simpa using hknown
  cases h
  cases hstate : t.machine.places.state with
  | idle =>
    have hvacant : t.machine.places.state.occupied = false := by rw [hstate]; rfl
    have himplicit := hsound.implicit_eq_none (by simp [hstate])
    change t.machine.state = .idle at hstate
    simp only [hstate]
    rcases grantImplicit_cases ssrc t with ⟨-, heq⟩ | ⟨who, rfl, hmay, heq⟩
    · rw [heq]
      exact hsound
    · rw [heq]
      have hleads : t.machine.places.Leads (· = who.ssrc) _ _ :=
        leads_grant t.machine.places.state hsound.toOrderly hvacant (by rw [← himplicit]) hmay
          (.inr rfl) fun _ _ _ => hout ▸ Places.faithful_nil
      exact hleads.sound
  | initialising =>
    have hplaces : (t.update fun a => { a with implicitRequest := some ssrc }).machine.places =
        { t.machine.places with implicitRequest := some ssrc } := rfl
    have hvacant : t.machine.places.state.occupied = false := by rw [hstate]; rfl
    change t.machine.state = .initialising at hstate
    simp only [hstate]
    rw [hplaces]
    exact { hsound with
      implicit_initialising := fun _ => hstate
      implicit_known := by
        rintro _ ⟨⟩
        exact hknown }
  | startStop | taken | pendingRevoke | releasing =>
    change t.machine.state = _ at hstate
    simpa only [hstate] using hsound

/-- The places after a party has left all of its own but the holder's. -/
def Places.without (ssrc : Ssrc) (p : Places) : Places :=
  { p with
    roster := p.roster.erase ssrc
    queue := p.queue.remove ssrc
    second := if p.second.any (·.ssrc = ssrc) then none else p.second
    preemptor := p.preemptor.filter (·.ssrc ≠ ssrc)
    implicitRequest := p.implicitRequest.filter (· ≠ ssrc) }

private theorem mayTalk_erase {roster : Roster Proxy} {ssrc other : Ssrc} (hne : other ≠ ssrc)
    (h : MayTalk roster other) : MayTalk (roster.erase ssrc) other := by
  obtain ⟨proxy, hget, hlisten⟩ := h
  exact ⟨proxy, by rw [Roster.get?_erase, if_neg hne, hget], hlisten⟩

private theorem second_without_sublist (second : Option Talker) (ssrc : Ssrc) :
    (if second.any (·.ssrc = ssrc) then none else second).toList.Sublist second.toList := by
  split
  · exact List.nil_sublist _
  · exact List.Sublist.refl _

theorem filter_toList_sublist {α : Type} (o : Option α) (f : α → Bool) :
    (o.filter f).toList.Sublist o.toList := by
  cases o with
  | none => exact List.Sublist.refl _
  | some a => cases h : f a <;> simp [Option.filter, h]

private theorem talkers_without_sublist (p : Places) (ssrc : Ssrc) :
    (p.without ssrc).talkers.Sublist p.talkers := by
  refine List.Sublist.map _ (List.Sublist.append (List.Sublist.refl _) ?_)
  exact second_without_sublist p.second ssrc

theorem placed_without_sublist (p : Places) (ssrc : Ssrc) :
    (p.without ssrc).placed.Sublist p.placed := by
  refine List.Sublist.append (List.Sublist.append (talkers_without_sublist p ssrc) ?_) ?_
  · exact (filter_toList_sublist _ _).map _
  · exact List.filter_sublist.map _

/-- Of the places of a party that leaves, only the holder's can be left. -/
theorem not_placed_without {p : Places} {ssrc : Ssrc}
    (h : ∀ h ∈ p.holder, h.ssrc ≠ ssrc) : ssrc ∉ (p.without ssrc).placed := by
  intro hplaced
  simp only [Places.placed, List.mem_append, Places.mem_talkers, List.mem_map,
    Option.mem_toList] at hplaced
  rcases hplaced with ((⟨who, hwho, heq⟩ | ⟨who, hwho, heq⟩) | ⟨who, hwho, heq⟩) | hwaits
  · exact h who hwho heq
  · simp only [Places.without] at hwho
    split at hwho
    · cases hwho
    · next hnot =>
      rw [Option.mem_def] at hwho
      simp [hwho, heq] at hnot
  · simp only [Places.without, Option.filter_eq_some_iff] at hwho
    simp [heq] at hwho
  · simp only [Places.without, FloorQueue.waiting_remove, List.mem_filter] at hwaits
    simp at hwaits

theorem orderly_without {p : Places} (ssrc : Ssrc) (h : p.Orderly) :
    (p.without ssrc).Orderly where
  holder_occupied := h.holder_occupied
  second_holder hs := by
    apply h.second_holder
    simp only [Places.without] at hs
    split at hs
    · cases hs
    · exact hs
  second_supported hs := by
    apply h.second_supported
    simp only [Places.without] at hs
    split at hs
    · cases hs
    · exact hs
  preemptor_pending hw := by
    apply h.preemptor_pending
    obtain ⟨w, hw⟩ := Option.isSome_iff_exists.mp hw
    simp only [Places.without, Option.filter_eq_some_iff] at hw
    simp [hw.1]
  preemptor_preempts w hw := by
    simp only [Places.without, Option.mem_def, Option.filter_eq_some_iff] at hw
    exact h.preemptor_preempts w hw.1
  waiting_occupied hne := by
    apply h.waiting_occupied
    rintro hnil
    simp [Places.without, FloorQueue.waiting_remove, hnil] at hne
  implicit_initialising hs := by
    apply h.implicit_initialising
    obtain ⟨other, hs⟩ := Option.isSome_iff_exists.mp hs
    simp only [Places.without, Option.filter_eq_some_iff] at hs
    simp [hs.1]
  distinct := h.distinct.sublist (placed_without_sublist p ssrc)

def forgotten (ssrc : Ssrc) (t : Turn Arbitrator) : Turn Arbitrator :=
  t.update fun a => forget ssrc { a with roster := a.roster.erase ssrc }

theorem places_forgotten (ssrc : Ssrc) (t : Turn Arbitrator) :
    (forgotten ssrc t).machine.places = t.machine.places.without ssrc := by
  simp only [forgotten, Turn.machine_update, forget, places, Places.without]
  congr 1
  rw [apply_ite DualFloor.talker]
  rfl

def relieved (ssrc : Ssrc) (t : Turn Arbitrator) : Turn Arbitrator :=
  if t.machine.isHolder ssrc && t.machine.occupied then endHolder t else refreshT4 t

theorem contains_of_clientRelease {ssrc : Ssrc} {u : Turn Arbitrator}
    (h : clientRelease ssrc t = .ok u) : t.machine.roster.contains ssrc = true := by
  simp only [clientRelease] at h
  split at h
  · cases h
  · next hknown => simpa using hknown

theorem eq_of_clientRelease {ssrc : Ssrc} {u : Turn Arbitrator} (h : clientRelease ssrc t = .ok u) :
    u = if (relieved ssrc (forgotten ssrc t)).machine.state = .initialising then
      checkReady (relieved ssrc (forgotten ssrc t)) else relieved ssrc (forgotten ssrc t) := by
  simp only [clientRelease] at h
  split at h
  · cases h
  · exact (Except.ok.inj h).symm

variable (asked) in
/-- A party leaves the call, and is in no place any longer. -/
theorem leads_clientRelease {ssrc : Ssrc} (hsound : t.machine.places.Sound)
    (hout : t.out.messages = []) {u : Turn Arbitrator} (h : clientRelease ssrc t = .ok u) :
    t.machine.places.roster.contains ssrc = true ∧
      Places.Leads { t.machine.places with roster := t.machine.places.roster.erase ssrc }
        asked u.out.messages u.machine.places := by
  refine ⟨contains_of_clientRelease h, ?_⟩
  rw [eq_of_clientRelease h]
  have hplaces := places_forgotten ssrc t
  have hvout : (forgotten ssrc t).out.messages = [] := hout
  set v := forgotten ssrc t with hv
  suffices hleads : v.machine.places.Leads asked
      (if (relieved ssrc v).machine.state = .initialising then checkReady (relieved ssrc v)
        else relieved ssrc v).out.messages _ by
    refine hleads.of_before (by rw [hplaces]; rfl) (by rw [hplaces]; rfl) (by rw [hplaces]; rfl)
      ?_ ?_ ?_ ?_
    · intro s hs
      by_cases hleft : s.ssrc = ssrc
      · right
        rw [hplaces, hleft, Roster.contains_eq_isSome_get?]
        simp [Places.without, Roster.get?_erase]
      · left
        change t.machine.places.second = some s at hs
        simp [hplaces, Places.without, hs, hleft]
    · rw [hplaces]
      exact (talkers_without_sublist _ _).subset
    · rw [hplaces]
      exact (placed_without_sublist _ _).subset
    · intro other himplicit
      simp only [hplaces, Places.without, Option.filter_eq_some_iff] at himplicit
      exact himplicit.1
  have horderly : v.machine.places.Orderly := hplaces ▸ orderly_without ssrc hsound.toOrderly
  have hentitled : ∀ other ∈ v.machine.places.placed, other ≠ ssrc →
      MayTalk v.machine.places.roster other := by
    rw [hplaces]
    intro other hother hne
    have := (placed_without_sublist _ _).subset hother
    exact mayTalk_erase hne (hsound.entitled other this)
  by_cases hheld : (v.machine.isHolder ssrc && v.machine.occupied) = true
  · rw [relieved, if_pos hheld]
    simp only [isHolder, Bool.and_eq_true, Option.any_eq_true_iff_get, decide_eq_true_eq] at hheld
    obtain ⟨⟨hsome, hssrc⟩, -⟩ := hheld
    have hending : Ending v.machine.places (v.machine.holder.get hsome) :=
      ⟨horderly, (Option.some_get hsome).symm, hssrc ▸ hentitled⟩
    obtain ⟨hleads, -, hstate⟩ := leads_endHolder asked hending hvout
    change (endHolder v).machine.state ≠ .initialising at hstate
    rw [if_neg hstate]
    exact hleads
  · rw [relieved, if_neg hheld]
    have hother : ∀ h ∈ t.machine.places.holder, h.ssrc ≠ ssrc := by
      rintro who hwho rfl
      have hoccupied : t.machine.places.state.occupied = true := by
        rw [← hsound.holder_occupied, hwho]
        rfl
      apply hheld
      change t.machine.holder = some who at hwho
      change t.machine.state.occupied = true at hoccupied
      simp [hv, forgotten, isHolder, occupied, forget, hwho, hoccupied]
    have hvsound : v.machine.places.Sound := by
      refine { horderly with entitled := ?_, implicit_known := ?_ }
      · intro other hplaced
        refine hentitled other hplaced ?_
        rintro rfl
        rw [hplaces] at hplaced
        exact not_placed_without hother hplaced
      · intro other himplicit
        simp only [hplaces, Places.without, Option.mem_def, Option.filter_eq_some_iff] at himplicit
        have hknown := hsound.implicit_known other himplicit.1
        rw [Roster.contains_eq_isSome_get?] at hknown ⊢
        have hne : other ≠ ssrc := by simpa using himplicit.2
        rw [hplaces]
        simpa [Places.without, Roster.get?_erase, hne] using hknown
    split
    · next hstate =>
      have hchecked := leads_checkReady asked (t := refreshT4 v)
        (by rw [places_refreshT4]; exact hvsound) hstate (by rw [messages_refreshT4, hvout])
      rwa [places_refreshT4] at hchecked
    · refine leads_of_places_eq hvsound places_refreshT4 ?_
      rw [messages_refreshT4, hvout]
      exact Places.faithful_nil

end FloorControl.Arbitrator
