import FloorControl.Proofs.StepDeeds

/-!
# Nobody loses a place silently

A party that has a place keeps one or is told in the same step that it has none any longer, as long
as it is in the call; and a party that waited and has the floor now is granted it.
-/

namespace FloorControl.Arbitrator

namespace Places

variable {p q : Places} {input : Input} {messages : List Envelope} {ssrc : Ssrc}

/-- Whether the message tells a party that the step has taken its place: it is turned down, it is
told to stop, its hold is over, or its own release is answered with the party that has the floor. -/
def Dismisses (p : Places) (input : Input) (q : Places) (ssrc : Ssrc) : Message → Prop
  | .denied named .. | .revoke named .. => named = ssrc
  | .idle _ => ∃ h ∈ p.holder, h.ssrc = ssrc
  | .taken named dual _ =>
    dual = false ∧ (∃ h ∈ q.holder, h.ssrc = named) ∧ input = .receive (.release ssrc)
  | .granted .. | .queuePositionInfo .. | .request .. | .release .. | .queuePositionRequest ..
  | .ack .. => False

/-- A party has a place still, and was granted the floor if it waited for it and has it now. -/
def Keeps (p : Places) (messages : List Envelope) (q : Places) (ssrc : Ssrc) : Prop :=
  ssrc ∈ q.placed ∧ (ssrc ∈ p.awaiting → (∃ h ∈ q.holder, h.ssrc = ssrc) →
    ∃ priority duration ack,
      letterTo ssrc (.granted ssrc priority duration false ack) ∈ messages)

/-- A party has a place still, or is told that it has none. -/
def Accounts (p : Places) (input : Input) (messages : List Envelope) (q : Places) (ssrc : Ssrc) :
    Prop :=
  p.Keeps messages q ssrc ∨ ∃ message, letterTo ssrc message ∈ messages ∧
    p.Dismisses input q ssrc message

theorem Accounts.of_told (message : Message) (htold : letterTo ssrc message ∈ messages)
    (hdismisses : p.Dismisses input q ssrc message) : p.Accounts input messages q ssrc :=
  .inr ⟨message, htold, hdismisses⟩

/-- Where the floor stays with the talkers, nobody that waited can have it. -/
theorem Orderly.keeps (h : p.Orderly) (hholder : ∀ h ∈ q.holder, h.ssrc ∈ p.talkers)
    (hplaced : ssrc ∈ q.placed) : p.Keeps messages q ssrc := by
  refine ⟨hplaced, fun hwaits => ?_⟩
  rintro ⟨who, hwho, rfl⟩
  exact absurd (hholder who hwho) (h.not_talkers_of_awaiting hwaits)

/-- Whoever is to wait does, or is turned down; all others keep their places. -/
theorem Lines.placed_or_denied {who : Talker} (h : p.Lines who messages q)
    (hplaced : ssrc ∈ p.placed ∨ ssrc = who.ssrc) (hknown : p.roster.contains ssrc = true) :
    ssrc ∈ q.placed ∨ ∃ cause ack, letterTo ssrc (.denied ssrc cause ack) ∈ messages := by
  cases h with
  | waits hqueue =>
    left
    have hperm := FloorQueue.waiting_enqueue hqueue
    rw [mem_placed, mem_awaiting, hperm.mem_iff, List.mem_cons]
    rcases hplaced with hplaced | rfl
    · rw [mem_placed, mem_awaiting] at hplaced
      rcases hplaced with htalks | hwaits | hqueued
      · exact .inl htalks
      · exact .inr (.inl hwaits)
      · exact .inr (.inr (.inr hqueued))
    · exact .inr (.inr (.inl rfl))
  | denied cause =>
    rcases hplaced with hplaced | rfl
    · exact .inl hplaced
    · exact .inr ⟨_, _, mem_lettersTo.mpr ⟨hknown, rfl⟩⟩

theorem Judges.placed_or_denied {holder : Talker} (h : p.Judges holder messages q)
    (hplaced : ssrc ∈ p.placed) (hknown : p.roster.contains ssrc = true) :
    ssrc ∈ q.placed ∨ ∃ cause ack, letterTo ssrc (.denied ssrc cause ack) ∈ messages := by
  cases h with
  | nobody _ => exact .inl hplaced
  | again _ _ => exact .inl hplaced
  | yields hpreemptor hlines =>
    refine hlines.placed_or_denied ?_ hknown
    rw [mem_placed, mem_awaiting] at hplaced ⊢
    rcases hplaced with htalks | ⟨w, hw, rfl⟩ | hqueued
    · exact .inl (.inl htalks)
    · rw [hpreemptor] at hw
      cases hw
      exact .inr rfl
    · exact .inl (.inr (.inr hqueued))

end Places

open Places

variable {p q : Places} {input : Input} {messages : List Envelope} {ssrc : Ssrc}

/-- The holder is told that its hold is over, and the rest keep their places or are turned down. -/
private theorem accounts_promoted {holder second : Talker} (horderly : p.Orderly)
    (hholder : p.holder = some holder) (hsecond : p.second = some second)
    (hjudges : (p.promoted second).Judges second messages q) (hplaced : ssrc ∈ p.placed)
    (hknown : p.roster.contains ssrc = true) :
    p.Accounts input (p.promotionLetters holder second ++ messages) q ssrc := by
  by_cases hformer : holder.ssrc = ssrc
  · subst hformer
    refine .of_told (.idle p.config.ackRequired) ?_ ⟨holder, hholder, rfl⟩
    exact List.mem_append_left _ (List.mem_append_left _ (mem_lettersTo.mpr ⟨hknown, rfl⟩))
  have hpromoted : ssrc ∈ (p.promoted second).placed := by
    rw [mem_placed, mem_talkers] at hplaced ⊢
    rcases hplaced with (⟨h, hh, rfl⟩ | ⟨s, hs, rfl⟩) | hwaits
    · rw [hholder] at hh
      cases hh
      exact absurd rfl hformer
    · rw [hsecond] at hs
      exact .inl (.inl ⟨s, hs, rfl⟩)
    · exact .inr hwaits
  rcases hjudges.placed_or_denied hpromoted hknown with hstays | ⟨cause, ack, htold⟩
  · refine .inl (horderly.keeps ?_ hstays)
    obtain ⟨state, queue, preemptor, rfl, -⟩ := hjudges.exists_places
    rintro _ ⟨⟩
    exact second_mem_talkers hsecond
  · exact .of_told _ (List.mem_append_right _ htold) rfl

/-- The holder is told that its hold is over, and whoever is served is granted the floor. -/
private theorem accounts_succeeded {holder who : Talker} {queue : FloorQueue}
    (hholder : p.holder = some holder) (hserves : p.Serves who queue)
    (hplaced : ssrc ∈ p.placed) (hknown : p.roster.contains ssrc = true) :
    p.Accounts input
      (lettersTo p.roster holder.ssrc (.idle p.config.ackRequired) ++ p.grantLetters who)
      { p with holder := some who, preemptor := none, queue := queue, state := .taken } ssrc := by
  by_cases hformer : holder.ssrc = ssrc
  · subst hformer
    refine .of_told (.idle p.config.ackRequired) ?_ ⟨holder, hholder, rfl⟩
    exact List.mem_append_left _ (mem_lettersTo.mpr ⟨hknown, rfl⟩)
  by_cases hserved : who.ssrc = ssrc
  · subst hserved
    refine .inl ⟨mem_placed.mpr (.inl (mem_talkers.mpr (.inl ⟨who, rfl, rfl⟩))), fun _ _ => ?_⟩
    refine ⟨who.priority, p.config.t2, p.config.ackRequired, List.mem_append_right _ ?_⟩
    exact List.mem_append_left _ (mem_lettersTo.mpr ⟨hknown, rfl⟩)
  refine .inl ⟨?_, ?_⟩
  · rw [mem_placed, mem_talkers, mem_awaiting] at hplaced ⊢
    rcases hplaced with (⟨h, hh, rfl⟩ | ⟨s, hs, rfl⟩) | ⟨w, hw, rfl⟩ | hqueued
    · rw [hholder] at hh
      cases hh
      exact absurd rfl hformer
    · exact .inl (.inr ⟨s, hs, rfl⟩)
    · cases hserves with
      | preemptor hpreemptor =>
        rw [hpreemptor] at hw
        cases hw
        exact absurd rfl hserved
      | first hpreemptor _ =>
        rw [hpreemptor] at hw
        cases hw
    · right
      right
      cases hserves with
      | preemptor _ => exact hqueued
      | first _ hentries =>
        rw [FloorQueue.waiting, hentries, List.map_cons, List.mem_cons] at hqueued
        rcases hqueued with rfl | hqueued
        · exact absurd rfl hserved
        · exact hqueued
  · rintro - ⟨_, ⟨⟩, hheld⟩
    exact absurd hheld hserved

/-- When the call is taken down, the talkers are told to stop and all others are turned down. -/
private theorem accounts_closing (hplaced : ssrc ∈ p.placed)
    (hknown : p.roster.contains ssrc = true) :
    p.Accounts input
      ((p.holder.toList ++ p.second.toList).flatMap (fun who =>
          lettersTo p.roster who.ssrc (.revoke who.ssrc .callReleased p.config.ackRequired)) ++
        (p.preemptor.toList.map (·.ssrc) ++ p.queue.waiting).flatMap fun ssrc =>
          lettersTo p.roster ssrc (.denied ssrc .callReleased p.config.ackRequired)) q ssrc := by
  rcases mem_placed.mp hplaced with htalks | hwaits
  · obtain ⟨who, hwho, rfl⟩ := List.mem_map.mp htalks
    refine .of_told (.revoke who.ssrc .callReleased p.config.ackRequired) ?_ rfl
    refine List.mem_append_left _ (List.mem_flatMap.mpr ⟨who, hwho, ?_⟩)
    exact mem_lettersTo.mpr ⟨hknown, rfl⟩
  · refine .of_told (.denied ssrc .callReleased p.config.ackRequired) ?_ rfl
    refine List.mem_append_right _ (List.mem_flatMap.mpr ⟨ssrc, hwaits, ?_⟩)
    exact mem_lettersTo.mpr ⟨hknown, rfl⟩

/-- Whatever the arbitrator does, everybody that had a place is accounted for. -/
theorem Deed.accounts (h : Deed input p messages q) (horderly : p.Orderly)
    (hplaced : ssrc ∈ p.placed) (hknown : q.roster.contains ssrc = true) :
    p.Accounts input messages q ssrc := by
  have hvacant : p.state.occupied = false → p.Accounts input messages q ssrc := by
    intro hstate
    rw [horderly.placed_eq_nil hstate] at hplaced
    cases hplaced
  have hstays : (∀ h ∈ q.holder, h.ssrc ∈ p.talkers) → ssrc ∈ q.placed →
      p.Accounts input messages q ssrc :=
    fun hholder hplaced => .inl (horderly.keeps hholder hplaced)
  have hheld : ∀ h ∈ p.holder, h.ssrc ∈ p.talkers := fun h hh => holder_mem_talkers hh
  have hunseconded : ∀ {second : Talker}, p.second = some second → second.ssrc ≠ ssrc →
      ssrc ∈ ({ p with second := none } : Places).placed := by
    intro second hsecond hother
    rw [mem_placed, mem_talkers] at hplaced ⊢
    rcases hplaced with (hholds | ⟨s, hs, hheard⟩) | hwaits
    · exact .inl (.inl hholds)
    · rw [hsecond] at hs
      cases hs
      exact absurd hheard hother
    · exact .inr hwaits
  have hlined : ∀ {before : Places} {who : Talker}, before.Lines who messages q →
      before.holder = p.holder → before.roster = p.roster →
      (ssrc ∈ before.placed ∨ ssrc = who.ssrc) → p.Accounts input messages q ssrc := by
    intro before who hlines hholder hroster hbefore
    have hlines' := hlines
    obtain ⟨queue, rfl, -⟩ := hlines.exists_queue
    rcases hlines'.placed_or_denied hbefore hknown with hafter | ⟨cause, ack, htold⟩
    · exact hstays (hholder ▸ hheld) hafter
    · exact .of_told _ htold rfl
  cases h with
  | still _ | promised _ | overdue _ _ => exact hstays hheld hplaced
  | gathering hstate => exact hvacant (by rw [hstate]; rfl)
  | opened hstate _ | openedFor hstate _ _ _ => exact hvacant hstate
  | granted hstate _ => exact hvacant (by rw [hstate]; rfl)
  | closed _ hstate => exact hvacant (by rw [hstate]; rfl)
  | seconded _ hsecond _ _ =>
    refine hstays hheld ?_
    rw [mem_placed, mem_talkers] at hplaced ⊢
    rcases hplaced with (hholds | ⟨s, hs, -⟩) | hwaits
    · exact .inl (.inl hholds)
    · rw [hsecond] at hs
      cases hs
    · exact .inr hwaits
  | preempted _ _ hpreemptor _ | parked _ hpreemptor _ =>
    refine hstays hheld ?_
    rw [mem_placed, mem_awaiting] at hplaced ⊢
    rcases hplaced with htalks | ⟨w, hw, -⟩ | hqueued
    · exact .inl htalks
    · rw [hpreemptor] at hw
      cases hw
    · exact .inr (.inr hqueued)
  | displaced _ hpreemptor _ hlines =>
    refine hlined hlines rfl rfl ?_
    rw [mem_placed, mem_awaiting] at hplaced ⊢
    rcases hplaced with htalks | ⟨w, hw, rfl⟩ | hqueued
    · exact .inl (.inl htalks)
    · rw [hpreemptor] at hw
      cases hw
      exact .inr rfl
    · exact .inl (.inr (.inr hqueued))
  | lined _ _ hlines => exact hlined hlines rfl rfl (.inl hplaced)
  | promoted hholder hsecond hjudges =>
    have hroster : p.roster.contains ssrc = true := by
      obtain ⟨state, queue, preemptor, rfl, -⟩ := hjudges.exists_places
      exact hknown
    exact accounts_promoted horderly hholder hsecond hjudges hplaced hroster
  | succeeded hholder _ hserves => exact accounts_succeeded hholder hserves hplaced hknown
  | ended hholder hsecond hpreemptor hentries =>
    rw [mem_placed, mem_talkers, mem_awaiting, hsecond, hpreemptor,
      FloorQueue.waiting_eq_nil.mpr hentries] at hplaced
    have hholds : ∃ h ∈ p.holder, h.ssrc = ssrc := by simpa using hplaced
    refine .of_told (.idle p.config.ackRequired) ?_ hholds
    exact mem_lettersExcept.mpr ⟨ssrc, hknown, by simp, rfl⟩
  | @relieved holder second hinput hholder hsecond =>
    by_cases hleaves : second.ssrc = ssrc
    · subst hleaves
      refine .of_told (.taken holder.ssrc false p.config.ackRequired) ?_
        ⟨rfl, ⟨holder, hholder, rfl⟩, hinput⟩
      exact mem_lettersExcept.mpr ⟨second.ssrc, hknown, by simp, rfl⟩
    · exact hstays hheld (hunseconded hsecond hleaves)
  | @withdrawn other holder hinput hholder _ =>
    by_cases hleaves : other = ssrc
    · subst hleaves
      refine .of_told (.taken holder.ssrc false p.config.ackRequired) ?_
        ⟨rfl, ⟨holder, hholder, rfl⟩, hinput⟩
      exact mem_lettersTo.mpr ⟨hknown, rfl⟩
    · refine hstays hheld ?_
      rw [mem_placed, mem_awaiting] at hplaced ⊢
      rcases hplaced with htalks | ⟨w, hw, rfl⟩ | hqueued
      · exact .inl htalks
      · refine .inr (.inl ⟨w, ?_, rfl⟩)
        exact Option.filter_eq_some_iff.mpr ⟨hw, by simpa using Ne.symm hleaves⟩
      · refine .inr (.inr ?_)
        rw [FloorQueue.waiting_remove, List.mem_filter]
        exact ⟨hqueued, by simpa using Ne.symm hleaves⟩
  | @exhausted second _ _ hsecond =>
    by_cases hleaves : second.ssrc = ssrc
    · subst hleaves
      refine .of_told (.revoke second.ssrc .noResources p.config.ackRequired) ?_ rfl
      exact mem_lettersTo.mpr ⟨hknown, rfl⟩
    · exact hstays hheld (hunseconded hsecond hleaves)
  | closing _ => exact accounts_closing hplaced hknown

/-- A change of the roster takes no place from a party that stays. -/
private theorem accounts_of_adjusts {before : Places} (hadjusts : before.Adjusts input p)
    (hknown : p.roster.contains ssrc = true) (hplaced : ssrc ∈ before.placed)
    (haccounts : ssrc ∈ p.placed → p.Accounts input messages q ssrc) :
    before.Accounts input messages q ssrc := by
  cases hadjusts with
  | came _ _ | readied _ | nobody _ => exact haccounts hplaced
  | @left other _ =>
    have hother : ssrc ≠ other := by
      rintro rfl
      rw [Roster.contains_eq_isSome_get?] at hknown
      simp [Places.without, Roster.get?_erase] at hknown
    have hawaits : ssrc ∈ (before.without other).awaiting ↔ ssrc ∈ before.awaiting := by
      rw [mem_awaiting, mem_awaiting]
      simp only [Places.without, FloorQueue.waiting_remove, List.mem_filter, Option.mem_def,
        Option.filter_eq_some_iff]
      constructor
      · rintro (⟨w, ⟨hw, -⟩, rfl⟩ | ⟨hqueued, -⟩)
        · exact .inl ⟨w, hw, rfl⟩
        · exact .inr hqueued
      · rintro (⟨w, hw, rfl⟩ | hqueued)
        · exact .inl ⟨w, ⟨hw, by simpa using hother⟩, rfl⟩
        · exact .inr ⟨hqueued, by simpa using hother⟩
    have hstays : ssrc ∈ (before.without other).placed := by
      rw [mem_placed, mem_talkers] at hplaced
      rw [mem_placed, mem_talkers, hawaits]
      rcases hplaced with (hholds | ⟨s, hs, rfl⟩) | hwaits
      · exact .inl (.inl hholds)
      · refine .inl (.inr ⟨s, ?_, rfl⟩)
        rw [Option.mem_def] at hs
        simp [Places.without, hs, hother]
      · exact .inr hwaits
    rcases haccounts hstays with ⟨hafter, hgranted⟩ | ⟨message, htold, hdismisses⟩
    · exact .inl ⟨hafter, fun hwaits => hgranted (hawaits.mpr hwaits)⟩
    · refine .inr ⟨message, htold, ?_⟩
      cases message <;> exact hdismisses

/-- However an arbitrator is configured and whatever happened to it: in one more step, everybody
that had a place and is in the call still is accounted for. -/
theorem placed_or_told (callId : CallId) (callType : CallType) (config : ArbitratorConfig)
    (inputs : List Input) (input : Input) {a : Arbitrator} {ssrc : Ssrc}
    (ha : a = (create callId callType config).run inputs) (hplaced : ssrc ∈ a.places.placed)
    (hknown : (a.after input).places.roster.contains ssrc = true) :
    a.places.Accounts input (a.sent input) (a.after input).places ssrc := by
  rcases deed_run callId callType config inputs input ha with
    ⟨hsent, hafter⟩ | ⟨p, hadjusts, horderly, -, hdeed⟩
  · rw [hafter]
    have hsound : a.places.Sound := ha ▸ sound_run callId callType config inputs
    exact .inl (hsound.toOrderly.keeps (fun h hh => holder_mem_talkers hh) hplaced)
  · exact accounts_of_adjusts hadjusts (hdeed.roster_contains hknown) hplaced
      fun hstays => hdeed.accounts horderly hstays hknown

private def contended : List Input :=
  [.add 1 1 true, .add 2 2 false, .add 3 3 false, .initialized 1, .initialized 2, .initialized 3,
    .receive (.request ⟨1, 1, .normal, false, true⟩),
    .receive (.request ⟨2, 2, .imminentPeril, false, true⟩)]

/-- A preemptor that is displaced where nobody may wait is turned down. -/
theorem displaced_told :
    let a := (create 1 .basic { queueingSupported := false }).run contended
    let input := Input.receive (.request ⟨3, 3, .emergency, false, true⟩)
    2 ∈ a.places.placed ∧ 2 ∉ (a.after input).places.placed ∧
      a.places.Accounts input (a.sent input) (a.after input).places 2 :=
  ⟨by decide +kernel, by decide +kernel,
    placed_or_told 1 .basic { queueingSupported := false } contended _ rfl (by decide +kernel)
      (by decide +kernel)⟩

end FloorControl.Arbitrator
