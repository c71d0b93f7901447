import FloorControl.Proofs.Scenes
import FloorControl.Proofs.StepDeeds

/-!
# Word of the floor

The parties of a call learn from the arbitrator who has the floor, if anybody: that is the word of
the floor. This module says what the last word that a party was sent has to do with the places, step
by step. It is the present holder, or the floor is idle, unless the party itself has the floor; or
it is of a second talker, and then the second talker is the same still, or its talk has ended without
a word.
-/

namespace FloorControl

/-- Whether the message says who has the floor, if anybody. -/
def Message.isWord : Message → Bool
  | .taken .. | .idle _ => true
  | _ => false

def SessionEvent.word? (ssrc : Ssrc) : SessionEvent → Option Message
  | .toParticipant receiver message =>
    if receiver = ssrc && message.isWord then some message else none
  | .expiry _ | .toArbitrator _ => none

def lastWord (ssrc : Ssrc) (word : Option Message) (events : List SessionEvent) : Option Message :=
  events.foldl (fun word e => (e.word? ssrc).or word) word

section

variable {x : Ssrc} {word : Option Message} {events : List SessionEvent} {message : Message}

theorem lastWord_append (later : List SessionEvent) :
    lastWord x word (events ++ later) = lastWord x (lastWord x word events) later :=
  List.foldl_append

theorem lastWord_of_silent (h : ∀ e ∈ events, e.word? x = none) :
    lastWord x word events = word := by
  induction events with
  | nil => rfl
  | cons e rest ih =>
    rw [lastWord, List.foldl_cons, h e List.mem_cons_self, Option.none_or]
    exact ih fun e he => h e (List.mem_cons_of_mem _ he)

theorem lastWord_cons (e : SessionEvent) :
    lastWord x word (e :: events) = lastWord x ((e.word? x).or word) events := rfl

/-- A word that is told and that no other follows is the last one. -/
theorem lastWord_of_told (honly : ∀ e ∈ events, ∀ other, e.word? x = some other → other = message)
    (htold : ∃ e ∈ events, e.word? x = some message) : lastWord x word events = some message := by
  induction events generalizing word with
  | nil => simp at htold
  | cons e rest ih =>
    have hrest : ∀ e ∈ rest, ∀ other, e.word? x = some other → other = message :=
      fun e he => honly e (List.mem_cons_of_mem _ he)
    by_cases hlater : ∃ e ∈ rest, e.word? x = some message
    · exact ih hrest hlater
    · have hsilent : ∀ e ∈ rest, e.word? x = none := by
        intro e he
        cases hword : e.word? x with
        | none => rfl
        | some other => exact absurd ⟨e, he, hrest e he other hword ▸ hword⟩ hlater
      obtain ⟨e', he', hword⟩ := htold
      rcases List.mem_cons.mp he' with rfl | he'
      · rw [lastWord_cons, hword, Option.some_or]
        exact lastWord_of_silent hsilent
      · exact absurd ⟨e', he', hword⟩ hlater

/-- The last word is the last of those that were told, if any was. -/
theorem lastWord_cases (x : Ssrc) (events : List SessionEvent) :
    (∀ e ∈ events, e.word? x = none) ∨
      ∃ message, (∃ e ∈ events, e.word? x = some message) ∧
        ∀ word, lastWord x word events = some message := by
  induction events with
  | nil => simp
  | cons e rest ih =>
    rcases ih with hsilent | ⟨message, ⟨e', he', hword⟩, hlast⟩
    · cases hword : e.word? x with
      | none =>
        left
        intro e' he'
        rcases List.mem_cons.mp he' with rfl | he'
        · exact hword
        · exact hsilent e' he'
      | some message =>
        refine .inr ⟨message, ⟨e, List.mem_cons_self, hword⟩, fun word => ?_⟩
        rw [lastWord, List.foldl_cons, hword, Option.some_or]
        exact lastWord_of_silent hsilent
    · exact .inr ⟨message, ⟨e', List.mem_cons_of_mem _ he', hword⟩, fun word => hlast _⟩

end

namespace Arbitrator

variable {x : Ssrc} {word : Option Message} {message : Message}

theorem word?_letterTo (ssrc : Ssrc) (message : Message) :
    (letterTo ssrc message).arrival.word? x =
      if ssrc = x && message.isWord then some message else none := rfl

def Silent (x : Ssrc) (letters : List Envelope) : Prop := ∀ e ∈ letters, e.arrival.word? x = none

theorem Silent.lastWord {letters : List Envelope} (h : Silent x letters) :
    lastWord x word (letters.map (·.arrival)) = word := by
  refine lastWord_of_silent fun e he => ?_
  obtain ⟨letter, hletter, rfl⟩ := List.mem_map.mp he
  exact h letter hletter

theorem silent_append {first later : List Envelope} (hfirst : Silent x first)
    (hlater : Silent x later) : Silent x (first ++ later) := fun e he =>
  (List.mem_append.mp he).elim (hfirst e) (hlater e)

variable {roster : Roster Proxy}

theorem silent_lettersTo {ssrc : Ssrc} (h : ssrc ≠ x ∨ message.isWord = false) :
    Silent x (lettersTo roster ssrc message) := by
  intro e he
  obtain ⟨-, rfl⟩ := mem_lettersTo.mp he
  rw [word?_letterTo, if_neg]
  rcases h with hne | hword
  · simp [hne]
  · simp [hword]

theorem silent_lettersExcept : Silent x (lettersExcept roster (some x) message) := by
  intro e he
  obtain ⟨ssrc, -, hne, rfl⟩ := mem_lettersExcept.mp he
  rw [word?_letterTo, if_neg]
  simpa using fun heq => absurd (congrArg some heq) hne

/-- Word that goes to all parties but others is the last one of everybody it goes to. -/
theorem lastWord_lettersExcept {except : Option Ssrc} (hknown : roster.contains x = true)
    (hother : some x ≠ except) (hword : message.isWord = true) :
    lastWord x word ((lettersExcept roster except message).map (·.arrival)) = some message := by
  apply lastWord_of_told
  · intro e he other htold
    obtain ⟨letter, hletter, rfl⟩ := List.mem_map.mp he
    obtain ⟨ssrc, -, -, rfl⟩ := mem_lettersExcept.mp hletter
    rw [word?_letterTo, Option.ite_none_right_eq_some] at htold
    exact (Option.some.inj htold.2).symm
  · refine ⟨_, List.mem_map.mpr ⟨letterTo x message, ?_, rfl⟩, ?_⟩
    · exact mem_lettersExcept.mpr ⟨x, hknown, hother, rfl⟩
    · simp [word?_letterTo, hword]

theorem lastWord_lettersTo (hknown : roster.contains x = true) (hword : message.isWord = true) :
    lastWord x word ((lettersTo roster x message).map (·.arrival)) = some message := by
  simp [lettersTo, hknown, lastWord, word?_letterTo, hword]

namespace Places

variable {p q : Places}

theorem lastWord_grantLetters (who : Talker) (hknown : p.roster.contains x = true) :
    lastWord x word ((p.grantLetters who).map (·.arrival)) =
      if x = who.ssrc then word else some (.taken who.ssrc false p.config.ackRequired) := by
  rw [grantLetters, List.map_append, lastWord_append, Silent.lastWord (silent_lettersTo (.inr rfl))]
  split
  · next heq =>
    subst heq
    exact Silent.lastWord silent_lettersExcept
  · next hne => exact lastWord_lettersExcept hknown (by simpa using hne) rfl

theorem silent_grantLetters (who : Talker) : Silent who.ssrc (p.grantLetters who) :=
  silent_append (silent_lettersTo (.inr rfl)) silent_lettersExcept

theorem Serves.mem_awaiting {who : Talker} {queue : FloorQueue} (h : p.Serves who queue) :
    who.ssrc ∈ p.awaiting := by
  rw [Places.mem_awaiting]
  cases h with
  | preemptor hpreemptor => exact .inl ⟨who, hpreemptor, rfl⟩
  | @first entry rest _ hentries =>
    right
    rw [FloorQueue.waiting, hentries, List.map_cons]
    exact List.mem_cons_self

def Opened (p : Places) : Prop := p.state = .idle ∨ p.state.occupied = true

/-- What the last word that a party was sent says of the places. The flag tells whether a second
talk has ended without a word. -/
def Fits (p : Places) (hushed : Prop) (x : Ssrc) : Option Message → Prop
  | none => ¬ p.Opened
  | some (.taken named true _) => p.Opened ∧ named ≠ x ∧ (∀ h ∈ p.holder, h.ssrc ≠ named) ∧
      ((∃ s ∈ p.second, s.ssrc = named) ∨ hushed)
  | some (.taken named false _) => p.Opened ∧ ∃ h ∈ p.holder, h.ssrc = named ∨ h.ssrc = x
  | some _ => p.Opened ∧ ∀ h ∈ p.holder, h.ssrc = x

variable {hushed hushed' : Prop}

theorem Orderly.opened_of_holder (h : p.Orderly) {who : Talker} (hholder : p.holder = some who) :
    p.Opened := by
  right
  rw [← h.holder_occupied, hholder]
  rfl

theorem Fits.none_of_not_opened (h : p.Fits hushed x word) (hopened : ¬ p.Opened) :
    word = none := by
  cases word with
  | none => rfl
  | some message =>
    cases message with
    | taken named dual ack => cases dual <;> exact absurd h.1 hopened
    | _ => exact absurd h.1 hopened

/-- As long as the floor stays with its holder, what was said of it stays so. -/
theorem Fits.stays (h : p.Fits hushed x word) (hopened : q.Opened ↔ p.Opened)
    (hholder : q.holder = p.holder) (hsecond : ∀ s ∈ p.second, s ∈ q.second ∨ hushed')
    (hkeeps : hushed → hushed') : q.Fits hushed' x word := by
  cases word with
  | none => exact fun hq => h (hopened.mp hq)
  | some message =>
    cases message with
    | taken named dual ack =>
      cases dual with
      | true =>
        obtain ⟨ho, hother, hheld, htalks⟩ := h
        refine ⟨hopened.mpr ho, hother, hholder ▸ hheld, ?_⟩
        rcases htalks with ⟨s, hs, hsame⟩ | hhushed
        · exact (hsecond s hs).imp (fun hs => ⟨s, hs, hsame⟩) id
        · exact .inr (hkeeps hhushed)
      | false => exact ⟨hopened.mpr h.1, hholder ▸ h.2⟩
    | _ => exact ⟨hopened.mpr h.1, hholder ▸ h.2⟩

/-- A party that gets the floor is not told so by word. -/
theorem Fits.takes {who : Talker} (h : p.Fits hushed who.ssrc word) (hbefore : p.Opened)
    (hafter : q.Opened) (hholder : q.holder = some who)
    (hsecond : ∀ s ∈ p.second, s.ssrc = who.ssrc) (hkeeps : hushed → hushed') :
    q.Fits hushed' who.ssrc word := by
  have hheld : ∀ h ∈ q.holder, h.ssrc = who.ssrc := by
    rintro h hh
    rw [hholder] at hh
    cases hh
    rfl
  cases word with
  | none => exact absurd hbefore h
  | some message =>
    cases message with
    | taken named dual ack =>
      cases dual with
      | true =>
        obtain ⟨-, hother, -, htalks⟩ := h
        refine ⟨hafter, hother, fun h hh => ?_, .inr ?_⟩
        · rw [hheld h hh]
          exact hother.symm
        · rcases htalks with ⟨s, hs, hsame⟩ | hhushed
          · exact absurd (hsame.symm.trans (hsecond s hs)) hother
          · exact hkeeps hhushed
      | false => exact ⟨hafter, who, hholder, .inr rfl⟩
    | _ => exact ⟨hafter, hheld⟩

/-- What is told again of the places as they are fits them. -/
theorem fits_of_notes {letter : Envelope} (horderly : p.Orderly) (hnotes : p.Notes letter)
    (hword : letter.arrival.word? x = some message) : p.Fits hushed x (some message) := by
  obtain ⟨ssrc, _, rfl, -, hattests, hrepeats⟩ := hnotes
  rw [word?_letterTo, Option.ite_none_right_eq_some, Bool.and_eq_true] at hword
  obtain ⟨⟨-, hword⟩, hsame⟩ := hword
  cases hsame
  cases message with
  | taken named dual ack =>
    obtain rfl : dual = false := hrepeats
    obtain ⟨who, hholder, rfl⟩ := hattests
    exact ⟨horderly.opened_of_holder hholder, who, hholder, .inl rfl⟩
  | idle ack =>
    have hstate : p.state = .idle := hrepeats
    have hholder : p.holder = none := horderly.holder_eq_none (by rw [hstate]; rfl)
    exact ⟨.inl hstate, by simp [hholder]⟩
  | _ => cases hword

theorem Lines.silent {who : Talker} {messages : List Envelope} (h : p.Lines who messages q) :
    Silent x messages := by
  cases h with
  | waits _ | denied _ => exact silent_lettersTo (.inr rfl)

theorem Judges.silent {holder : Talker} {messages : List Envelope}
    (h : p.Judges holder messages q) : Silent x messages := by
  cases h with
  | nobody _ => simp [Silent]
  | again _ _ => exact silent_lettersTo (.inr rfl)
  | yields _ hlines => exact hlines.silent

end Places

open Places

variable {p q : Places} {input : Input} {messages : List Envelope} {hushed hushed' : Prop}

/-- Whatever the arbitrator does, the last word that a party was sent fits the places afterwards, if
it did before. A party that is sent a word in this step may have been sent any before. -/
theorem Deed.fits (h : Deed input p messages q) (horderly : p.Orderly)
    (hbegin : input ≠ .beginRelease) (hfinish : input ≠ .finishRelease)
    (hkeeps : hushed → hushed')
    (hsilent : ∀ ticket, input = .expire ticket → p.second.isSome = true → q.second = none →
      q.holder = p.holder → hushed')
    (hknown : p.roster.contains x = true) (hfits : Silent x messages → p.Fits hushed x word) :
    q.Fits hushed' x (lastWord x word (messages.map (·.arrival))) := by
  have hstays : Silent x messages → (q.Opened ↔ p.Opened) → q.holder = p.holder →
      (∀ s ∈ p.second, s ∈ q.second ∨ hushed') →
      q.Fits hushed' x (lastWord x word (messages.map (·.arrival))) := by
    intro hquiet hopened hholder hsecond
    rw [hquiet.lastWord]
    exact (hfits hquiet).stays hopened hholder hsecond hkeeps
  cases h with
  | still hnotes =>
    rcases lastWord_cases x (messages.map (·.arrival)) with hquiet | ⟨message, htold, hlast⟩
    · refine hstays (fun e he => hquiet _ (List.mem_map.mpr ⟨e, he, rfl⟩)) Iff.rfl rfl ?_
      exact fun s hs => .inl hs
    · obtain ⟨_, he, hword⟩ := htold
      obtain ⟨letter, hletter, rfl⟩ := List.mem_map.mp he
      rw [hlast]
      exact fits_of_notes horderly (hnotes letter hletter) hword
  | promised _ => exact hstays (by simp [Silent]) Iff.rfl rfl fun s hs => .inl hs
  | gathering hstate =>
    refine hstays (by simp [Silent]) ?_ rfl fun s hs => .inl hs
    simp [Opened, hstate, ArbitratorState.occupied]
  | opened hvacant _ =>
    rw [lastWord_lettersExcept hknown (by simp) rfl]
    exact ⟨.inl rfl, by simp [horderly.holder_eq_none hvacant]⟩
  | @openedFor who hvacant _ _ _ =>
    rw [List.map_append, lastWord_append, lastWord_lettersExcept hknown (by simp) rfl,
      lastWord_grantLetters who hknown]
    split
    · next heq =>
      refine ⟨.inr rfl, ?_⟩
      rintro _ ⟨⟩
      exact heq.symm
    · exact ⟨.inr rfl, who, rfl, .inl rfl⟩
  | @granted who hstate _ =>
    rw [lastWord_grantLetters who hknown]
    have hsecond : p.second = none := horderly.second_eq_none (by rw [hstate]; rfl)
    split
    · next heq =>
      subst heq
      exact (hfits (silent_grantLetters who)).takes (.inl hstate) (.inr rfl) rfl
        (by simp [hsecond]) hkeeps
    · exact ⟨.inr rfl, who, rfl, .inl rfl⟩
  | @seconded who duration ack hstate hsecond hnew _ =>
    have hopened : p.Opened := .inr (by rw [hstate]; rfl)
    by_cases heq : who.ssrc = x
    · subst heq
      refine hstays ?_ Iff.rfl rfl (by simp [hsecond])
      rintro e (_ | ⟨_, he⟩)
      · simp [word?_letterTo, Message.isWord]
      · exact silent_lettersExcept e he
    · rw [List.map_cons, lastWord_cons,
        lastWord_lettersExcept hknown (by simpa using Ne.symm heq) rfl]
      refine ⟨hopened, heq, fun h hh hsame => hnew ?_, .inl ⟨who, rfl, rfl⟩⟩
      rw [← hsame]
      exact talkers_subset_placed (holder_mem_talkers hh)
  | preempted hstate _ _ _ =>
    refine hstays (silent_lettersTo (.inr rfl)) ?_ rfl fun s hs => .inl hs
    simp [Opened, hstate, ArbitratorState.occupied]
  | parked hstate _ _ => exact hstays (by simp [Silent]) Iff.rfl rfl fun s hs => .inl hs
  | displaced hstate _ _ hlines =>
    have hquiet : Silent x messages := hlines.silent
    obtain ⟨queue, rfl, -⟩ := hlines.exists_queue
    exact hstays hquiet Iff.rfl rfl fun s hs => .inl hs
  | lined _ _ hlines =>
    have hquiet : Silent x messages := hlines.silent
    obtain ⟨queue, rfl, -⟩ := hlines.exists_queue
    exact hstays hquiet Iff.rfl rfl fun s hs => .inl hs
  | overdue hstate _ =>
    refine hstays (silent_lettersTo (.inr rfl)) ?_ rfl fun s hs => .inl hs
    simp [Opened, hstate, ArbitratorState.occupied]
  | @promoted holder second _ _ hholder hsecond hjudges =>
    have hdiffer : holder.ssrc ≠ second.ssrc := horderly.holder_ne_second hholder hsecond
    have hopened := horderly.opened_of_holder hholder
    have hquiet := hjudges.silent (x := x)
    obtain ⟨state, queue, preemptor, rfl, hoccupied, -⟩ := hjudges.exists_places
    have hafter := hoccupied rfl
    rw [List.map_append, lastWord_append, hquiet.lastWord]
    by_cases heq : x = second.ssrc
    · subst heq
      have hletters : Silent second.ssrc (p.promotionLetters holder second) :=
        silent_append (silent_lettersTo (.inl hdiffer)) silent_lettersExcept
      rw [hletters.lastWord]
      refine (hfits (silent_append hletters hquiet)).takes hopened (.inr hafter) rfl ?_ hkeeps
      simp [hsecond]
    · rw [promotionLetters, List.map_append, lastWord_append,
        lastWord_lettersExcept hknown (by simpa using heq) rfl]
      exact ⟨.inr hafter, second, rfl, .inl rfl⟩
  | @succeeded holder who queue hholder hsecond hserves =>
    have hdiffer : holder.ssrc ≠ who.ssrc := fun heq =>
      horderly.not_talkers_of_awaiting hserves.mem_awaiting (heq ▸ holder_mem_talkers hholder)
    rw [List.map_append, lastWord_append, lastWord_grantLetters who hknown]
    split
    · next heq =>
      subst heq
      have hletters : Silent who.ssrc
          (lettersTo p.roster holder.ssrc (.idle p.config.ackRequired)) :=
        silent_lettersTo (.inl hdiffer)
      rw [hletters.lastWord]
      exact (hfits (silent_append hletters (silent_grantLetters who))).takes
        (horderly.opened_of_holder hholder) (.inr rfl) rfl (by simp [hsecond]) hkeeps
    · exact ⟨.inr rfl, who, rfl, .inl rfl⟩
  | ended _ _ _ _ =>
    rw [lastWord_lettersExcept hknown (by simp) rfl]
    exact ⟨.inl rfl, by simp⟩
  | @relieved holder _ _ hholder _ =>
    rw [lastWord_lettersExcept hknown (by simp) rfl]
    exact ⟨horderly.opened_of_holder hholder, holder, hholder, .inl rfl⟩
  | @withdrawn ssrc holder _ hholder _ =>
    by_cases heq : ssrc = x
    · subst heq
      rw [lastWord_lettersTo hknown rfl]
      exact ⟨horderly.opened_of_holder hholder, holder, hholder, .inl rfl⟩
    · exact hstays (silent_lettersTo (.inl heq)) Iff.rfl rfl fun s hs => .inl hs
  | @exhausted second ticket hinput hsecond =>
    refine hstays (silent_lettersTo (.inr rfl)) Iff.rfl rfl fun s _ => .inr ?_
    exact hsilent ticket hinput (by simp [hsecond]) rfl rfl
  | closing hinput => exact absurd hinput hbegin
  | closed hinput _ => exact absurd hinput hfinish

/-- Before the floor is opened nobody is granted anything, and there is no word of it. -/
theorem Deed.unopened (h : Deed input p messages q) (horderly : p.Orderly)
    (hbegin : input ≠ .beginRelease) (hfinish : input ≠ .finishRelease) (hclosed : ¬ q.Opened) :
    ¬ p.Opened ∧ ∀ e ∈ messages, e.message.isWord = false ∧ e.message.isGrant = false := by
  have hheld : ∀ {who : Talker}, p.holder = some who → p.Opened := horderly.opened_of_holder
  have hsecond : ∀ {who : Talker}, p.second = some who → p.Opened := by
    intro who hwho
    obtain ⟨h, hh⟩ := Option.isSome_iff_exists.mp (horderly.second_holder (by simp [hwho]))
    exact hheld hh
  cases h with
  | still hnotes =>
    refine ⟨hclosed, fun e he => ?_⟩
    obtain ⟨ssrc, message, rfl, -, hattests, hrepeats⟩ := hnotes e he
    cases message with
    | granted named priority duration dual ack =>
      obtain ⟨-, who, hwho, -⟩ := hattests
      cases dual with
      | true => exact absurd (hsecond hwho) hclosed
      | false => exact absurd (hheld hwho) hclosed
    | taken named dual ack =>
      obtain rfl : dual = false := hrepeats
      obtain ⟨who, hwho, -⟩ := hattests
      exact absurd (hheld hwho) hclosed
    | idle ack => exact absurd (.inl hrepeats) hclosed
    | _ => exact ⟨rfl, rfl⟩
  | promised _ => exact ⟨hclosed, by simp⟩
  | gathering hstate =>
    refine ⟨?_, by simp⟩
    simp [Opened, hstate, ArbitratorState.occupied]
  | opened _ _ | ended _ _ _ _ => exact absurd (.inl rfl) hclosed
  | openedFor _ _ _ _ | granted _ _ | preempted _ _ _ _ | overdue _ _ | succeeded _ _ _ =>
    exact absurd (.inr rfl) hclosed
  | seconded hstate _ _ _ | parked hstate _ _ =>
    exact absurd (.inr (by simp [hstate, ArbitratorState.occupied])) hclosed
  | displaced hstate _ _ hlines =>
    obtain ⟨queue, rfl, -⟩ := hlines.exists_queue
    exact absurd (.inr (by simp [hstate, ArbitratorState.occupied])) hclosed
  | lined hoccupied _ hlines =>
    obtain ⟨queue, rfl, -⟩ := hlines.exists_queue
    exact absurd (.inr hoccupied) hclosed
  | promoted _ _ hjudges =>
    obtain ⟨state, queue, preemptor, rfl, hoccupied, -⟩ := hjudges.exists_places
    exact absurd (.inr (hoccupied rfl)) hclosed
  | relieved _ hholder _ | withdrawn _ hholder _ => exact absurd (hheld hholder) hclosed
  | exhausted _ htalks => exact absurd (hsecond htalks) hclosed
  | closing hinput => exact absurd hinput hbegin
  | closed hinput _ => exact absurd hinput hfinish

variable {t : Turn Arbitrator}

private theorem exists_word_sendTo {ssrc : Ssrc} (message : Message)
    (hknown : t.machine.places.roster.contains ssrc = true) (hword : message.isWord = true) :
    ∃ told, letterTo ssrc told ∈ (sendTo ssrc message t).out.messages ∧ told.isWord = true := by
  refine ⟨message, ?_, hword⟩
  rw [messages_sendTo]
  exact List.mem_append_right _ (mem_lettersTo.mpr ⟨hknown, rfl⟩)

/-- Once the floor has been opened, a party that gives something back is told how it stands. -/
theorem exists_word_receiveRelease {ssrc : Ssrc} (hsound : t.machine.places.Sound)
    (hout : t.out.messages = []) (hopened : t.machine.places.Opened)
    (hknown : t.machine.places.roster.contains ssrc = true) :
    ∃ message, letterTo ssrc message ∈ (receiveRelease ssrc t).out.messages ∧
      message.isWord = true := by
  obtain ⟨hleads, hgone⟩ := leads_receiveRelease (fun _ => False) ssrc hsound hout
  cases hholder : t.machine.holder with
  | none =>
    have hfree : t.machine.places.state.occupied = false := by
      rw [← hsound.holder_occupied]
      exact congrArg Option.isSome hholder
    have hvacant : t.machine.occupied = false := hfree
    have hidle : t.machine.state = .idle := hopened.resolve_right (by simp [hfree])
    simp only [receiveRelease, hvacant, hidle, Bool.not_false, if_true]
    exact exists_word_sendTo _ hknown rfl
  | some h =>
    have hholder' : t.machine.places.holder = some h := hholder
    have hoccupied : t.machine.occupied = true := by
      have hsome := hsound.holder_occupied
      rw [hholder'] at hsome
      exact hsome.symm
    by_cases hheld : h.ssrc = ssrc
    · subst hheld
      have hgone' : ∀ who ∈ (receiveRelease h.ssrc t).machine.places.holder,
          who.ssrc ≠ h.ssrc := by
        intro who hwho heq
        exact hgone (talkers_subset_placed (mem_talkers.mpr (.inl ⟨who, hwho, heq⟩)))
      obtain ⟨first, later, ack, hmessages, hidle, -⟩ := hleads.dismissed h hholder' hgone'
        (hleads.roster ▸ hknown)
      exact ⟨.idle ack, hmessages ▸ List.mem_append_left _ hidle, rfl⟩
    · have hnot : t.machine.isHolder ssrc = false := by simp [isHolder, hholder, hheld]
      simp only [receiveRelease, hoccupied, hnot, Bool.not_true, Bool.false_eq_true, if_false,
        Turn.machine_update, hholder]
      split
      · refine ⟨t.machine.takenMessage h.ssrc, ?_, rfl⟩
        rw [messages_broadcast]
        exact List.mem_append_right _ (mem_lettersExcept.mpr ⟨ssrc, hknown, by simp, rfl⟩)
      · rw [messages_refreshT4, sendTaken]
        simp only [Turn.machine_update, hholder]
        exact exists_word_sendTo (t := t.update _) _ hknown rfl

/-- A party that is set up after the floor has been opened is told how it stands. -/
theorem exists_word_callInitialized {ssrc : Ssrc} {u : Turn Arbitrator}
    (horderly : t.machine.places.Orderly) (hopened : t.machine.places.Opened)
    (h : callInitialized ssrc t = .ok u) :
    ∃ message, letterTo ssrc message ∈ u.out.messages ∧ message.isWord = true := by
  simp only [callInitialized] at h
  split at h
  · cases h
  next hknown =>
  cases h
  set v := t.update fun a =>
    { a with roster := a.roster.modify ssrc fun proxy => { proxy with ready := true } } with hv
  have hvknown : v.machine.places.roster.contains ssrc = true := by
    change (t.machine.roster.modify ssrc _).contains ssrc = true
    rw [Roster.contains_modify]
    simpa using hknown
  have hvopened : v.machine.places.Opened := hopened
  have hvorderly : v.machine.places.Orderly := { horderly with }
  cases hstate : v.machine.state with
  | startStop | initialising | releasing =>
    rcases hvopened with hidle | hoccupied
    · exact absurd (hstate.symm.trans hidle) (by simp)
    · change v.machine.state.occupied = true at hoccupied
      simp [hstate, ArbitratorState.occupied] at hoccupied
  | idle => exact exists_word_sendTo _ hvknown rfl
  | taken | pendingRevoke =>
    obtain ⟨h, hholder⟩ : ∃ h, v.machine.places.holder = some h :=
      hvorderly.exists_holder (by change v.machine.state.occupied = true; rw [hstate]; rfl)
    change v.machine.holder = some h at hholder
    simp only [hholder]
    exact exists_word_sendTo _ hvknown rfl

end Arbitrator
end FloorControl
