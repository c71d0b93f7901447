import FloorControl.Proofs.CallActs
import FloorControl.Proofs.Foresight

/-!
# What the participants have heard

For every participant of a call the last word of the floor that it has heard is kept, with the
participant as it was then. What the participant knows follows from that word, unless it has taken
the floor since, and the word that it will have heard when the mail has arrived fits the places.
Both are kept by every act. A second talk that ends without a word is told apart.
-/

namespace FloorControl

structure Hearing where
  listener : Participant
  message : Message

namespace Hearing

variable (w : Hearing)

def spokenOver : Bool :=
  w.listener.state = .hasPermission && w.message.tellsSecond w.listener.ssrc

/-- Whether the listener waits for the answer to its request, and does not heed that the floor is
idle. -/
def unheeded : Bool := w.listener.state = .pendingRequest && w.message.isIdle

def talker? : Option Ssrc := if w.unheeded then w.listener.talker else w.message.named?

end Hearing

/-- What a party hears when the event arrives. Before its call is set up it hears nothing. -/
def heardBy (participants : Roster Participant) (event : SessionEvent) (x : Ssrc) :
    Option Hearing :=
  (event.word? x).bind fun message =>
    (participants.get? x).bind fun p => if p.state = .startStop then none else some ⟨p, message⟩

/-- What a participant makes of the last word that it has heard. The flag tells whether more is on
its way. -/
structure Participant.Knows (p : Participant) (heard : Option Hearing) (coming : Prop) : Prop where
  talks : p.state = .hasPermission → p.talker = some p.ssrc
  overridden : p.overridden = true → p.state = .hasPermission ∧ heard.any (·.spokenOver) = true
  spokenOver : heard.any (·.spokenOver) = true → p.overridden = true ∨ coming
  talker : p.talker = some p.ssrc ∧ (p.state = .hasPermission ∨ coming) ∨
    p.talker = heard.bind (·.talker?)

namespace Participant

variable {p q : Participant} {heard : Option Hearing} {coming coming' : Prop} {input : Input}
  {messages : List Envelope}

theorem Knows.mono (h : p.Knows heard coming) (hcoming : coming → coming') :
    p.Knows heard coming' where
  talks := h.talks
  overridden := h.overridden
  spokenOver hover := (h.spokenOver hover).imp_right hcoming
  talker := h.talker.imp_left (.imp_right (.imp_right hcoming))

/-- A participant knows what it knew, as long as it hears nothing. -/
theorem Knows.unheard (h : p.Knows heard coming) (hstep : Unheard p input messages q)
    (hssrc : q.ssrc = p.ssrc) (hcoming : coming → coming')
    (hreleases : letterFrom p.ssrc (.release p.ssrc) ∈ messages → coming') :
    q.Knows heard coming' := by
  cases hstep.minds with
  | stays htalker hoverridden hpermission =>
    refine ⟨fun hq => ?_, fun hq => ?_, fun hover => ?_, ?_⟩
    · rw [htalker, hssrc]
      exact h.talks (hpermission.mp hq)
    · rw [hpermission]
      exact h.overridden (hoverridden ▸ hq)
    · rw [hoverridden]
      exact (h.spokenOver hover).imp_right hcoming
    · rw [htalker, hssrc, hpermission]
      exact h.talker.imp_left (.imp_right (.imp_right hcoming))
  | takes hsilent _ htalker hoverridden hpermission =>
    have hnot : p.overridden ≠ true := fun hover => hsilent (h.overridden hover).1
    refine ⟨fun _ => hssrc ▸ htalker, fun hq => absurd (hoverridden ▸ hq) hnot, fun hover => ?_,
      .inl ⟨hssrc ▸ htalker, .inl hpermission⟩⟩
    exact .inr (hcoming ((h.spokenOver hover).resolve_left hnot))
  | releases htalker hoverridden hpermission hletter =>
    have hnow : coming' := hreleases hletter
    refine ⟨fun hq => absurd hq hpermission, by simp [hoverridden], fun _ => .inr hnow, ?_⟩
    rw [htalker, hssrc]
    exact h.talker.imp_left (.imp_right fun _ => .inr hnow)

/-- A participant that hears word of the floor knows what it was told, if it heeds it. -/
theorem Knows.hears {message : Message} (h : p.Knows heard coming) (hstep : Hears p message q)
    (hssrc : q.ssrc = p.ssrc) : q.Knows (some ⟨p, message⟩) coming' := by
  cases hstep.heeds with
  | own hpermission hnamed hstays htalker hoverridden =>
    have hown : q.talker = some q.ssrc := by rw [htalker, hssrc, h.talks hpermission]
    refine ⟨fun _ => hown, by simp [hoverridden], fun hover => ?_, .inl ⟨hown, .inl hstays⟩⟩
    cases message <;> simp [Message.named?] at hnamed
    simp [Hearing.spokenOver, Message.tellsSecond, hnamed] at hover
  | spokenOver hpermission htold hstays htalker hoverridden =>
    have hown : q.talker = some q.ssrc := by rw [htalker, hssrc, h.talks hpermission]
    have hover : (some (⟨p, message⟩ : Hearing)).any (·.spokenOver) = true := by
      simp [Hearing.spokenOver, hpermission, htold]
    exact ⟨fun _ => hown, fun _ => ⟨hstays, hover⟩, fun _ => .inl hoverridden,
      .inl ⟨hown, .inl hstays⟩⟩
  | follows hsole hheeds hsilent htalker hnot hwas =>
    have hunheeded : Hearing.unheeded ⟨p, message⟩ = false := by
      cases hidle : message.isIdle with
      | false => simp [Hearing.unheeded, hidle]
      | true =>
        have hstate : p.state ≠ .pendingRequest := fun hstate => by simp [hheeds hstate] at hidle
        simp [Hearing.unheeded, hstate]
    refine ⟨fun hq => absurd hq hsilent, fun hq => ?_, fun hover => ?_, .inr ?_⟩
    · exact absurd (h.overridden (hwas hq)).1 (hnot hq)
    · simp only [Option.any_some, Hearing.spokenOver, Bool.and_eq_true, decide_eq_true_eq] at hover
      simp [hsole hover.1] at hover
    · simp [Hearing.talker?, hunheeded, htalker]
  | ignores hstate hidle hstays htalker hoverridden =>
    have hnot : p.overridden ≠ true := fun hover => by simp [(h.overridden hover).1] at hstate
    have hunheeded : Hearing.unheeded ⟨p, message⟩ = true := by
      simp [Hearing.unheeded, hstate, hidle]
    refine ⟨fun hq => ?_, fun hq => absurd (hoverridden ▸ hq) hnot, fun hover => ?_, .inr ?_⟩
    · simp [hstays, hstate] at hq
    · simp [Hearing.spokenOver, hstate] at hover
    · simp [Hearing.talker?, hunheeded, htalker]

end Participant

namespace Scene

open Arbitrator

variable {cue : Option SessionEvent} {s s' : Scene} {rest letters : List SessionEvent} {x : Ssrc}
  {p : Participant} {heard : Ssrc → Option Hearing} {hushed hushed' : Prop}

/-- Whether word to the party is on its way, or what it gives back, which will be answered by
word. -/
def Expects (mail : List SessionEvent) (x : Ssrc) : Prop :=
  .toArbitrator (.release x) ∈ mail ∨ ∃ e ∈ mail, (e.word? x).isSome = true

theorem Expects.append (later : List SessionEvent) (h : Expects rest x) :
    Expects (rest ++ later) x := by
  rcases h with hrelease | ⟨e, he, hword⟩
  · exact .inl (List.mem_append_left _ hrelease)
  · exact .inr ⟨e, List.mem_append_left _ he, hword⟩

theorem mem_arriving {e : SessionEvent} (he : e ∈ arriving cue) : cue = some e := by
  simpa [arriving] using (List.mem_filter.mp he).1

theorem mem_of_arrives {e : SessionEvent} (hmail : s.mail = arriving (some e) ++ rest)
    (hletter : e.isLetter = true) : e ∈ s.mail := by
  rw [hmail]
  exact List.mem_append_left _ (by simp [arriving, hletter])

/-- What is expected is expected still when something has arrived that is none of it. -/
theorem Expects.still (hmail : s.mail = arriving cue ++ rest)
    (hrelease : cue ≠ some (.toArbitrator (.release x)))
    (hword : ∀ e ∈ cue, e.word? x = none) (h : Expects s.mail x) : Expects rest x := by
  rw [hmail] at h
  rcases h with hmem | ⟨e, he, htells⟩
  · rcases List.mem_append.mp hmem with hmem | hmem
    · exact absurd (mem_arriving hmem) hrelease
    · exact .inl hmem
  · rcases List.mem_append.mp he with he | he
    · simp [hword e (mem_arriving he)] at htells
    · exact .inr ⟨e, he, htells⟩

theorem word?_eq_some_iff {e : SessionEvent} {message : Message} :
    e.word? x = some message ↔ e = .toParticipant x message ∧ message.isWord = true := by
  cases e with
  | toParticipant receiver told =>
    simp only [SessionEvent.word?, Option.ite_none_right_eq_some, Bool.and_eq_true,
      decide_eq_true_eq, Option.some.injEq, SessionEvent.toParticipant.injEq]
    constructor
    · rintro ⟨⟨rfl, hword⟩, rfl⟩
      exact ⟨⟨rfl, rfl⟩, hword⟩
    · rintro ⟨⟨rfl, rfl⟩, hword⟩
      exact ⟨⟨rfl, hword⟩, rfl⟩
  | _ => simp [SessionEvent.word?]

theorem word?_of_input?_ne {e : SessionEvent} {ssrc : Ssrc} {input : Participant.Input}
    (h : e.input? ssrc = some input) (hne : x ≠ ssrc) : e.word? x = none := by
  cases e with
  | toParticipant receiver message =>
    simp only [SessionEvent.input?, Option.ite_none_right_eq_some] at h
    simp [SessionEvent.word?, h.1, hne.symm]
  | _ => rfl

theorem word?_of_arbitratorInput? {e : SessionEvent} {input : Arbitrator.Input}
    (h : arbitratorInput? e = some input) : e.word? x = none := by
  cases e with
  | toParticipant receiver message => cases h
  | _ => rfl

def hears (cue : Option SessionEvent) (s : Scene) (heard : Ssrc → Option Hearing) (x : Ssrc) :
    Option Hearing :=
  (cue.bind (heardBy s.participants · x)).or (heard x)

theorem hears_of_no_word (h : ∀ e ∈ cue, e.word? x = none) : hears cue s heard x = heard x := by
  cases cue with
  | none => rfl
  | some e => simp [hears, heardBy, h e rfl]

theorem hears_of_absent (h : ∀ p, s.participants.get? x = some p → p.state = .startStop) :
    hears cue s heard x = heard x := by
  cases cue with
  | none => rfl
  | some e =>
    cases hget : s.participants.get? x with
    | none => simp [hears, heardBy, hget]
    | some p => simp [hears, heardBy, hget, h p hget]

theorem hears_of_told {message : Message} (hget : s.participants.get? x = some p)
    (hstarted : p.state ≠ .startStop) (hword : message.isWord = true) :
    hears (some (.toParticipant x message)) s heard x = some ⟨p, message⟩ := by
  simp [hears, heardBy, SessionEvent.word?, hword, hget, hstarted]

/-- The last word that a party will have heard when the mail has arrived. -/
def lastTold (s : Scene) (heard : Ssrc → Option Hearing) (x : Ssrc) : Option Message :=
  lastWord x ((heard x).map (·.message)) s.mail

theorem lastWord_arriving {word : Option Message} :
    lastWord x word (arriving cue) = (cue.bind (·.word? x)).or word := by
  cases cue with
  | none => rfl
  | some e => cases e <;> rfl

/-- What arrives has been heard by everybody it is meant for. -/
theorem lastTold_rest (hmail : s.mail = arriving cue ++ rest)
    (hget : s.participants.get? x = some p) (hstarted : p.state ≠ .startStop) :
    lastWord x ((hears cue s heard x).map (·.message)) rest = s.lastTold heard x := by
  rw [lastTold, hmail, lastWord_append, lastWord_arriving]
  congr 1
  cases cue with
  | none => rfl
  | some e =>
    simp only [hears, heardBy, Option.bind_some, hget, hstarted, if_false]
    cases e.word? x <;> rfl

/-- What the participants know of the floor and what they have heard of it. -/
structure Informed (hushed : Prop) (heard : Ssrc → Option Hearing) (s : Scene) : Prop where
  roomy : s.places.queue.Roomy
  fits : ∀ x p, s.participants.get? x = some p → p.state ≠ .startStop →
    s.places.Fits hushed x (s.lastTold heard x)
  knows : ∀ x p, s.participants.get? x = some p → p.state ≠ .startStop →
    p.Knows (heard x) (Expects s.mail x)
  fresh : ∀ x p, s.participants.get? x = some p → p.state = .startStop →
    p.talker = none ∧ p.overridden = false ∧ heard x = none
  absent : ∀ x, s.participants.get? x = none → x ∉ s.departed → heard x = none
  quiet : ¬ s.places.Opened → ∀ e ∈ s.mail, ∀ x,
    e.word? x = none ∧ e.tells x Message.isGrant = false
  unclaimed : ¬ s.places.Opened → ∀ x p, s.participants.get? x = some p →
    p.grantPending = false ∧ p.state ≠ .hasPermission ∧ p.talker = none

theorem Informed.mono (h : s.Informed hushed heard) (hkeeps : hushed → hushed') :
    s.Informed hushed' heard :=
  { h with
    fits := fun x p hget hstarted =>
      (h.fits x p hget hstarted).stays Iff.rfl rfl (fun _ => .inl) hkeeps }

theorem ongoing_of_brings {ssrc : Ssrc} {input : Participant.Input} (h : Brings cue ssrc input) :
    input ≠ .beginRelease := by
  cases cue with
  | none => exact h.1
  | some e =>
    rintro rfl
    cases e <;> simp [Brings, SessionEvent.input?] at h

private structure Turned (heard : Ssrc → Option Hearing) (s : Scene) (x : Ssrc)
    (p q : Participant) : Prop where
  started : q.state = .startStop ↔ p.state = .startStop
  knows : p.state ≠ .startStop → q.Knows (heard x) (Expects s.mail x)
  fresh : p.state = .startStop → q.talker = none ∧ q.overridden = false ∧ heard x = none
  unclaimed : ¬ s.places.Opened →
    q.grantPending = false ∧ q.state ≠ .hasPermission ∧ q.talker = none

private theorem turned_of_unheard {ssrc : Ssrc} {input : Participant.Input}
    (horderly : s.Orderly) (hinf : s.Informed hushed heard) (hmail : s.mail = arriving cue ++ rest)
    (hbrings : Brings cue ssrc input) (hsetUp : input ≠ .initialized)
    (hget : s.participants.get? ssrc = some p)
    (hword : ∀ message, cue = some (.toParticipant ssrc message) → message.isWord = true →
      p.state = .startStop) :
    Turned (hears cue s heard)
      { s with mail := rest ++ (p.handle input).out.messages.map (·.arrival) } ssrc p
      (p.handle input).machine := by
  have hongoing := ongoing_of_brings hbrings
  have hssrc : p.ssrc = ssrc := horderly.named _ _ hget
  have hpending := horderly.pending _ _ hget
  have hconduct := Participant.conduct_handle input hongoing hpending
  have hquiet : input.isWord = false ∨ p.state = .startStop := by
    cases input with
    | receive message =>
      cases hw : message.isWord with
      | false => exact .inl hw
      | true => exact .inr (hword message (cue_of_receive hbrings) hw)
    | _ => exact .inl rfl
  have hstep := Participant.unheard_handle hquiet hsetUp hongoing hpending
  refine ⟨hstep.started, fun hstarted => ?_, fun hfresh => ?_, fun hclosed => ?_⟩
  · have hnone : ∀ e ∈ cue, e.word? ssrc = none := by
      rintro e rfl
      cases hw : e.word? ssrc with
      | none => rfl
      | some message =>
        obtain ⟨rfl, hisWord⟩ := word?_eq_some_iff.mp hw
        exact absurd (hword message rfl hisWord) hstarted
    rw [hears_of_no_word hnone]
    refine (hinf.knows _ _ hget hstarted).unheard hstep hconduct.ssrc (fun hcoming => ?_)
      fun hletter => .inl ?_
    · refine (hcoming.still hmail ?_ hnone).append _
      rintro rfl
      simp [Brings, SessionEvent.input?] at hbrings
    · rw [hssrc] at hletter
      exact List.mem_append_right _ (List.mem_map.mpr ⟨_, hletter, rfl⟩)
  · obtain ⟨htalker, hoverridden, hheard⟩ := hinf.fresh _ _ hget hfresh
    have hfresh' := hstep.started.mpr hfresh
    rw [hears_of_absent fun p' hp' => by rw [hget] at hp'; cases hp'; exact hfresh, hheard]
    cases hstep.minds with
    | stays htalker' hoverridden' _ => exact ⟨htalker' ▸ htalker, hoverridden' ▸ hoverridden, rfl⟩
    | takes _ _ _ _ hpermission => simp [hpermission] at hfresh'
    | releases htalker' hoverridden' _ _ => exact ⟨htalker' ▸ htalker, hoverridden', rfl⟩
  · obtain ⟨hgrant, hsilent, htalker⟩ := hinf.unclaimed hclosed _ _ hget
    have hungranted : ¬ (p.grantPending = true ∨ input.grants = true) := by
      rintro (hpending | hgrants)
      · simp [hgrant] at hpending
      · obtain ⟨message, rfl, htold⟩ := cue_of_grants hbrings hgrants
        have hmem : .toParticipant ssrc message ∈ s.mail := mem_of_arrives hmail rfl
        have hnot := (hinf.quiet hclosed _ hmem ssrc).2
        simp [SessionEvent.tells, htold] at hnot
    have hgrant' : (p.handle input).machine.grantPending = false := by
      by_contra hpending
      exact hungranted (hstep.pending (by simpa using hpending))
    cases hstep.minds with
    | stays htalker' _ hpermission =>
      exact ⟨hgrant', hpermission.not.mpr hsilent, htalker' ▸ htalker⟩
    | takes _ hgranted _ _ _ => exact absurd hgranted hungranted
    | releases htalker' _ hpermission _ => exact ⟨hgrant', hpermission, htalker' ▸ htalker⟩

private theorem turned_of_hears {ssrc : Ssrc} {message : Message} (horderly : s.Orderly)
    (hinf : s.Informed hushed heard)
    (hmail : s.mail = arriving (some (.toParticipant ssrc message)) ++ rest)
    (hget : s.participants.get? ssrc = some p) (hstarted : p.state ≠ .startStop)
    (hword : message.isWord = true) (mail : List SessionEvent) :
    Turned (hears (some (.toParticipant ssrc message)) s heard) { s with mail := mail } ssrc p
      (p.handle (.receive message)).machine := by
  have hpending := horderly.pending _ _ hget
  have hconduct := Participant.conduct_handle (.receive message) (by simp) hpending
  have hstep := Participant.hears_handle hword hstarted
  refine ⟨iff_of_false hstep.started hstarted, fun _ => ?_, fun hfresh => absurd hfresh hstarted,
    fun hclosed => ?_⟩
  · rw [hears_of_told hget hstarted hword]
    exact (hinf.knows _ _ hget hstarted).hears hstep hconduct.ssrc
  · have hnone := (hinf.quiet hclosed _ (mem_of_arrives hmail rfl) ssrc).1
    rw [word?_eq_some_iff.mpr ⟨rfl, hword⟩] at hnone
    cases hnone

private theorem turned_handle {ssrc : Ssrc} {input : Participant.Input} (horderly : s.Orderly)
    (hinf : s.Informed hushed heard) (hmail : s.mail = arriving cue ++ rest)
    (hbrings : Brings cue ssrc input) (hsetUp : input ≠ .initialized)
    (hget : s.participants.get? ssrc = some p) :
    Turned (hears cue s heard)
      { s with mail := rest ++ (p.handle input).out.messages.map (·.arrival) } ssrc p
      (p.handle input).machine := by
  by_cases hhears : ∃ message, cue = some (.toParticipant ssrc message) ∧ message.isWord = true ∧
      p.state ≠ .startStop
  · obtain ⟨message, rfl, hword, hstarted⟩ := hhears
    obtain rfl : input = .receive message := by
      simpa [Brings, SessionEvent.input?] using hbrings.symm
    exact turned_of_hears horderly hinf hmail hget hstarted hword _
  · refine turned_of_unheard horderly hinf hmail hbrings hsetUp hget fun message hcue hword => ?_
    by_contra hstarted
    exact hhears ⟨message, hcue, hword, hstarted⟩

/-- When a participant takes its turn, the others hear nothing. -/
theorem informed_participant {ssrc : Ssrc} {input : Participant.Input} (horderly : s.Orderly)
    (hinf : s.Informed hushed heard) (hkeeps : hushed → hushed')
    (hmail : s.mail = arriving cue ++ rest) (hbrings : Brings cue ssrc input)
    (hsetUp : input ≠ .initialized) (hget : s.participants.get? ssrc = some p) :
    Informed hushed' (hears cue s heard) { s with
      participants := s.participants.modify ssrc fun _ => (p.handle input).machine
      mail := rest ++ (p.handle input).out.messages.map (·.arrival) } := by
  have hongoing := ongoing_of_brings hbrings
  have hconduct := Participant.conduct_handle input hongoing (horderly.pending _ _ hget)
  have hturned := turned_handle horderly hinf hmail hbrings hsetUp hget
  have hletters : ∀ e ∈ (p.handle input).out.messages.map (·.arrival), ∀ x,
      e.word? x = none ∧ e.tells x Message.isGrant = false := by
    intro e he x
    obtain ⟨letter, hletter, rfl⟩ := List.mem_map.mp he
    obtain ⟨m, rfl, -⟩ := hconduct.letters letter hletter
    exact ⟨rfl, rfl⟩
  have hothers : ∀ x, x ≠ ssrc → ∀ e ∈ cue, e.word? x = none := by
    rintro x hne e rfl
    exact word?_of_input?_ne hbrings hne
  have hexpects : ∀ x, x ≠ ssrc → Expects s.mail x →
      Expects (rest ++ (p.handle input).out.messages.map (·.arrival)) x := by
    intro x hne hcoming
    refine (hcoming.still hmail ?_ (hothers x hne)).append _
    rintro rfl
    simp [Brings, SessionEvent.input?] at hbrings
  -- Whoever has started after the turn had started before it.
  have hbefore : ∀ x q, (s.participants.modify ssrc fun _ => (p.handle input).machine).get? x =
      some q → x = ssrc ∧ q = (p.handle input).machine ∨
        x ≠ ssrc ∧ s.participants.get? x = some q := by
    intro x q hq
    rw [Roster.get?_modify] at hq
    split at hq
    · next heq =>
      subst heq
      rw [hget] at hq
      cases hq
      exact .inl ⟨rfl, rfl⟩
    · next hne => exact .inr ⟨hne, hq⟩
  have htold : ∀ x p', s.participants.get? x = some p' → p'.state ≠ .startStop →
      lastWord x ((hears cue s heard x).map (·.message))
        (rest ++ (p.handle input).out.messages.map (·.arrival)) = s.lastTold heard x := by
    intro x p' hp' hstarted
    rw [lastWord_append, lastWord_of_silent fun e he => (hletters e he x).1,
      lastTold_rest hmail hp' hstarted]
  have hfits : ∀ x p', s.participants.get? x = some p' → p'.state ≠ .startStop →
      s.places.Fits hushed' x (s.lastTold heard x) := fun x p' hp' hstarted =>
    (hinf.fits x p' hp' hstarted).stays Iff.rfl rfl (fun _ => .inl) hkeeps
  refine ⟨hinf.roomy, ?_, ?_, ?_, ?_, ?_, ?_⟩
  · intro x q hq hstarted
    change s.places.Fits hushed' x (lastWord x _ _)
    rcases hbefore x q hq with ⟨rfl, rfl⟩ | ⟨hne, hq⟩
    · rw [htold x p hget (hturned.started.not.mp hstarted)]
      exact hfits x p hget (hturned.started.not.mp hstarted)
    · rw [htold x q hq hstarted]
      exact hfits x q hq hstarted
  · intro x q hq hstarted
    rcases hbefore x q hq with ⟨rfl, rfl⟩ | ⟨hne, hq⟩
    · exact hturned.knows (hturned.started.not.mp hstarted)
    · rw [hears_of_no_word (hothers x hne)]
      exact (hinf.knows x q hq hstarted).mono (hexpects x hne)
  · intro x q hq hfresh
    rcases hbefore x q hq with ⟨rfl, rfl⟩ | ⟨hne, hq⟩
    · exact hturned.fresh (hturned.started.mp hfresh)
    · rw [hears_of_no_word (hothers x hne)]
      exact hinf.fresh x q hq hfresh
  · intro x hnone hstranger
    have hne : x ≠ ssrc := by
      rintro rfl
      simp [Roster.get?_modify, hget] at hnone
    rw [Roster.get?_modify, if_neg hne] at hnone
    rw [hears_of_no_word (hothers x hne)]
    exact hinf.absent x hnone hstranger
  · intro hclosed e he x
    rcases List.mem_append.mp he with he | he
    · exact hinf.quiet hclosed e (mem_of_mem_rest hmail he) x
    · exact hletters e he x
  · intro hclosed x q hq
    rcases hbefore x q hq with ⟨rfl, rfl⟩ | ⟨hne, hq⟩
    · exact hturned.unclaimed hclosed
    · exact hinf.unclaimed hclosed x q hq

/-- What the participants know in the middle of an act, before the given letters are sent. Whoever
is sent word by them may not know yet what it should. -/
private structure Prepared (hushed : Prop) (heard : Ssrc → Option Hearing) (s : Scene)
    (messages : List Envelope) : Prop where
  roomy : s.places.queue.Roomy
  fits : ∀ x p, s.participants.get? x = some p → p.state ≠ .startStop → Silent x messages →
    s.places.Fits hushed x (s.lastTold heard x)
  knows : ∀ x p, s.participants.get? x = some p → p.state ≠ .startStop →
    p.Knows (heard x) (Expects (s.mail ++ messages.map (·.arrival)) x)
  fresh : ∀ x p, s.participants.get? x = some p → p.state = .startStop →
    p.talker = none ∧ p.overridden = false ∧ heard x = none
  absent : ∀ x, s.participants.get? x = none → x ∉ s.departed → heard x = none
  quiet : ¬ s.places.Opened → ∀ e ∈ s.mail, ∀ x,
    e.word? x = none ∧ e.tells x Message.isGrant = false
  unclaimed : ¬ s.places.Opened → ∀ x p, s.participants.get? x = some p →
    p.grantPending = false ∧ p.state ≠ .hasPermission ∧ p.talker = none

private theorem quiet_arrival {e : Envelope} (hword : e.message.isWord = false)
    (hgrant : e.message.isGrant = false) :
    e.arrival.word? x = none ∧ e.arrival.tells x Message.isGrant = false := by
  obtain ⟨sender, receiver, message⟩ := e
  cases receiver with
  | arbitrator => exact ⟨rfl, rfl⟩
  | participant ssrc =>
    simp only at hword hgrant
    simp [Envelope.arrival, SessionEvent.word?, SessionEvent.tells, hword, hgrant]

/-- The deed of the arbitrator completes the act. -/
private theorem Prepared.informed {input : Arbitrator.Input} {after : Places}
    {messages : List Envelope} (h : Prepared hushed heard s messages)
    (hdeed : Deed input s.places messages after) (horderly : s.places.Orderly)
    (hknown : ∀ x, s.places.roster.contains x = s.participants.contains x)
    (hbegin : input ≠ .beginRelease) (hfinish : input ≠ .finishRelease)
    (hsilent : ∀ ticket, input = .expire ticket → s.places.second.isSome = true →
      after.second = none → after.holder = s.places.holder → hushed) :
    Informed hushed heard { s with
      places := after, mail := s.mail ++ messages.map (·.arrival) } where
  roomy := hdeed.queue_roomy h.roomy
  fits x p hget hstarted := by
    change after.Fits hushed x (lastWord x _ _)
    rw [lastWord_append]
    exact hdeed.fits horderly hbegin hfinish id hsilent
      ((hknown x).trans (Roster.contains_of_get? hget)) (h.fits x p hget hstarted)
  knows := h.knows
  fresh := h.fresh
  absent := h.absent
  quiet hclosed e he x := by
    obtain ⟨hbefore, hletters⟩ := hdeed.unopened horderly hbegin hfinish hclosed
    rcases List.mem_append.mp he with he | he
    · exact h.quiet hbefore e he x
    · obtain ⟨letter, hletter, rfl⟩ := List.mem_map.mp he
      obtain ⟨hword, hgrant⟩ := hletters letter hletter
      exact quiet_arrival hword hgrant
  unclaimed hclosed :=
    h.unclaimed (hdeed.unopened horderly hbegin hfinish hclosed).1

theorem Informed.lastTold_eq_none (hinf : s.Informed hushed heard) (hclosed : ¬ s.places.Opened)
    (hget : s.participants.get? x = some p) (hstarted : p.state ≠ .startStop) :
    s.lastTold heard x = none :=
  (hinf.fits x p hget hstarted).none_of_not_opened hclosed

/-- Before the floor is opened there is nothing to know. -/
theorem Informed.knows_of_not_opened (hinf : s.Informed hushed heard) (hclosed : ¬ s.places.Opened)
    (hget : s.participants.get? x = some p) (hstarted : p.state ≠ .startStop) (coming : Prop) :
    p.Knows (heard x) coming := by
  have hnone : heard x = none := by
    have htold := hinf.lastTold_eq_none hclosed hget hstarted
    rw [lastTold, lastWord_of_silent fun e he => (hinf.quiet hclosed e he x).1] at htold
    exact Option.map_eq_none_iff.mp htold
  obtain ⟨-, hsilent, htalker⟩ := hinf.unclaimed hclosed x p hget
  have hknows := hinf.knows x p hget hstarted
  rw [hnone] at hknows ⊢
  exact ⟨hknows.talks, hknows.overridden, by simp, .inr htalker⟩

theorem expects_of_letter {messages : List Envelope} {message : Message}
    (hletter : letterTo x message ∈ messages) (hword : message.isWord = true) :
    Expects (rest ++ messages.map (·.arrival)) x := by
  refine .inr ⟨_, List.mem_append_right _ (List.mem_map.mpr ⟨_, hletter, rfl⟩), ?_⟩
  simp [word?_letterTo, hword]

theorem informed_arbitrator {event : SessionEvent} {input : Arbitrator.Input} {after : Places}
    {messages : List Envelope} (horderly : s.Orderly) (hinf : s.Informed hushed heard)
    (hkeeps : hushed → hushed') (hmail : s.mail = arriving (some event) ++ rest)
    (hinput : arbitratorInput? event = some input) (hdeed : Deed input s.places messages after)
    (hanswers : ∀ ssrc, event = .toArbitrator (.release ssrc) → s.places.Opened →
      s.places.roster.contains ssrc = true →
      ∃ message, letterTo ssrc message ∈ messages ∧ message.isWord = true)
    (hsilent : ∀ ticket, event = .expiry ticket → s.places.second.isSome = true →
      after.second = none → after.holder = s.places.holder → hushed') :
    Informed hushed' (hears (some event) s heard) { s with
      places := after, mail := rest ++ messages.map (·.arrival) } := by
  have hnone : ∀ x, ∀ e ∈ some event, e.word? x = none := by
    rintro x _ ⟨⟩
    exact word?_of_arbitratorInput? hinput
  have hheard : hears (some event) s heard = heard :=
    funext fun x => hears_of_no_word (hnone x)
  have hprepared : Prepared hushed' heard { s with mail := rest } messages := by
    refine ⟨hinf.roomy, fun x p hget hstarted _ => ?_, fun x p hget hstarted => ?_, hinf.fresh,
      hinf.absent, fun hclosed e he => hinf.quiet hclosed e (mem_of_mem_rest hmail he),
      hinf.unclaimed⟩
    · have htold : lastWord x ((hears (some event) s heard x).map (·.message)) rest =
          s.lastTold heard x := lastTold_rest hmail hget hstarted
      rw [hheard] at htold
      change s.places.Fits hushed' x (lastWord x _ rest)
      rw [htold]
      exact (hinf.fits x p hget hstarted).stays Iff.rfl rfl (fun _ => .inl) hkeeps
    · by_cases hrelease : event = .toArbitrator (.release x)
      · by_cases hopened : s.places.Opened
        · obtain ⟨message, hletter, hword⟩ := hanswers x hrelease hopened
            ((horderly.known x).trans (Roster.contains_of_get? hget))
          exact (hinf.knows x p hget hstarted).mono fun _ => expects_of_letter hletter hword
        · exact hinf.knows_of_not_opened hopened hget hstarted _
      · refine (hinf.knows x p hget hstarted).mono fun hcoming => ?_
        exact (hcoming.still hmail (by simpa using hrelease) (hnone x)).append _
  have hinputs : input ≠ .beginRelease ∧ input ≠ .finishRelease ∧
      ∀ ticket, input = .expire ticket → event = .expiry ticket := by
    cases event with
    | expiry ticket =>
      simp only [arbitratorInput?, Option.ite_none_right_eq_some, Option.some.injEq] at hinput
      obtain ⟨-, rfl⟩ := hinput
      simp
    | toArbitrator message =>
      cases hinput
      simp
    | toParticipant receiver message => cases hinput
  rw [hheard]
  exact hprepared.informed hdeed horderly.sound.toOrderly horderly.known hinputs.1 hinputs.2.1
    fun ticket hticket => hsilent ticket (hinputs.2.2 ticket hticket)

private theorem machine_initialized (p : Participant) :
    (p.handle .initialized).machine =
      if p.state = .startStop then { p with state := .idle, released := false } else p := by
  simp only [Participant.handle, Participant.callInitialized]
  split
  · rw [Participant.machine_moveTo]
    rfl
  · rfl

private theorem exists_roster_of_adjusts {ssrc : Ssrc} {p q : Places}
    (h : p.Adjusts (.initialized ssrc) q) :
    ∃ roster, q = { p with roster := roster } ∧ ∀ x, roster.contains x = p.roster.contains x := by
  cases h with
  | readied _ => exact ⟨_, rfl, fun x => Roster.contains_modify _ _ _ _⟩
  | nobody hnone => cases hnone

theorem informed_setUp {ssrc : Ssrc} {places after : Places} {messages : List Envelope}
    (horderly : s.Orderly) (hinf : s.Informed hushed heard) (hkeeps : hushed → hushed')
    (hget : s.participants.get? ssrc = some p)
    (hadjusts : s.places.Adjusts (.initialized ssrc) places) (hplaces : places.Orderly)
    (hdeed : Deed (.initialized ssrc) places messages after)
    (hanswers : s.places.Opened →
      ∃ message, letterTo ssrc message ∈ messages ∧ message.isWord = true) :
    Informed hushed' heard { s with
      places := after
      participants := s.participants.modify ssrc fun _ => (p.handle .initialized).machine
      mail := s.mail ++ messages.map (·.arrival) } := by
  have hroomy := hadjusts.queue_roomy hinf.roomy
  obtain ⟨roster, rfl, hroster⟩ := exists_roster_of_adjusts hadjusts
  have hstays : ∀ {word : Option Message} {x : Ssrc}, s.places.Fits hushed x word →
      Places.Fits { s.places with roster := roster } hushed' x word :=
    fun hfits => hfits.stays Iff.rfl rfl (fun _ => .inl) hkeeps
  -- A party is as it was, or its call has just been set up and it knows nothing yet.
  have hbefore : ∀ x q, (s.participants.modify ssrc fun _ => (p.handle .initialized).machine).get? x
      = some q → s.participants.get? x = some q ∨ x = ssrc ∧ p.state = .startStop ∧
        q = { p with state := .idle, released := false } := by
    intro x q hq
    rw [Roster.get?_modify] at hq
    split at hq
    · next heq =>
      subst heq
      rw [hget, Option.map_some, machine_initialized] at hq
      split at hq
      · next hfresh => exact .inr ⟨rfl, hfresh, (Option.some.inj hq).symm⟩
      · exact .inl (hget.trans hq)
    · exact .inl hq
  refine Prepared.informed (s := { s with
      places := { s.places with roster := roster }
      participants := s.participants.modify ssrc fun _ => (p.handle .initialized).machine })
    ⟨hroomy, ?_, ?_, ?_, ?_, hinf.quiet, ?_⟩ hdeed hplaces ?_ (by simp) (by simp) (by simp)
  · intro x q hq hstarted hsilent
    rcases hbefore x q hq with hq | ⟨rfl, hfresh, -⟩
    · exact hstays (hinf.fits x q hq hstarted)
    · have hclosed : ¬ s.places.Opened := by
        intro hopened
        obtain ⟨message, hletter, hword⟩ := hanswers hopened
        have hnone := hsilent _ hletter
        simp [word?_letterTo, hword] at hnone
      have hnone : lastWord x ((heard x).map (·.message)) s.mail = none := by
        rw [lastWord_of_silent fun e he => (hinf.quiet hclosed e he x).1,
          (hinf.fresh x p hget hfresh).2.2]
        rfl
      change Places.Fits _ hushed' x (lastWord x ((heard x).map (·.message)) s.mail)
      rw [hnone]
      exact hclosed
  · intro x q hq hstarted
    rcases hbefore x q hq with hq | ⟨rfl, hfresh, rfl⟩
    · exact (hinf.knows x q hq hstarted).mono (·.append _)
    · obtain ⟨htalker, hoverridden, hheard⟩ := hinf.fresh x p hget hfresh
      rw [hheard]
      exact ⟨by simp, by simp [hoverridden], by simp, .inr htalker⟩
  · intro x q hq hfresh
    rcases hbefore x q hq with hq | ⟨rfl, -, rfl⟩
    · exact hinf.fresh x q hq hfresh
    · cases hfresh
  · intro x hnone
    refine hinf.absent x ?_
    rw [Roster.get?_modify] at hnone
    split at hnone
    · next heq =>
      subst heq
      simp [hget] at hnone
    · exact hnone
  · intro hclosed x q hq
    rcases hbefore x q hq with hq | ⟨rfl, -, rfl⟩
    · exact hinf.unclaimed hclosed x q hq
    · obtain ⟨hgrant, -, htalker⟩ := hinf.unclaimed hclosed x p hget
      exact ⟨hgrant, by simp, htalker⟩
  · intro x
    rw [Roster.contains_modify]
    exact (hroster x).trans (horderly.known x)

theorem informed_left {ssrc : Ssrc} {places after : Places} {messages : List Envelope}
    (horderly : s.Orderly) (hinf : s.Informed hushed heard) (hkeeps : hushed → hushed')
    (hadjusts : s.places.Adjusts (.leave ssrc) places) (hplaces : places.Orderly)
    (hdeed : Deed (.leave ssrc) places messages after)
    (hleft : ∀ who ∈ s.places.second, who.ssrc = ssrc → hushed') :
    Informed hushed' heard { s with
      places := after
      participants := s.participants.erase ssrc
      mail := s.mail ++ messages.map (·.arrival)
      departed := ssrc :: s.departed } := by
  have hroomy := hadjusts.queue_roomy hinf.roomy
  obtain rfl : places = s.places.without ssrc := by
    cases hadjusts with
    | left _ => rfl
    | nobody hnone => cases hnone
  have hsecond : ∀ who ∈ s.places.second, who ∈ (s.places.without ssrc).second ∨ hushed' := by
    intro who hwho
    rw [Option.mem_def] at hwho
    by_cases heq : who.ssrc = ssrc
    · exact .inr (hleft who hwho heq)
    · exact .inl (by simp [Places.without, hwho, heq])
  have hbefore : ∀ x q, (s.participants.erase ssrc).get? x = some q →
      s.participants.get? x = some q := by
    intro x q hq
    rw [Roster.get?_erase] at hq
    split at hq
    · cases hq
    · exact hq
  refine Prepared.informed (s := { s with
      places := s.places.without ssrc
      participants := s.participants.erase ssrc
      departed := ssrc :: s.departed })
    ⟨hroomy, ?_, ?_, ?_, ?_, hinf.quiet, ?_⟩ hdeed hplaces ?_ (by simp) (by simp) (by simp)
  · intro x q hq hstarted _
    exact (hinf.fits x q (hbefore x q hq) hstarted).stays Iff.rfl rfl hsecond hkeeps
  · intro x q hq hstarted
    exact (hinf.knows x q (hbefore x q hq) hstarted).mono (·.append _)
  · exact fun x q hq => hinf.fresh x q (hbefore x q hq)
  · intro x hnone hstranger
    rw [List.mem_cons, not_or] at hstranger
    rw [Roster.get?_erase, if_neg hstranger.1] at hnone
    exact hinf.absent x hnone hstranger.2
  · exact fun hclosed x q hq => hinf.unclaimed hclosed x q (hbefore x q hq)
  · intro x
    simp only [Places.without, Roster.contains_erase]
    rw [horderly.known]

theorem informed_joined {ssrc : Ssrc} {proxy : Proxy} (horderly : s.Orderly)
    (hinf : s.Informed hushed heard) (hkeeps : hushed → hushed')
    (hnew : s.places.roster.contains ssrc = false) (hstranger : ssrc ∉ s.departed)
    (hstate : p.state = .startStop) (htalker : p.talker = none) (hoverridden : p.overridden = false)
    (hgrant : p.grantPending = false) :
    Informed hushed' heard { s with
      places := { s.places with roster := s.places.roster.insert ssrc proxy }
      participants := s.participants.insert ssrc p } := by
  have hbefore : ∀ x q, (s.participants.insert ssrc p).get? x = some q →
      s.participants.get? x = some q ∨ x = ssrc ∧ q = p := by
    intro x q hq
    rw [Roster.get?_insert] at hq
    split at hq
    · next heq => exact .inr ⟨heq, (Option.some.inj hq).symm⟩
    · exact .inl hq
  refine ⟨hinf.roomy, ?_, ?_, ?_, ?_, hinf.quiet, ?_⟩
  · intro x q hq hstarted
    rcases hbefore x q hq with hq | ⟨-, rfl⟩
    · exact (hinf.fits x q hq hstarted).stays Iff.rfl rfl (fun _ => .inl) hkeeps
    · exact absurd hstate hstarted
  · intro x q hq hstarted
    rcases hbefore x q hq with hq | ⟨-, rfl⟩
    · exact hinf.knows x q hq hstarted
    · exact absurd hstate hstarted
  · intro x q hq hfresh
    rcases hbefore x q hq with hq | ⟨rfl, rfl⟩
    · exact hinf.fresh x q hq hfresh
    · have hnone : s.participants.get? x = none :=
        Roster.get?_of_contains_eq_false ((horderly.known x).symm.trans hnew)
      exact ⟨htalker, hoverridden, hinf.absent x hnone hstranger⟩
  · intro x hnone
    refine hinf.absent x ?_
    rw [Roster.get?_insert] at hnone
    split at hnone
    · cases hnone
    · exact hnone
  · intro hclosed x q hq
    rcases hbefore x q hq with hq | ⟨-, rfl⟩
    · exact hinf.unclaimed hclosed x q hq
    · exact ⟨hgrant, by simp [hstate], htalker⟩

/-- What is dropped was meant for nobody. -/
theorem informed_dropped {event : SessionEvent} {ssrc : Ssrc} {input : Participant.Input}
    (hinf : s.Informed hushed heard) (hkeeps : hushed → hushed')
    (hmail : s.mail = arriving (some event) ++ rest) (hinput : event.input? ssrc = some input)
    (hnone : s.participants.get? ssrc = none) :
    Informed hushed' (hears (some event) s heard) { s with mail := rest } := by
  have hne : ∀ {x p}, s.participants.get? x = some p → x ≠ ssrc := by
    rintro x p hget rfl
    cases hget.symm.trans hnone
  have hword : ∀ {x p}, s.participants.get? x = some p → ∀ e ∈ some event, e.word? x = none := by
    rintro x p hget _ ⟨⟩
    exact word?_of_input?_ne hinput (hne hget)
  refine ⟨hinf.roomy, ?_, ?_, ?_, ?_, fun hclosed e he =>
    hinf.quiet hclosed e (mem_of_mem_rest hmail he), hinf.unclaimed⟩
  · intro x p hget hstarted
    change s.places.Fits hushed' x (lastWord x _ rest)
    rw [lastTold_rest hmail hget hstarted]
    exact (hinf.fits x p hget hstarted).stays Iff.rfl rfl (fun _ => .inl) hkeeps
  · intro x p hget hstarted
    rw [hears_of_no_word (hword hget)]
    refine (hinf.knows x p hget hstarted).mono fun hcoming => ?_
    refine hcoming.still hmail ?_ (hword hget)
    rintro heq
    cases heq
    cases hinput
  · intro x p hget hfresh
    rw [hears_of_no_word (hword hget)]
    exact hinf.fresh x p hget hfresh
  · intro x hget hstranger
    rw [hears_of_absent fun p hp => by rw [hget] at hp; cases hp]
    exact hinf.absent x hget hstranger

/-- Every act keeps what the participants know. The second place is given up without a word if it is
taken from its talker while the floor stays with the holder, or if its talker leaves. -/
theorem informed_act {leaver : Option Ssrc} (hact : Act cue leaver s s') (horderly : s.Orderly)
    (hinf : s.Informed hushed heard) (hkeeps : hushed → hushed')
    (hsilent : ∀ ticket, cue = some (.expiry ticket) → s.places.second.isSome = true →
      s'.places.second = none → s'.places.holder = s.places.holder → hushed')
    (hleft : ∀ ssrc ∈ leaver, ∀ who ∈ s.places.second, who.ssrc = ssrc → hushed') :
    Informed hushed' (hears cue s heard) s' := by
  cases hact with
  | participant hmail hbrings hsetUp hget =>
    exact informed_participant horderly hinf hkeeps hmail hbrings hsetUp hget
  | arbitrator hmail hinput hdeed hanswers =>
    exact informed_arbitrator horderly hinf hkeeps hmail hinput hdeed hanswers
      fun ticket hticket => hsilent ticket (by rw [hticket])
  | setUp hget hadjusts hplaces hdeed hanswers =>
    exact informed_setUp horderly hinf hkeeps hget hadjusts hplaces hdeed hanswers
  | dropped hmail hinput hnone => exact informed_dropped hinf hkeeps hmail hinput hnone
  | joined hnew hstranger hstate htalker hoverridden hgrant =>
    exact informed_joined horderly hinf hkeeps hnew hstranger hstate htalker hoverridden hgrant
  | left hadjusts hplaces hdeed =>
    exact informed_left horderly hinf hkeeps hadjusts hplaces hdeed (hleft _ rfl)

end Scene
end FloorControl
