import FloorControl.Proofs.Scenes

/-!
# What the mail will bring

Some of what is coming brings a thing about and some of it ends the thing, and the rest leaves it as
it is. So from what holds now and from the mail it can be told what will hold when the mail has
arrived: the last that has to do with the thing decides. What holds of a call is a comparison of
this with the places of the floor, which are ahead of what the participants know. A history is read
in the same way for what has begun in it and has not ended.
-/

namespace FloorControl

section

variable {α : Type} {brings ends : α → Bool} {b b' : Bool} {coming first later : List α}

/-- Whether a thing holds after all that is coming, given whether it holds now. -/
def foreseen (brings ends : α → Bool) (b : Bool) (coming : List α) : Bool :=
  coming.foldl (fun b a => brings a || (b && !ends a)) b

@[simp] theorem foreseen_nil : foreseen brings ends b [] = b := rfl

theorem foreseen_cons (a : α) :
    foreseen brings ends b (a :: coming) =
      foreseen brings ends (brings a || (b && !ends a)) coming := rfl

theorem foreseen_append :
    foreseen brings ends b (first ++ later) =
      foreseen brings ends (foreseen brings ends b first) later :=
  List.foldl_append

theorem foreseen_mono (h : b = true → b' = true) (hb : foreseen brings ends b coming = true) :
    foreseen brings ends b' coming = true := by
  induction coming generalizing b b' with
  | nil => exact h hb
  | cons a coming ih =>
    refine ih (fun hnext => ?_) hb
    rw [Bool.or_eq_true, Bool.and_eq_true] at hnext ⊢
    exact hnext.imp_right (.imp_left h)

/-- Where nothing brings the thing about, it holds afterwards only if it holds now and nothing ends
it. -/
theorem now_of_foreseen (hnone : ∀ a ∈ coming, brings a = false)
    (hb : foreseen brings ends b coming = true) : b = true ∧ ∀ a ∈ coming, ends a = false := by
  induction coming generalizing b with
  | nil => exact ⟨hb, by simp⟩
  | cons a coming ih =>
    rw [foreseen_cons, hnone a List.mem_cons_self, Bool.false_or] at hb
    obtain ⟨hnow, hrest⟩ := ih (fun a ha => hnone a (List.mem_cons_of_mem _ ha)) hb
    rw [Bool.and_eq_true, Bool.not_eq_true'] at hnow
    refine ⟨hnow.1, fun c hc => ?_⟩
    rcases List.mem_cons.mp hc with rfl | hc
    · exact hnow.2
    · exact hrest c hc

theorem now_or_brought (hb : foreseen brings ends b coming = true) :
    b = true ∨ ∃ a ∈ coming, brings a = true := by
  by_contra hneither
  simp only [not_or, not_exists, not_and, Bool.not_eq_true] at hneither
  have hnow := (now_of_foreseen hneither.2 hb).1
  rw [hneither.1] at hnow
  cases hnow

/-- Where nothing ends the thing, it holds afterwards if it holds now or is brought about. -/
theorem foreseen_of_lasting (hlast : ∀ a ∈ coming, ends a = false)
    (h : b = true ∨ ∃ a ∈ coming, brings a = true) : foreseen brings ends b coming = true := by
  induction coming generalizing b with
  | nil => exact h.resolve_right (by simp)
  | cons a coming ih =>
    refine ih (fun c hc => hlast c (List.mem_cons_of_mem _ hc)) ?_
    have ha := hlast a List.mem_cons_self
    rcases h with hb | ⟨c, hc, hbrings⟩
    · exact .inl (by simp [hb, ha])
    · rcases List.mem_cons.mp hc with rfl | hc
      · exact .inl (by simp [hbrings])
      · exact .inr ⟨c, hc, hbrings⟩

/-- What has nothing to do with the thing leaves it as it is. -/
theorem foreseen_of_unrelated (hnone : ∀ a ∈ coming, brings a = false)
    (hlast : ∀ a ∈ coming, ends a = false) : foreseen brings ends b coming = b := by
  rw [Bool.eq_iff_iff]
  exact ⟨fun h => (now_of_foreseen hnone h).1, fun h => foreseen_of_lasting hlast (.inl h)⟩

/-- A beginning of two lists in a row is one of the first, or goes on into the second. -/
theorem prefix_append_cases {l : List α} (h : l <+: first ++ later) :
    l <+: first ∨ ∃ part, part <+: later ∧ l = first ++ part := by
  obtain ⟨rest, hrest⟩ := h
  rcases List.append_eq_append_iff.mp hrest with ⟨mid, rfl, -⟩ | ⟨mid, rfl, rfl⟩
  · exact .inl ⟨mid, rfl⟩
  · exact .inr ⟨mid, ⟨rest, rfl⟩, rfl⟩

end

namespace SessionEvent

def tells (ssrc : Ssrc) (f : Message → Bool) : SessionEvent → Bool
  | .toParticipant receiver message => receiver = ssrc && f message
  | .toArbitrator _ | .expiry _ => false

def reports (ssrc : Ssrc) (f : Message → Bool) : SessionEvent → Bool
  | .toArbitrator message => message.ssrc? = some ssrc && f message
  | .toParticipant .. | .expiry _ => false

variable {ssrc : Ssrc} {f : Message → Bool} {e : SessionEvent}

theorem tells_iff :
    e.tells ssrc f = true ↔ ∃ message, e = .toParticipant ssrc message ∧ f message = true := by
  cases e with
  | toParticipant receiver message =>
    simp only [tells, Bool.and_eq_true, decide_eq_true_eq, toParticipant.injEq]
    constructor
    · rintro ⟨rfl, hf⟩
      exact ⟨message, ⟨rfl, rfl⟩, hf⟩
    · rintro ⟨_, ⟨rfl, rfl⟩, hf⟩
      exact ⟨rfl, hf⟩
  | _ => simp [tells]

theorem reports_iff :
    e.reports ssrc f = true ↔
      ∃ message, e = .toArbitrator message ∧ message.ssrc? = some ssrc ∧ f message = true := by
  cases e <;> simp [reports]

theorem tells_eq_false (h : ∀ message, e ≠ .toParticipant ssrc message) :
    e.tells ssrc f = false := by
  rw [← Bool.not_eq_true, tells_iff]
  rintro ⟨message, heq, -⟩
  exact h message heq

end SessionEvent

namespace Session

def Happening.grants (ssrc : Ssrc) (e : Happening) : Bool :=
  match e.what with
  | .delivery event => event.tells ssrc Message.isGrant
  | .operation _ => false

/-- Whether something goes on that some happenings begin and others end. -/
def History.lasts (begins ends : Happening → Bool) : History → Bool
  | [] => false
  | e :: h => begins e || (lasts begins ends h && !ends e)

end Session

namespace Scene

variable {cue : Option SessionEvent} {ssrc : Ssrc} {f g : Message → Bool} {b : Bool}

def Told (cue : Option SessionEvent) (ssrc : Ssrc) (f : Message → Bool) : Bool :=
  cue.any (·.tells ssrc f)

theorem told_iff :
    Told cue ssrc f = true ↔
      ∃ message, cue = some (.toParticipant ssrc message) ∧ f message = true := by
  cases cue with
  | none => simp [Told]
  | some e => simp [Told, SessionEvent.tells_iff]

/-- What arrives at nobody, or at somebody else, leaves a party as it is. -/
theorem foreseen_arriving_elsewhere (h : ∀ message, cue ≠ some (.toParticipant ssrc message)) :
    foreseen (·.tells ssrc f) (·.tells ssrc g) b (arriving cue) = b := by
  have hnot : ∀ f, ∀ e ∈ arriving cue, SessionEvent.tells ssrc f e = false := by
    intro f e he
    have hcue : cue = some e := by simpa [arriving] using (List.mem_filter.mp he).1
    exact SessionEvent.tells_eq_false fun message heq => h message (heq ▸ hcue)
  exact foreseen_of_unrelated (hnot f) (hnot g)

theorem foreseen_arriving (message : Message) :
    foreseen (·.tells ssrc f) (·.tells ssrc g) b (arriving (some (.toParticipant ssrc message))) =
      (f message || (b && !g message)) := by
  simp [arriving, SessionEvent.isLetter, foreseen_cons, SessionEvent.tells]

def permits (participants : Roster Participant) (ssrc : Ssrc) : Bool :=
  (participants.get? ssrc).any (·.permitted)

theorem permits_of_get? {participants : Roster Participant} {p : Participant}
    (hget : participants.get? ssrc = some p) : permits participants ssrc = p.permitted := by
  simp [permits, hget]

theorem permits_congr {participants participants' : Roster Participant}
    (h : participants'.get? ssrc = participants.get? ssrc) :
    permits participants' ssrc = permits participants ssrc := by
  rw [permits, permits, h]

/-- Whether a participant will be permitted to talk when the given messages have arrived, given who
is now and which messages end it. -/
def willTalk (participants : Roster Participant) (now : Ssrc → Bool) (ends : Ssrc → Message → Bool)
    (coming : List SessionEvent) (ssrc : Ssrc) : Bool :=
  participants.contains ssrc &&
    foreseen (·.tells ssrc Message.isGrant) (·.tells ssrc (ends ssrc)) (now ssrc) coming

section

variable {participants participants' : Roster Participant} {now now' : Ssrc → Bool}
  {ends : Ssrc → Message → Bool} {coming first later : List SessionEvent}

theorem willTalk_iff :
    willTalk participants now ends coming ssrc = true ↔ participants.contains ssrc = true ∧
      foreseen (·.tells ssrc Message.isGrant) (·.tells ssrc (ends ssrc)) (now ssrc) coming =
        true := by
  rw [willTalk, Bool.and_eq_true]

theorem willTalk_or_granted (h : willTalk participants now ends (first ++ later) ssrc = true) :
    willTalk participants now ends first ssrc = true ∨
      ∃ e ∈ later, e.tells ssrc Message.isGrant = true := by
  rw [willTalk_iff, foreseen_append] at h
  rw [willTalk_iff]
  exact (now_or_brought h.2).imp_left fun hfirst => ⟨h.1, hfirst⟩

/-- Messages without a grant make no talker, and the talkers are those whom they do not end. -/
theorem willTalk_of_no_grant (h : willTalk participants now ends (first ++ later) ssrc = true)
    (hnone : ∀ e ∈ later, e.tells ssrc Message.isGrant = false) :
    willTalk participants now ends first ssrc = true ∧
      ∀ e ∈ later, e.tells ssrc (ends ssrc) = false := by
  rw [willTalk_iff, foreseen_append] at h
  obtain ⟨hfirst, hends⟩ := now_of_foreseen hnone h.2
  exact ⟨willTalk_iff.mpr ⟨h.1, hfirst⟩, hends⟩

/-- A party that is told nothing talks only if it does now. -/
theorem now_of_willTalk (hnothing : ∀ message, .toParticipant ssrc message ∉ coming)
    (h : willTalk participants now ends coming ssrc = true) : now ssrc = true := by
  have hnone : ∀ e ∈ coming, SessionEvent.tells ssrc Message.isGrant e = false := fun e he =>
    SessionEvent.tells_eq_false fun message hmessage => hnothing message (hmessage ▸ he)
  exact (now_of_foreseen hnone (willTalk_iff.mp h).2).1

end

theorem not_toParticipant_of_input? (h : ∀ e ∈ cue, e.input? ssrc = none) (message : Message) :
    cue ≠ some (.toParticipant ssrc message) := by
  rintro rfl
  simpa [SessionEvent.input?] using h _ rfl

/-- A participant that takes its turn with a message has just got it. -/
theorem cue_of_receive {message : Message} (h : Brings cue ssrc (.receive message)) :
    cue = some (.toParticipant ssrc message) := by
  cases cue with
  | none => exact absurd rfl (h.2.1 message)
  | some e =>
    cases e with
    | toParticipant receiver message =>
      simp only [Brings, SessionEvent.input?, Option.ite_none_right_eq_some, Option.some.injEq,
        Participant.Input.receive.injEq] at h
      rw [h.1, h.2]
    | _ => simp [Brings, SessionEvent.input?] at h

/-- A participant is granted the floor by a message only. -/
theorem cue_of_grants {input : Participant.Input} (h : Brings cue ssrc input)
    (hgrants : input.grants = true) :
    ∃ message, cue = some (.toParticipant ssrc message) ∧ message.isGrant = true := by
  cases input with
  | receive message => exact ⟨message, cue_of_receive h, hgrants⟩
  | established granted priority =>
    have hgranted : granted = true := hgrants
    cases cue with
    | none => exact absurd (by rw [hgranted]) (h.2.2.2 priority)
    | some e => cases e <;> simp [Brings, SessionEvent.input?] at h
  | _ => cases hgrants

/-- A participant is permitted to talk after its turn only if what has arrived lets it be, whatever
of what strips it of the permission is looked at. -/
theorem permitted_arriving {p q : Participant} {input : Participant.Input}
    {messages : List Envelope} (hbrings : Brings cue ssrc input)
    (hconduct : p.Conduct input messages q) (hq : q.permitted = true)
    (hstrips : ∀ message, input = .receive message → p.permitted = true → g message = true →
      p.strips input = true) :
    foreseen (·.tells ssrc Message.isGrant) (·.tells ssrc g) p.permitted (arriving cue) = true := by
  by_cases harrives : ∃ message, cue = some (.toParticipant ssrc message)
  · obtain ⟨message, rfl⟩ := harrives
    obtain rfl : input = .receive message := by
      simpa [Brings, SessionEvent.input?] using hbrings.symm
    rw [foreseen_arriving, Bool.or_eq_true, Bool.and_eq_true, Bool.not_eq_true']
    rcases hconduct.gains hq with hp | hgrants
    · refine .inr ⟨hp, ?_⟩
      by_contra hg
      rw [Bool.not_eq_false] at hg
      rw [hconduct.strips (hstrips message rfl hp hg)] at hq
      cases hq
    · exact .inl hgrants
  · rw [not_exists] at harrives
    rw [foreseen_arriving_elsewhere harrives]
    refine (hconduct.gains hq).resolve_right fun hgrants => ?_
    obtain ⟨message, rfl, -⟩ := cue_of_grants hbrings hgrants
    exact harrives message rfl

/-- Whoever will talk after a move would have talked with what arrived by it, if it does not come
to talk by what the move means for it. -/
theorem willTalk_of_anatomy {s s' : Scene} {rest letters coming : List SessionEvent}
    {now now' : Ssrc → Bool} {ends : Ssrc → Message → Bool}
    (hanatomy : Anatomy cue s s' rest letters)
    (hnothing : (∀ e ∈ cue, e.input? ssrc = none) →
      s'.participants.get? ssrc = s.participants.get? ssrc → now' ssrc = true → now ssrc = true)
    (hturn : ∀ {p q : Participant} {input : Participant.Input} {messages : List Envelope},
      Brings cue ssrc input → s.participants.get? ssrc = some p → p.Conduct input messages q →
      s'.participants.get? ssrc = some q → now' ssrc = true →
      foreseen (·.tells ssrc Message.isGrant) (·.tells ssrc (ends ssrc)) (now ssrc)
        (arriving cue) = true)
    (hentry : permits s'.participants ssrc = false → now' ssrc = false) (hcoming : coming <+: rest)
    (h : willTalk s'.participants now' ends coming ssrc = true) :
    willTalk s.participants now ends (arriving cue ++ coming) ssrc = true := by
  rw [willTalk_iff, foreseen_append]
  obtain ⟨hcontains, hforeseen⟩ := willTalk_iff.mp h
  rcases hanatomy.concerns ssrc hcontains with
    ⟨hinput, hsame, -⟩ | ⟨hbrings, hget, hconduct, hget', -, -⟩ | ⟨hstranger, -, hget', hp, -⟩
  · refine ⟨?_, foreseen_mono (fun hnow => ?_) hforeseen⟩
    · rwa [Roster.contains_eq_isSome_get?, ← hsame, ← Roster.contains_eq_isSome_get?]
    · rw [foreseen_arriving_elsewhere (not_toParticipant_of_input? hinput)]
      exact hnothing hinput hsame hnow
  · exact ⟨Roster.contains_of_get? hget,
      foreseen_mono (fun hnow => hturn hbrings hget hconduct hget' hnow) hforeseen⟩
  · have hnow : now' ssrc = true := by
      refine now_of_willTalk (fun message hmem => ?_) h
      refine hstranger (.toParticipant ssrc message) ?_ rfl
      rw [hanatomy.before]
      exact List.mem_append_right _ (hcoming.subset hmem)
    rw [hentry (by rw [permits_of_get? hget', hp])] at hnow
    cases hnow

/-- What goes to the arbitrator tells nobody else anything. -/
theorem tells_toArbitrator {e : SessionEvent} (h : ∃ message, e = .toArbitrator message) :
    e.tells ssrc f = false := by
  obtain ⟨message, rfl⟩ := h
  rfl

theorem mem_talkers_of_granted {before after : Arbitrator.Places} {messages : List Envelope}
    (hfaithful : before.Faithful after messages) {e : SessionEvent}
    (he : e ∈ messages.map (·.arrival)) (hgrant : e.tells ssrc Message.isGrant = true) :
    ssrc ∈ after.talkers := by
  obtain ⟨receiver, message, rfl, -, htruthful⟩ := mem_arbitrator_letters hfaithful he
  obtain ⟨message, heq, hgrant⟩ := SessionEvent.tells_iff.mp hgrant
  cases heq
  cases message <;> simp only [Message.isGrant, Bool.false_eq_true] at hgrant
  exact htruthful.2

end Scene
end FloorControl
