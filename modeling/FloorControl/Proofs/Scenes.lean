import FloorControl.Proofs.CallHistory
import FloorControl.Proofs.ArbitratorRun
import FloorControl.Proofs.Mail
import FloorControl.Proofs.ParticipantConduct

/-!
# Scenes of a call

A call without its clock, its timers and its observers: who is in which place at the arbitrator, how
the participants stand, and which messages are on their way between them. A call goes from scene to
scene by moves of five kinds. What holds of every scene of a call is shown here once, move by move.
-/

namespace FloorControl

namespace Roster

variable {α : Type} (r : Roster α) (ssrc other : Ssrc)

theorem contains_insert (a : α) :
    (r.insert ssrc a).contains other = (decide (other = ssrc) || r.contains other) := by
  rw [contains_eq_isSome_get?, contains_eq_isSome_get?, get?_insert]
  by_cases h : other = ssrc <;> simp [h]

theorem contains_erase :
    (r.erase ssrc).contains other = (decide (other ≠ ssrc) && r.contains other) := by
  rw [contains_eq_isSome_get?, contains_eq_isSome_get?, get?_erase]
  by_cases h : other = ssrc <;> simp [h]

@[simp] theorem contains_modify (f : α → α) :
    (r.modify ssrc f).contains other = r.contains other := by
  rw [Bool.eq_iff_iff, contains_iff_mem, ssrcs_modify, contains_iff_mem]

variable {r ssrc}

theorem contains_of_get? {a : α} (h : r.get? ssrc = some a) : r.contains ssrc = true := by
  rw [contains_eq_isSome_get?, h]
  rfl

theorem exists_get?_of_contains (h : r.contains ssrc = true) : ∃ a, r.get? ssrc = some a := by
  rwa [contains_eq_isSome_get?, Option.isSome_iff_exists] at h

theorem get?_of_contains_eq_false (h : r.contains ssrc = false) : r.get? ssrc = none := by
  simpa [contains_eq_isSome_get?] using h

end Roster

def SessionEvent.party? : SessionEvent → Option Ssrc
  | .expiry _ => none
  | .toArbitrator message => message.ssrc?
  | .toParticipant ssrc _ => some ssrc

def SessionEvent.input? (ssrc : Ssrc) : SessionEvent → Option Participant.Input
  | .expiry ticket => if ticket.owner = .participant ssrc then some (.expire ticket) else none
  | .toArbitrator _ => none
  | .toParticipant receiver message => if receiver = ssrc then some (.receive message) else none

theorem SessionEvent.input?_unique {e : SessionEvent} {x y : Ssrc} {i j : Participant.Input}
    (hx : e.input? x = some i) (hy : e.input? y = some j) : x = y := by
  cases e with
  | expiry ticket =>
    simp only [input?, Option.ite_none_right_eq_some] at hx hy
    have howner := hx.1.symm.trans hy.1
    cases howner
    rfl
  | toArbitrator message => cases hx
  | toParticipant receiver message =>
    simp only [input?, Option.ite_none_right_eq_some] at hx hy
    exact hx.1.symm.trans hy.1

/-- What the proofs see of a call. -/
structure Scene where
  places : Arbitrator.Places
  participants : Roster Participant
  /-- The messages on their way, in the order in which they arrive. -/
  mail : List SessionEvent
  /-- The parties that have left the call. -/
  departed : List Ssrc

def Session.scene (h : Session.History) (s : Session) : Scene where
  places := s.arbitrator.places
  participants := s.participants
  mail := s.mail
  departed := h.departed

namespace Scene

open Arbitrator

/-- What holds of every scene of a call in which nobody is granted the floor without asking. -/
structure Orderly (s : Scene) : Prop where
  sound : s.places.Sound
  unpromised : s.places.implicitRequest = none
  known : ∀ ssrc, s.places.roster.contains ssrc = s.participants.contains ssrc
  named : ∀ ssrc p, s.participants.get? ssrc = some p → p.ssrc = ssrc
  pending : ∀ ssrc p, s.participants.get? ssrc = some p → p.grantPending = true →
    p.state = .queued
  granted : ∀ ssrc message, .toParticipant ssrc message ∈ s.mail → message.isGrant = true →
    message.ssrc? = some ssrc
  addressed : ∀ e ∈ s.mail, ∀ ssrc ∈ e.party?,
    s.participants.contains ssrc = true ∨ ssrc ∈ s.departed

def arriving (cue : Option SessionEvent) : List SessionEvent := cue.toList.filter (·.isLetter)

/-- Whether a participant takes its turn with what has come out of the scheduler, or with what its
user or the call wants where nothing has. -/
def Brings : Option SessionEvent → Ssrc → Participant.Input → Prop
  | none, _, input =>
    input ≠ .beginRelease ∧ (∀ message, input ≠ .receive message) ∧
      (∀ ticket, input ≠ .expire ticket) ∧ ∀ priority, input ≠ .established true priority
  | some e, ssrc, input => e.input? ssrc = some input

def Requests (cue : Option SessionEvent) (ssrc : Ssrc) : Prop :=
  ∃ message, cue = some (.toArbitrator message) ∧ Arbitrator.Asks message ssrc

/-- How a call goes on to its next scene. The cue of a move is what has come out of the scheduler,
if it was that. -/
inductive Move : Option SessionEvent → Scene → Scene → Prop
  /-- One of the participants takes its turn. -/
  | participant {s : Scene} {cue : Option SessionEvent} {rest : List SessionEvent} {ssrc : Ssrc}
      {p q : Participant} {input : Participant.Input} {messages : List Envelope} :
      s.mail = arriving cue ++ rest → Brings cue ssrc input →
      s.participants.get? ssrc = some p → p.Conduct input messages q →
      Move cue s { s with
        participants := s.participants.modify ssrc fun _ => q
        mail := rest ++ messages.map (·.arrival) }
  /-- The arbitrator takes its turn. Nobody comes or leaves. -/
  | arbitrator {s : Scene} {cue : Option SessionEvent} {rest : List SessionEvent}
      {roster : Roster Proxy} {after : Places} {messages : List Envelope} :
      s.mail = arriving cue ++ rest → (∀ e ∈ cue, ∀ ssrc, e.input? ssrc = none) →
      (∀ ssrc, roster.contains ssrc = s.places.roster.contains ssrc) →
      Places.Leads { s.places with roster := roster } (Requests cue) messages after →
      (∀ ssrc, cue = some (.toArbitrator (.release ssrc)) → ssrc ∉ after.placed) →
      Move cue s { s with places := after, mail := rest ++ messages.map (·.arrival) }
  /-- What was meant for a party that has left is dropped. -/
  | dropped {s : Scene} {cue : Option SessionEvent} {rest : List SessionEvent} :
      s.mail = arriving cue ++ rest → (∀ message, cue ≠ some (.toArbitrator message)) →
      (∀ e ∈ cue, ∀ ssrc, s.participants.contains ssrc = true → e.input? ssrc = none) →
      Move cue s { s with mail := rest }
  /-- A party comes into the call for the first time. -/
  | joined {s : Scene} {ssrc : Ssrc} {proxy : Proxy} {p : Participant} :
      s.places.roster.contains ssrc = false → ssrc ∉ s.departed → p.ssrc = ssrc →
      p.state = .startStop → p.grantPending = false →
      Places.Sound { s.places with roster := s.places.roster.insert ssrc proxy } →
      Move none s { s with
        places := { s.places with roster := s.places.roster.insert ssrc proxy }
        participants := s.participants.insert ssrc p }
  /-- A party leaves the call. -/
  | left {s : Scene} {ssrc : Ssrc} {after : Places} {messages : List Envelope} :
      Places.Leads { s.places with roster := s.places.roster.erase ssrc } (fun _ => False) messages
        after →
      Move none s { s with
        places := after
        participants := s.participants.erase ssrc
        mail := s.mail ++ messages.map (·.arrival)
        departed := ssrc :: s.departed }

variable {s s' : Scene} {cue : Option SessionEvent} {rest : List SessionEvent}

theorem mem_of_mem_rest (hmail : s.mail = arriving cue ++ rest) {e : SessionEvent}
    (he : e ∈ rest) : e ∈ s.mail := by
  rw [hmail]
  exact List.mem_append_right _ he

/-- Messages of the arbitrator go to parties of its roster, and name those that they grant. -/
theorem mem_arbitrator_letters {before after : Places} {messages : List Envelope}
    (hfaithful : before.Faithful after messages) {e : SessionEvent}
    (he : e ∈ messages.map (·.arrival)) :
    ∃ ssrc message, e = .toParticipant ssrc message ∧ after.roster.contains ssrc = true ∧
      before.Truthful after ssrc message := by
  obtain ⟨letter, hletter, rfl⟩ := List.mem_map.mp he
  obtain ⟨ssrc, message, rfl, hknown, htruthful⟩ := hfaithful letter hletter
  exact ⟨ssrc, message, rfl, hknown, htruthful⟩

theorem named_of_grant {before after : Places} {ssrc : Ssrc} {message : Message}
    (h : before.Truthful after ssrc message) (hgrant : message.isGrant = true) :
    message.ssrc? = some ssrc := by
  cases message <;> simp only [Message.isGrant, Bool.false_eq_true] at hgrant
  obtain ⟨rfl, -⟩ := h
  rfl

theorem orderly_move (hmove : Move cue s s') (h : s.Orderly) : s'.Orderly := by
  cases hmove with
  | @participant _ _ rest ssrc p q input messages hmail hcue hget hconduct =>
    have hp := h.named _ _ hget
    refine ⟨h.sound, h.unpromised, ?_, ?_, ?_, ?_, ?_⟩
    · intro other
      rw [Roster.contains_modify]
      exact h.known other
    · intro other p' hget'
      rw [Roster.get?_modify] at hget'
      split at hget'
      · next heq =>
        subst heq
        rw [hget] at hget'
        cases hget'
        exact hconduct.ssrc.trans hp
      · exact h.named _ _ hget'
    · intro other p' hget'
      rw [Roster.get?_modify] at hget'
      split at hget'
      · next heq =>
        subst heq
        rw [hget] at hget'
        cases hget'
        exact hconduct.pending
      · exact h.pending _ _ hget'
    · intro other message hmem
      rcases List.mem_append.mp hmem with hmem | hmem
      · exact h.granted _ _ (mem_of_mem_rest hmail hmem)
      · obtain ⟨letter, hletter, heq⟩ := List.mem_map.mp hmem
        obtain ⟨m, rfl, -⟩ := hconduct.letters letter hletter
        cases heq
    · intro e he other hother
      rw [Roster.contains_modify]
      rcases List.mem_append.mp he with he | he
      · exact h.addressed _ (mem_of_mem_rest hmail he) _ hother
      · obtain ⟨letter, hletter, rfl⟩ := List.mem_map.mp he
        obtain ⟨m, rfl, hnamed⟩ := hconduct.letters letter hletter
        have hother : m.ssrc? = some other := hother
        rw [hnamed, hp] at hother
        cases hother
        exact .inl (Roster.contains_of_get? hget)
  | @arbitrator _ _ rest roster after messages hmail _ hroster hleads _ =>
    have hknown : ∀ ssrc, after.roster.contains ssrc = s.participants.contains ssrc := by
      intro ssrc
      rw [hleads.roster, ← h.known]
      exact hroster ssrc
    refine ⟨hleads.sound, hleads.unpromised h.unpromised, hknown, h.named, h.pending, ?_, ?_⟩
    · intro ssrc message hmem
      rcases List.mem_append.mp hmem with hmem | hmem
      · exact h.granted _ _ (mem_of_mem_rest hmail hmem)
      · obtain ⟨_, _, heq, -, htruthful⟩ := mem_arbitrator_letters hleads.faithful hmem
        cases heq
        exact named_of_grant htruthful
    · intro e he ssrc hssrc
      rcases List.mem_append.mp he with he | he
      · exact h.addressed _ (mem_of_mem_rest hmail he) _ hssrc
      · obtain ⟨_, _, rfl, hcontains, -⟩ := mem_arbitrator_letters hleads.faithful he
        cases hssrc
        exact .inl (hknown _ ▸ hcontains)
  | @dropped _ _ rest hmail _ _ =>
    exact { h with
      granted := fun _ _ hmem => h.granted _ _ (mem_of_mem_rest hmail hmem)
      addressed := fun _ he => h.addressed _ (mem_of_mem_rest hmail he) }
  | @joined _ ssrc proxy p hnew hstranger hssrc hstate hgrant hsound =>
    refine ⟨hsound, h.unpromised, ?_, ?_, ?_, h.granted, ?_⟩
    · intro other
      rw [Roster.contains_insert, Roster.contains_insert, h.known]
    · intro other p' hget
      rw [Roster.get?_insert] at hget
      split at hget
      · next heq =>
        cases hget
        exact hssrc.trans heq.symm
      · exact h.named _ _ hget
    · intro other p' hget
      rw [Roster.get?_insert] at hget
      split at hget
      · cases hget
        simp [hgrant]
      · exact h.pending _ _ hget
    · intro e he other hother
      rw [Roster.contains_insert]
      rcases h.addressed e he other hother with hcontains | hgone
      · exact .inl (by rw [hcontains, Bool.or_true])
      · exact .inr hgone
  | @left _ ssrc after messages hleads =>
    have hknown : ∀ other, after.roster.contains other =
        (s.participants.erase ssrc).contains other := by
      intro other
      rw [hleads.roster, Roster.contains_erase, Roster.contains_erase, h.known]
    refine ⟨hleads.sound, hleads.unpromised h.unpromised, hknown, ?_, ?_, ?_, ?_⟩
    · intro other p' hget
      rw [Roster.get?_erase] at hget
      split at hget
      · cases hget
      · exact h.named _ _ hget
    · intro other p' hget
      rw [Roster.get?_erase] at hget
      split at hget
      · cases hget
      · exact h.pending _ _ hget
    · intro other message hmem
      rcases List.mem_append.mp hmem with hmem | hmem
      · exact h.granted _ _ hmem
      · obtain ⟨_, _, heq, -, htruthful⟩ := mem_arbitrator_letters hleads.faithful hmem
        cases heq
        exact named_of_grant htruthful
    · intro e he other hother
      rcases List.mem_append.mp he with he | he
      · rw [Roster.contains_erase]
        by_cases hleft : other = ssrc
        · exact .inr (hleft ▸ List.mem_cons_self)
        · simpa [hleft] using h.addressed _ he _ hother
      · obtain ⟨_, _, rfl, hcontains, -⟩ := mem_arbitrator_letters hleads.faithful he
        cases hother
        exact .inl (hknown _ ▸ hcontains)

/-- What a move means for one of the participants, where the given messages are sent in it. -/
inductive Concerns (cue : Option SessionEvent) (s s' : Scene) (letters : List SessionEvent)
    (x : Ssrc) : Prop
  /-- Nothing. -/
  | nothing : (∀ e ∈ cue, e.input? x = none) →
      s'.participants.get? x = s.participants.get? x →
      (∀ message, .toArbitrator message ∈ letters → message.ssrc? ≠ some x) →
      Concerns cue s s' letters x
  /-- It takes its turn. -/
  | turn {p q : Participant} {input : Participant.Input} {messages : List Envelope} :
      Brings cue x input → s.participants.get? x = some p → p.Conduct input messages q →
      s'.participants.get? x = some q → letters = messages.map (·.arrival) →
      s'.places = s.places → Concerns cue s s' letters x
  /-- It comes into the call. -/
  | entry {p : Participant} : (∀ e ∈ s.mail, e.party? ≠ some x) → x ∉ s'.places.placed →
      s'.participants.get? x = some p → p.permitted = false → letters = [] →
      Concerns cue s s' letters x

/-- What a move means for the places, where the given messages are sent in it. -/
inductive Settles (cue : Option SessionEvent) (s s' : Scene) (letters : List SessionEvent) : Prop
  /-- Nobody goes from one place to another. -/
  | kept : s'.places = { s.places with roster := s'.places.roster } →
      (∀ message, cue ≠ some (.toArbitrator message)) →
      (∀ e ∈ letters, ∃ message, e = .toArbitrator message) → Settles cue s s' letters
  /-- The arbitrator takes its turn. -/
  | answered {roster : Roster Proxy} {messages : List Envelope} :
      Places.Leads { s.places with roster := roster } (Requests cue) messages s'.places →
      (∀ ssrc, cue = some (.toArbitrator (.release ssrc)) → ssrc ∉ s'.places.placed) →
      letters = messages.map (·.arrival) → Settles cue s s' letters

/-- A move takes its cue off the mail and puts letters on it. -/
structure Anatomy (cue : Option SessionEvent) (s s' : Scene) (rest letters : List SessionEvent) :
    Prop where
  before : s.mail = arriving cue ++ rest
  after : s'.mail = rest ++ letters
  concerns : ∀ x, s'.participants.contains x = true → Concerns cue s s' letters x
  settles : Settles cue s s' letters

theorem input?_of_ne {x ssrc : Ssrc} {input : Participant.Input} (hbrings : Brings cue ssrc input)
    (hne : x ≠ ssrc) : ∀ e ∈ cue, e.input? x = none := by
  rintro e rfl
  cases hx : e.input? x with
  | none => rfl
  | some _ => exact absurd (SessionEvent.input?_unique hx hbrings) hne

theorem not_toArbitrator_of_brings {ssrc : Ssrc} {input : Participant.Input}
    (h : Brings cue ssrc input) (message : Message) : cue ≠ some (.toArbitrator message) := by
  rintro rfl
  cases h

theorem toArbitrator_of_conduct {p q : Participant} {input : Participant.Input}
    {messages : List Envelope} (hconduct : p.Conduct input messages q) {e : SessionEvent}
    (he : e ∈ messages.map (·.arrival)) : ∃ message, e = .toArbitrator message := by
  obtain ⟨letter, hletter, rfl⟩ := List.mem_map.mp he
  obtain ⟨m, rfl, -⟩ := hconduct.letters letter hletter
  exact ⟨m, rfl⟩

theorem exists_anatomy (hmove : Move cue s s') (h : s.Orderly) :
    ∃ rest letters, Anatomy cue s s' rest letters := by
  cases hmove with
  | @participant _ _ rest ssrc p q input messages hmail hbrings hget hconduct =>
    refine ⟨rest, _, hmail, rfl, fun x _ => ?_, .kept rfl (not_toArbitrator_of_brings hbrings)
      fun _ => toArbitrator_of_conduct hconduct⟩
    by_cases heq : x = ssrc
    · subst heq
      exact .turn hbrings hget hconduct (by rw [Roster.get?_modify, if_pos rfl, hget]; rfl) rfl rfl
    · refine .nothing (input?_of_ne hbrings heq) (by rw [Roster.get?_modify, if_neg heq]) ?_
      intro message hmem hssrc
      obtain ⟨letter, hletter, heq'⟩ := List.mem_map.mp hmem
      obtain ⟨m, rfl, hnamed⟩ := hconduct.letters letter hletter
      cases heq'
      have hsender := hnamed.symm.trans hssrc
      rw [h.named ssrc p hget] at hsender
      exact heq (Option.some.inj hsender).symm
  | @arbitrator _ _ rest roster after messages hmail hcue hroster hleads hgone =>
    refine ⟨rest, _, hmail, rfl, fun x _ => ?_, .answered hleads hgone rfl⟩
    refine .nothing (fun e he => hcue e he x) rfl fun message hmem => ?_
    obtain ⟨_, _, heq, -, -⟩ := mem_arbitrator_letters hleads.faithful hmem
    cases heq
  | @dropped _ _ rest hmail hcue hgone =>
    refine ⟨rest, [], hmail, by simp, fun x hcontains => ?_, .kept rfl hcue (by simp)⟩
    exact .nothing (fun e he => hgone e he x hcontains) rfl (by simp)
  | @joined _ ssrc proxy p hnew hstranger _ hstate hgrant hsound =>
    refine ⟨s.mail, [], rfl, by simp, fun x _ => ?_, .kept rfl (by simp) (by simp)⟩
    by_cases heq : x = ssrc
    · subst heq
      refine .entry (p := p) ?_ ?_ (by rw [Roster.get?_insert, if_pos rfl])
        (by simp [Participant.permitted, hstate]) rfl
      · intro e he hparty
        rcases h.addressed e he x hparty with hcontains | hgone
        · rw [← h.known, hnew] at hcontains
          cases hcontains
        · exact hstranger hgone
      · intro hplaced
        have hcontains := (h.sound.entitled x hplaced).contains
        rw [hnew] at hcontains
        cases hcontains
    · exact .nothing (by simp) (by rw [Roster.get?_insert, if_neg heq]) (by simp)
  | @left _ ssrc after messages hleads =>
    have hanswered : Places.Leads { s.places with roster := s.places.roster.erase ssrc }
        (Requests none) messages after :=
      { hleads with
        placed := fun x hx => (hleads.placed x hx).imp_right (.imp_right False.elim) }
    refine ⟨s.mail, _, rfl, rfl, fun x hcontains => ?_, .answered hanswered (by simp) rfl⟩
    rw [Roster.contains_erase, Bool.and_eq_true, decide_eq_true_eq] at hcontains
    refine .nothing (by simp) (by rw [Roster.get?_erase, if_neg hcontains.1]) fun message hmem => ?_
    obtain ⟨_, _, heq, -, -⟩ := mem_arbitrator_letters hleads.faithful hmem
    cases heq

end Scene
end FloorControl
