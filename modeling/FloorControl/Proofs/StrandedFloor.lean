import FloorControl.Proofs.CallMoves
import FloorControl.Proofs.Foresight

/-!
# Stranded floors

When no message is on its way, the party that holds the floor is permitted to talk, or has only to
accept the floor, with one exception. Whoever gives the floor up sends a release, and the release
takes the floor from the party however late it comes, unless the party has dropped the floor without
one: its question for the place in the queue has stayed unanswered while its user had only to accept
the floor, or it was told while it talked that another party has the floor. Such a party has forsaken
the floor until it is granted the floor again. The holders that are not permitted to talk are those
that have forsaken the floor.
-/

namespace FloorControl

namespace Message

def isRequest : Message → Bool
  | .request .. => true
  | _ => false

def isRelease : Message → Bool
  | .release .. => true
  | _ => false

def refuses (message : Message) : Bool := message.isIdle || message.isDenial

end Message

namespace Participant

variable {p : Participant} {input : Input}

/-- Whoever gives the floor up is not permitted to talk afterwards. -/
theorem strips_of_abandons (h : p.abandons input = true) : p.strips input = true := by
  cases input with
  | receive message =>
    simp only [abandons, Bool.and_eq_true, decide_eq_true_eq] at h
    simp [strips, h.1, h.2]
  | _ => exact h

end Participant

namespace Scene

open Arbitrator

variable {s s' : Scene} {cue : Option SessionEvent} {rest : List SessionEvent} {x : Ssrc}
  {forsaken : Ssrc → Bool}

def abandons (s : Scene) (cue : Option SessionEvent) (ssrc : Ssrc) : Bool :=
  (s.participants.get? ssrc).any fun p => cue.any fun e => (e.input? ssrc).any p.abandons

def forsakenBy (forsaken : Ssrc → Bool) (s : Scene) (cue : Option SessionEvent) (ssrc : Ssrc) :
    Bool :=
  s.abandons cue ssrc || (forsaken ssrc && !Told cue ssrc Message.isGrant)

/-- Whether a party is on its way to the floor or has forsaken it, once the mail has arrived. -/
def minds (forsaken : Ssrc → Bool) (s : Scene) (ssrc : Ssrc) : Bool :=
  foreseen (·.tells ssrc Message.isGrant) (·.tells ssrc Message.refuses)
    (permits s.participants ssrc || forsaken ssrc) s.mail

/-- Whether a party is in a place once the arbitrator has got the mail of the party, if the
arbitrator gives it one whenever it asks. -/
def mayBePlaced (s : Scene) (ssrc : Ssrc) : Bool :=
  foreseen (·.reports ssrc Message.isRequest) (·.reports ssrc Message.isRelease)
    (decide (ssrc ∈ s.places.placed)) s.mail

/-- A talker gives the floor back unless it minds it, a party that has sent its release is in no
place when that has arrived, and whoever has forsaken the floor is not permitted to talk. -/
structure Served (forsaken : Ssrc → Bool) (s : Scene) : Prop where
  minded : ∀ x ∈ s.places.talkers,
    (∃ e ∈ s.mail, e.reports x Message.isRelease = true) ∨ s.minds forsaken x = true
  returned : ∀ x p, s.participants.get? x = some p →
    p.state = .startStop ∨ p.state = .pendingRelease → s.mayBePlaced x = false
  forsaken : ∀ x, forsaken x = true → permits s.participants x = false

theorem abandons_of_brings {ssrc : Ssrc} {p : Participant} {input : Participant.Input}
    (hbrings : Brings cue ssrc input) (hget : s.participants.get? ssrc = some p) :
    s.abandons cue ssrc = p.abandons input := by
  cases cue with
  | none =>
    obtain ⟨-, hmessage, hticket, -⟩ := hbrings
    cases input with
    | receive message => exact absurd rfl (hmessage message)
    | expire ticket => exact absurd rfl (hticket ticket)
    | _ => simp [abandons, hget, Participant.abandons]
  | some e =>
    have hinput : e.input? ssrc = some input := hbrings
    simp [abandons, hget, hinput]

theorem abandons_of_input? (h : ∀ e ∈ cue, e.input? x = none) : s.abandons cue x = false := by
  cases cue with
  | none => simp [abandons]
  | some e => simp [abandons, h e rfl]

theorem forsakenBy_of_input? (h : ∀ e ∈ cue, e.input? x = none) :
    forsakenBy forsaken s cue x = forsaken x := by
  have htold : Told cue x Message.isGrant = false := by
    rw [← Bool.not_eq_true, told_iff]
    rintro ⟨message, heq, -⟩
    exact not_toParticipant_of_input? h message heq
  rw [forsakenBy, abandons_of_input? h, htold, Bool.false_or, Bool.not_false, Bool.and_true]

/-- Whoever has forsaken the floor is permitted to talk only after a new grant. -/
private theorem permits_forsaken {letters : List SessionEvent}
    (hanatomy : Anatomy cue s s' rest letters)
    (h : ∀ x, forsaken x = true → permits s.participants x = false) (x : Ssrc)
    (hx : forsakenBy forsaken s cue x = true) : permits s'.participants x = false := by
  cases hcontains : s'.participants.contains x with
  | false => rw [permits, Roster.get?_of_contains_eq_false hcontains, Option.any_none]
  | true =>
    rcases hanatomy.concerns x hcontains with
      ⟨hinput, hsame, -⟩ | ⟨hbrings, hget, hconduct, hget', -, -⟩ | ⟨-, -, hget', hp, -⟩
    · rw [forsakenBy_of_input? hinput] at hx
      rw [permits_congr hsame]
      exact h x hx
    · rw [permits_of_get? hget']
      rw [forsakenBy, abandons_of_brings hbrings hget, Bool.or_eq_true, Bool.and_eq_true,
        Bool.not_eq_true'] at hx
      rcases hx with habandons | ⟨hforsaken, hungranted⟩
      · exact hconduct.strips (Participant.strips_of_abandons habandons)
      · have hp := h x hforsaken
        rw [permits_of_get? hget] at hp
        rw [← Bool.not_eq_true]
        intro hq
        rcases hconduct.gains hq with hp' | hgrants
        · rw [hp] at hp'
          cases hp'
        · rw [told_iff.mpr (cue_of_grants hbrings hgrants)] at hungranted
          cases hungranted
    · rw [permits_of_get? hget', hp]

variable {f g : Message → Bool} {b : Bool}

/-- What does not arrive at the arbitrator reports nothing to it. -/
theorem mem_rest_of_reports (hcue : ∀ message, cue ≠ some (.toArbitrator message))
    (hmail : s.mail = arriving cue ++ rest) {e : SessionEvent} (he : e ∈ s.mail)
    (hreports : e.reports x f = true) : e ∈ rest := by
  rw [hmail] at he
  refine (List.mem_append.mp he).resolve_left fun he => ?_
  have hevent : cue = some e := by simpa [arriving] using (List.mem_filter.mp he).1
  obtain ⟨message, rfl, -⟩ := SessionEvent.reports_iff.mp hreports
  exact hcue message hevent

theorem foreseen_arriving_unreported (hcue : ∀ message, cue ≠ some (.toArbitrator message)) :
    foreseen (·.reports x f) (·.reports x g) b (arriving cue) = b := by
  have hnot : ∀ f, ∀ e ∈ arriving cue, SessionEvent.reports x f e = false := by
    intro f e he
    rw [← Bool.not_eq_true]
    intro hreports
    obtain ⟨message, rfl, -⟩ := SessionEvent.reports_iff.mp hreports
    exact hcue message (by simpa [arriving] using (List.mem_filter.mp he).1)
  exact foreseen_of_unrelated (hnot f) (hnot g)

theorem reports_of_leads {before after : Places} {asked : Ssrc → Prop} {messages : List Envelope}
    (hleads : before.Leads asked messages after) {e : SessionEvent}
    (he : e ∈ messages.map (·.arrival)) : e.reports x f = false := by
  obtain ⟨receiver, message, rfl, -, -⟩ := mem_arbitrator_letters hleads.faithful he
  rfl

theorem reports_of_conduct {p q : Participant} {input : Participant.Input}
    {messages : List Envelope} (hconduct : p.Conduct input messages q) {e : SessionEvent}
    (he : e ∈ messages.map (·.arrival)) (hreports : e.reports x f = true) :
    p.ssrc = x ∧ ∃ message, Participant.letterFrom p.ssrc message ∈ messages ∧
      f message = true := by
  obtain ⟨letter, hletter, rfl⟩ := List.mem_map.mp he
  obtain ⟨m, rfl, hnamed⟩ := hconduct.letters letter hletter
  obtain ⟨message, heq, hssrc, hf⟩ := SessionEvent.reports_iff.mp hreports
  cases heq
  cases hnamed.symm.trans hssrc
  exact ⟨rfl, m, hletter, hf⟩

/-- A party is in a place after a step of the arbitrator only if it was in one or asked for one, and
did not give it back. -/
private theorem placed_of_leads {before after : Places} {messages : List Envelope}
    (hleads : before.Leads (Requests cue) messages after)
    (hunpromised : before.implicitRequest = none)
    (hgone : ∀ ssrc, cue = some (.toArbitrator (.release ssrc)) → ssrc ∉ after.placed)
    (hx : x ∈ after.placed) :
    foreseen (·.reports x Message.isRequest) (·.reports x Message.isRelease)
      (decide (x ∈ before.placed)) (arriving cue) = true := by
  have hstays : ∀ e ∈ arriving cue, SessionEvent.reports x Message.isRelease e = false := by
    intro e he
    have hevent : cue = some e := by simpa [arriving] using (List.mem_filter.mp he).1
    rw [← Bool.not_eq_true]
    intro hreports
    obtain ⟨message, rfl, hssrc, hrelease⟩ := SessionEvent.reports_iff.mp hreports
    cases message <;> simp only [Message.isRelease, Bool.false_eq_true] at hrelease
    cases hssrc
    exact hgone x hevent hx
  refine foreseen_of_lasting hstays ?_
  rcases hleads.placed x hx with hplaced | hpromised | ⟨message, rfl, r, rfl, rfl⟩
  · exact .inl (by simp [hplaced])
  · rw [hunpromised] at hpromised
    cases hpromised
  · refine .inr ⟨.toArbitrator (.request r), by simp [arriving, SessionEvent.isLetter], ?_⟩
    exact SessionEvent.reports_iff.mpr ⟨_, rfl, rfl, rfl⟩

/-- A party that has sent its release, or has not begun, asks for nothing in its turn. -/
private theorem returned_turn {p q : Participant} {input : Participant.Input}
    {messages : List Envelope} (hconduct : p.Conduct input messages q) (hnamed : p.ssrc = x)
    (hstate : q.state = .startStop ∨ q.state = .pendingRelease)
    (hplaced : foreseen (·.reports x Message.isRequest) (·.reports x Message.isRelease) b
      (messages.map (·.arrival)) = true) :
    b = true ∧ (p.state = .startStop ∨ p.state = .pendingRelease) := by
  have hnone : ∀ e ∈ messages.map (·.arrival), e.reports x Message.isRequest = false := by
    intro e he
    rw [← Bool.not_eq_true]
    intro hreports
    obtain ⟨-, message, hletter, hrequest⟩ := reports_of_conduct hconduct he hreports
    cases message <;> simp only [Message.isRequest, Bool.false_eq_true] at hrequest
    rw [hconduct.asks _ hletter] at hstate
    simp at hstate
  obtain ⟨hbefore, hkeeps⟩ := now_of_foreseen hnone hplaced
  have hsent : Participant.letterFrom p.ssrc (.release p.ssrc) ∉ messages := by
    intro hletter
    have hreports := hkeeps _ (List.mem_map.mpr ⟨_, hletter, rfl⟩)
    simp [Participant.letterFrom, Envelope.arrival, SessionEvent.reports, Message.ssrc?,
      Message.isRelease, hnamed] at hreports
  refine ⟨hbefore, ?_⟩
  rcases hstate with hstate | hstate
  · exact .inl (hconduct.starts hstate)
  · exact .inr ((hconduct.returns hstate).resolve_right hsent)

/-- A party that has sent its release is in no place when the release has arrived. -/
private theorem returned_move {letters : List SessionEvent} (horderly : s.Orderly)
    (hanatomy : Anatomy cue s s' rest letters)
    (h : ∀ x p, s.participants.get? x = some p →
      p.state = .startStop ∨ p.state = .pendingRelease → s.mayBePlaced x = false)
    (x : Ssrc) (p' : Participant) (hget' : s'.participants.get? x = some p')
    (hstate : p'.state = .startStop ∨ p'.state = .pendingRelease) :
    s'.mayBePlaced x = false := by
  rw [← Bool.not_eq_true]
  intro hplaced
  rw [mayBePlaced, hanatomy.after, foreseen_append] at hplaced
  have hbefore : (∀ message, cue ≠ some (.toArbitrator message)) →
      s'.places.placed = s.places.placed →
      foreseen (·.reports x Message.isRequest) (·.reports x Message.isRelease)
        (decide (x ∈ s'.places.placed)) rest = s.mayBePlaced x := by
    intro hcue hsame
    rw [mayBePlaced, hanatomy.before, foreseen_append, foreseen_arriving_unreported hcue, hsame]
  rcases hanatomy.concerns x (Roster.contains_of_get? hget') with
    ⟨-, hsame, hothers⟩ | ⟨hbrings, hget, hconduct, hget'', rfl, hplaces⟩ |
      ⟨hstranger, hnot, -, -, rfl⟩
  · have hreturned := h x p' (hsame ▸ hget') hstate
    rcases hanatomy.settles with ⟨hplaces, hcue, hletters⟩ | ⟨hleads, hgone, rfl⟩
    · rw [hbefore hcue (by rw [hplaces]; rfl), hreturned] at hplaced
      refine absurd (now_of_foreseen (fun e he => ?_) hplaced).1 (by simp)
      obtain ⟨message, rfl⟩ := hletters e he
      simp [SessionEvent.reports, hothers message he]
    · rw [foreseen_of_unrelated (fun _ => reports_of_leads hleads) fun _ => reports_of_leads hleads]
        at hplaced
      have hplaced : s.mayBePlaced x = true := by
        rw [mayBePlaced, hanatomy.before, foreseen_append]
        refine foreseen_mono (fun hx => ?_) hplaced
        have hasked := placed_of_leads hleads horderly.unpromised hgone (of_decide_eq_true hx)
        exact hasked
      rw [hreturned] at hplaced
      cases hplaced
  · rw [hget''] at hget'
    cases hget'
    obtain ⟨hnow, hp⟩ := returned_turn hconduct (horderly.named x _ hget) hstate hplaced
    rw [hbefore (not_toArbitrator_of_brings hbrings) (by rw [hplaces]), h x _ hget hp] at hnow
    cases hnow
  · have hnone : ∀ f, ∀ e ∈ rest, SessionEvent.reports x f e = false := by
      intro f e he
      rw [← Bool.not_eq_true]
      intro hreports
      obtain ⟨message, rfl, hssrc, -⟩ := SessionEvent.reports_iff.mp hreports
      exact hstranger _ (mem_of_mem_rest hanatomy.before he) hssrc
    rw [foreseen_nil, foreseen_of_unrelated (hnone _) (hnone _), decide_eq_true_eq] at hplaced
    exact hnot hplaced

/-- A talker that takes its turn and sends no release goes on minding the floor. -/
private theorem minds_turn {ssrc : Ssrc} {p q : Participant} {input : Participant.Input}
    {messages : List Envelope} (horderly : s.Orderly) (h : s.Served forsaken)
    (hmail : s.mail = arriving cue ++ rest) (hbrings : Brings cue ssrc input)
    (hget : s.participants.get? ssrc = some p) (hconduct : p.Conduct input messages q)
    (hx : ssrc ∈ s.places.talkers)
    (hkept : ∀ e ∈ s.mail, e.reports ssrc Message.isRelease = false)
    (hsent : Participant.letterFrom p.ssrc (.release p.ssrc) ∉ messages)
    (hminds : foreseen (·.tells ssrc Message.isGrant) (·.tells ssrc Message.refuses)
      (permits s.participants ssrc || forsaken ssrc) (arriving cue) = true) :
    (q.permitted || forsakenBy forsaken s cue ssrc) = true := by
  rw [forsakenBy, abandons_of_brings hbrings hget, Bool.or_eq_true, Bool.or_eq_true]
  have hpermitted : p.permitted = true →
      (∀ message, input = .receive message → message.refuses = false) →
      q.permitted = true ∨ p.abandons input = true := by
    intro hp hunrefused
    rcases hconduct.keeps hp with hq | hletter | ⟨message, rfl, hrefuses⟩ | habandons
    · exact .inl hq
    · exact absurd hletter hsent
    · have hrefuses : message.refuses = true := hrefuses
      rw [hunrefused message rfl] at hrefuses
      cases hrefuses
    · exact .inr habandons
  by_cases hgranted : Told cue ssrc Message.isGrant = true
  · obtain ⟨message, rfl, hgrant⟩ := told_iff.mp hgranted
    obtain rfl : input = .receive message := by
      simpa [Brings, SessionEvent.input?] using hbrings.symm
    have hnamed : message.ssrc? = some p.ssrc := by
      rw [horderly.named ssrc p hget]
      refine horderly.granted ssrc message ?_ hgrant
      rw [hmail]
      simp [arriving, SessionEvent.isLetter]
    by_cases hstate : p.state = .startStop ∨ p.state = .pendingRelease
    · have hreturned := h.returned ssrc p hget hstate
      have hplaced : s.mayBePlaced ssrc = true :=
        foreseen_of_lasting hkept (.inl (decide_eq_true (Places.talkers_subset_placed hx)))
      rw [hreturned] at hplaced
      cases hplaced
    · rw [not_or] at hstate
      rcases hconduct.accepts message rfl hgrant hnamed hstate.1 hstate.2 with hq | hletter
      · exact .inl hq
      · exact absurd hletter hsent
  · have hnow : (permits s.participants ssrc || forsaken ssrc) = true ∧
        ∀ message, input = .receive message → message.refuses = false := by
      by_cases harrives : ∃ message, cue = some (.toParticipant ssrc message)
      · obtain ⟨message, rfl⟩ := harrives
        obtain rfl : input = .receive message := by
          simpa [Brings, SessionEvent.input?] using hbrings.symm
        rw [foreseen_arriving, Bool.or_eq_true, Bool.and_eq_true, Bool.not_eq_true'] at hminds
        have hminds := hminds.resolve_left fun hgrant =>
          hgranted (told_iff.mpr ⟨message, rfl, hgrant⟩)
        exact ⟨hminds.1, by rintro _ ⟨⟩; exact hminds.2⟩
      · rw [not_exists] at harrives
        rw [foreseen_arriving_elsewhere harrives] at hminds
        refine ⟨hminds, ?_⟩
        rintro message rfl
        exact absurd (cue_of_receive hbrings) (harrives message)
    rw [permits_of_get? hget, Bool.or_eq_true] at hnow
    rw [Bool.not_eq_true] at hgranted
    rcases hnow.1 with hp | hforsaken
    · exact (hpermitted hp hnow.2).imp_right .inl
    · exact .inr (.inr (by simp [hforsaken, hgranted]))

/-- A step of the arbitrator turns no talker away and grants the floor to every new one. -/
private theorem minds_leads {before after : Places} {asked : Ssrc → Prop}
    {messages : List Envelope} (hleads : before.Leads asked messages after)
    (hunpromised : before.implicitRequest = none) (hx : x ∈ after.talkers)
    (h : x ∈ before.talkers → (∃ e ∈ rest, e.reports x Message.isRelease = true) ∨
      foreseen (·.tells x Message.isGrant) (·.tells x Message.refuses) b rest = true) :
    (∃ e ∈ rest ++ messages.map (·.arrival), e.reports x Message.isRelease = true) ∨
      foreseen (·.tells x Message.isGrant) (·.tells x Message.refuses) b
        (rest ++ messages.map (·.arrival)) = true := by
  have hwelcome : ∀ e ∈ messages.map (·.arrival), e.tells x Message.refuses = false := by
    intro e he
    rw [← Bool.not_eq_true]
    intro htells
    obtain ⟨message, rfl, hrefuses⟩ := SessionEvent.tells_iff.mp htells
    obtain ⟨_, _, heq, -, htruthful⟩ := mem_arbitrator_letters hleads.faithful he
    cases heq
    cases message with
    | idle =>
      have hpromised := htruthful hx
      rw [hunpromised] at hpromised
      cases hpromised
    | denied => exact htruthful hx
    | _ => cases hrefuses
  rw [foreseen_append]
  by_cases hold : x ∈ before.talkers
  · rcases h hold with ⟨e, he, hrelease⟩ | hminds
    · exact .inl ⟨e, List.mem_append_left _ he, hrelease⟩
    · exact .inr (foreseen_of_lasting hwelcome (.inl hminds))
  · obtain ⟨message, hmessage, hgrant⟩ := hleads.granted x hx hold
    refine .inr (foreseen_of_lasting hwelcome (.inr ⟨_, List.mem_map.mpr ⟨_, hmessage, rfl⟩, ?_⟩))
    exact SessionEvent.tells_iff.mpr ⟨message, rfl, hgrant⟩

/-- A talker gives the floor back or goes on minding it in its turn. -/
private theorem minded_turn {p q : Participant} {input : Participant.Input}
    {messages : List Envelope} (horderly : s.Orderly) (h : s.Served forsaken)
    (hmail : s.mail = arriving cue ++ rest) (hbrings : Brings cue x input)
    (hget : s.participants.get? x = some p) (hconduct : p.Conduct input messages q)
    (hx : x ∈ s.places.talkers) :
    (∃ e ∈ rest ++ messages.map (·.arrival), e.reports x Message.isRelease = true) ∨
      foreseen (·.tells x Message.isGrant) (·.tells x Message.refuses)
        (q.permitted || forsakenBy forsaken s cue x) (rest ++ messages.map (·.arrival)) = true := by
  by_cases hrelease : ∃ e ∈ rest ++ messages.map (·.arrival), e.reports x Message.isRelease = true
  · exact .inl hrelease
  refine .inr ?_
  simp only [not_exists, not_and, Bool.not_eq_true] at hrelease
  have hkept : ∀ e ∈ s.mail, e.reports x Message.isRelease = false := by
    intro e he
    rw [← Bool.not_eq_true]
    intro hreports
    have hmem := mem_rest_of_reports (not_toArbitrator_of_brings hbrings) hmail he hreports
    rw [hrelease e (List.mem_append_left _ hmem)] at hreports
    cases hreports
  have hsent : Participant.letterFrom p.ssrc (.release p.ssrc) ∉ messages := by
    intro hletter
    have hunsent := hrelease _ (List.mem_append_right _ (List.mem_map.mpr ⟨_, hletter, rfl⟩))
    simp [Participant.letterFrom, Envelope.arrival, SessionEvent.reports, Message.ssrc?,
      Message.isRelease, horderly.named x p hget] at hunsent
  have hminds : s.minds forsaken x = true := by
    refine (h.minded x hx).resolve_left ?_
    rintro ⟨e, he, hreports⟩
    rw [hkept e he] at hreports
    cases hreports
  rw [minds, hmail, foreseen_append] at hminds
  have hsilent : ∀ f, ∀ e ∈ messages.map (·.arrival), SessionEvent.tells x f e = false :=
    fun f e he => tells_toArbitrator (toArbitrator_of_conduct hconduct he)
  rw [foreseen_append, foreseen_of_unrelated (hsilent _) (hsilent _)]
  exact foreseen_mono (minds_turn horderly h hmail hbrings hget hconduct hx hkept hsent) hminds

private theorem minded_move {letters : List SessionEvent} (horderly : s.Orderly)
    (horderly' : s'.Orderly) (hanatomy : Anatomy cue s s' rest letters) (h : s.Served forsaken)
    (hx : x ∈ s'.places.talkers) :
    (∃ e ∈ s'.mail, e.reports x Message.isRelease = true) ∨
      s'.minds (forsakenBy forsaken s cue) x = true := by
  have hcontains : s'.participants.contains x = true := by
    rw [← horderly'.known]
    exact (horderly'.sound.entitled x (Places.talkers_subset_placed hx)).contains
  rw [minds, hanatomy.after]
  rcases hanatomy.concerns x hcontains with
    ⟨hinput, hsame, -⟩ | ⟨hbrings, hget, hconduct, hget', rfl, hplaces⟩ | ⟨-, hnot, -, -, -⟩
  · rw [forsakenBy_of_input? hinput, permits_congr hsame]
    have hearlier : x ∈ s.places.talkers →
        (∃ e ∈ s.mail, e.reports x Message.isRelease = true) ∨
          foreseen (·.tells x Message.isGrant) (·.tells x Message.refuses)
            (permits s.participants x || forsaken x) rest = true := by
      refine fun hx => (h.minded x hx).imp_right fun hminds => ?_
      rwa [minds, hanatomy.before, foreseen_append,
        foreseen_arriving_elsewhere (not_toParticipant_of_input? hinput)] at hminds
    rcases hanatomy.settles with ⟨hplaces, hcue, hletters⟩ | ⟨hleads, hgone, rfl⟩
    · have hx : x ∈ s.places.talkers := by
        rw [hplaces] at hx
        exact hx
      rcases hearlier hx with ⟨e, he, hreports⟩ | hminds
      · have hmem := mem_rest_of_reports hcue hanatomy.before he hreports
        exact .inl ⟨e, List.mem_append_left _ hmem, hreports⟩
      · rw [foreseen_append, foreseen_of_unrelated (fun e he => tells_toArbitrator (hletters e he))
          fun e he => tells_toArbitrator (hletters e he)]
        exact .inr hminds
    · refine minds_leads hleads horderly.unpromised hx fun hold => ?_
      refine (hearlier hold).imp_left ?_
      rintro ⟨e, he, hreports⟩
      rw [hanatomy.before] at he
      refine ⟨e, (List.mem_append.mp he).resolve_left fun he => ?_, hreports⟩
      have hevent : cue = some e := by simpa [arriving] using (List.mem_filter.mp he).1
      obtain ⟨message, rfl, hssrc, hrelease⟩ := SessionEvent.reports_iff.mp hreports
      cases message <;> simp only [Message.isRelease, Bool.false_eq_true] at hrelease
      cases hssrc
      exact hgone x hevent (Places.talkers_subset_placed hx)
  · rw [hplaces] at hx
    rw [permits_of_get? hget']
    exact minded_turn horderly h hanatomy.before hbrings hget hconduct hx
  · exact absurd (Places.talkers_subset_placed hx) hnot

/-- Every move keeps the floor served. -/
theorem served_move (hmove : Move cue s s') (horderly : s.Orderly) (h : s.Served forsaken) :
    s'.Served (forsakenBy forsaken s cue) := by
  obtain ⟨rest, letters, hanatomy⟩ := exists_anatomy hmove horderly
  exact {
    minded := fun _ hx => minded_move horderly (orderly_move hmove horderly) hanatomy h hx
    returned := returned_move horderly hanatomy h.returned
    forsaken := permits_forsaken hanatomy h.forsaken }

end Scene

namespace Session

open Scene

variable {config : SessionConfig} {phase : Phase} {h : History} {r : Run} {x : Ssrc}

def Happening.abandons (ssrc : Ssrc) (e : Happening) : Bool :=
  match e.what with
  | .delivery event =>
    (e.before.participants.get? ssrc).any fun p => (event.input? ssrc).any p.abandons
  | .operation _ => false

/-- Whether a party has given the floor up without a release since it was last granted the
floor. -/
def History.forsaken (h : History) (ssrc : Ssrc) : Bool :=
  h.lasts (Happening.abandons ssrc) (Happening.grants ssrc)

private theorem invariant_served : Invariant config fun h s => s.Served h.forsaken where
  created callId callType now := by
    refine ⟨?_, ?_, ?_⟩
    · intro x hx
      cases hx
    · intro x p hget
      cases hget
    · intro x hforsaken
      cases hforsaken
  operated h e op s hwhat hinv := by
    have hsame : History.forsaken (e :: h) = h.forsaken := by
      funext x
      simp [History.forsaken, History.lasts, Happening.abandons, Happening.grants, hwhat]
    rwa [hsame]
  moved h s s' horderly _ hmove hinv := by
    have hsame : forsakenBy h.forsaken s none = h.forsaken :=
      funext fun x => forsakenBy_of_input? (by simp)
    rw [← hsame]
    exact served_move hmove horderly hinv
  delivered h before event s' horderly _ hmove hinv := served_move hmove horderly hinv

/-- When no message is on its way, the party that holds the floor is one of the participants, and it
is permitted to talk, or has only to accept the floor, exactly if it has not given the floor up
without a release since it was last granted the floor. -/
theorem holder_permitted_iff_not_forsaken (hr : Reached config phase h r) (hjoin : h.NoRejoin)
    (hassist : h.Unassisted) (hactive : r.state.active = true) (hmail : r.state.mail = [])
    (hx : r.state.holder? = some x) :
    ∃ p, r.state.participants.get? x = some p ∧ (p.permitted = true ↔ h.forsaken x = false) := by
  rw [holder?, Option.map_eq_some_iff] at hx
  obtain ⟨who, hholder, rfl⟩ := hx
  rcases hr.open_or_closed invariant_served hjoin hassist with ⟨hopen, -⟩ | ⟨hclosed, -⟩
  swap
  · rw [hclosed.holder_eq_none hactive] at hholder
    cases hholder
  have hserved := hopen.invariant
  have htalks : who.ssrc ∈ (r.state.scene h).places.talkers :=
    Arbitrator.Places.holder_mem_talkers hholder
  have hcontains : r.state.participants.contains who.ssrc = true := by
    have hknown := hopen.orderly.known who.ssrc
    rw [(hopen.orderly.sound.entitled _
      (Arbitrator.Places.talkers_subset_placed htalks)).contains] at hknown
    exact hknown.symm
  obtain ⟨p, hget⟩ := Roster.exists_get?_of_contains hcontains
  have hrest : (r.state.scene h).mail = [] := hmail
  have hminds : (permits r.state.participants who.ssrc || h.forsaken who.ssrc) = true := by
    refine (hserved.minded _ htalks).elim (fun ⟨e, he, _⟩ => ?_) fun hminds => ?_
    · rw [hrest] at he
      cases he
    · rw [minds, hrest] at hminds
      exact hminds
  have hnever := hserved.forsaken who.ssrc
  change _ → permits r.state.participants who.ssrc = false at hnever
  rw [permits_of_get? hget] at hminds hnever
  refine ⟨p, hget, ?_, fun hforsaken => ?_⟩
  · intro hp
    rw [← Bool.not_eq_true]
    intro hforsaken
    rw [hnever hforsaken] at hp
    cases hp
  · rwa [hforsaken, Bool.or_false] at hminds

/-- When the floor has changed hands and has not been accepted yet, the party that holds it has only
to accept it unless it has given it up. -/
theorem holder_permitted_handover :
    ∃ h r, play? handover ⟨Session.create 1 .basic {} 0, []⟩ = some r ∧
      Reached {} .resting h r ∧ r.state.holder? = some 2 ∧
      ∃ p, r.state.participants.get? 2 = some p ∧
        (p.permitted = true ↔ h.forsaken 2 = false) := by
  have hplayed : ∃ r, play? handover ⟨Session.create 1 .basic {} 0, []⟩ = some r ∧
      (r.state.active && decide (r.state.mail = []) && decide (r.state.holder? = some 2)) = true :=
    (Option.any_eq_true _ _).mp (by decide +kernel)
  obtain ⟨r, hr, hcheck⟩ := hplayed
  simp only [Bool.and_eq_true, decide_eq_true_eq] at hcheck
  obtain ⟨⟨hactive, hmail⟩, hholder⟩ := hcheck
  obtain ⟨h, hreached, hjoin, hassist⟩ := Reached.of_play? hr (by simp [handover])
    (by simp [handover])
  exact ⟨h, r, hr, hreached, hholder,
    holder_permitted_iff_not_forsaken hreached hjoin hassist hactive hmail hholder⟩

/-- A party whose turn has come asks for its place in the queue instead of accepting the floor. It
has no place there, so nobody answers, and it goes back to wanting nothing while it holds the
floor. -/
theorem forsaken_floor_stranded :
    ∃ h r p, SessionConfig.fault? {} = none ∧
      play? (handover ++ [.askPosition 2, .advanceBy 500]) ⟨Session.create 1 .basic {} 0, []⟩ =
        some r ∧
      Reached {} .resting h r ∧ h.NoRejoin ∧ h.Unassisted ∧ r.state.active = true ∧
      r.state.mail = [] ∧ r.state.holder? = some 2 ∧ r.state.participants.get? 2 = some p ∧
      p.state = .idle := by
  have hplayed : ∃ r, play? (handover ++ [.askPosition 2, .advanceBy 500])
      ⟨Session.create 1 .basic {} 0, []⟩ = some r ∧
      (r.state.active && decide (r.state.mail = []) && decide (r.state.holder? = some 2) &&
        (r.state.participants.get? 2).any (·.state = .idle)) = true :=
    (Option.any_eq_true _ _).mp (by decide +kernel)
  obtain ⟨r, hr, hcheck⟩ := hplayed
  simp only [Bool.and_eq_true, decide_eq_true_eq] at hcheck
  obtain ⟨⟨⟨hactive, hmail⟩, hholder⟩, hidle⟩ := hcheck
  obtain ⟨p, hget, hp⟩ := (Option.any_eq_true _ _).mp hidle
  obtain ⟨h, hreached, hjoin, hassist⟩ := Reached.of_play? hr (by simp [handover])
    (by simp [handover])
  exact ⟨h, r, p, by decide, hr, hreached, hjoin, hassist, hactive, hmail, hholder, hget,
    of_decide_eq_true hp⟩

end Session
end FloorControl
