import FloorControl.Proofs.CallMoves
import FloorControl.Proofs.Foresight

/-!
# Agreement at rest

When no message is on its way, a participant that is permitted to talk, or has only to accept the
floor, is one of the talkers of the arbitrator, with one exception. The end of a second place is
announced to its talker as a plain change of the holder. A participant that talks gives the floor up
when it is told so; one that waits for its user to accept the floor goes on waiting, and once the
user accepts, it talks without being passed on. Such a participant is misled, until it is granted
the floor again. Misled participants are told apart exactly: they are those without a place.
-/

namespace FloorControl

namespace Message

def dismisses (ssrc : Ssrc) (message : Message) : Bool :=
  message.isIdle || message.endsSecond ssrc

end Message

namespace Scene

open Arbitrator

variable {s s' : Scene} {cue : Option SessionEvent} {rest : List SessionEvent} {x : Ssrc}
  {misled : Ssrc → Bool}

def awaits (participants : Roster Participant) (ssrc : Ssrc) : Bool :=
  (participants.get? ssrc).any fun p => p.state = .queued && p.grantPending

/-- Whether the cue tells a party that has only to accept the floor, and has no place any more, that
somebody else has the floor. -/
def misleads (s : Scene) (cue : Option SessionEvent) (ssrc : Ssrc) : Bool :=
  Told cue ssrc (·.yieldsTo ssrc) && awaits s.participants ssrc &&
    decide (ssrc ∉ s.places.talkers)

def misledBy (misled : Ssrc → Bool) (s : Scene) (cue : Option SessionEvent) (ssrc : Ssrc) : Bool :=
  s.misleads cue ssrc || (misled ssrc && !Told cue ssrc Message.isGrant)

/-- Whether a party will be permitted to talk when the given messages have arrived, unless it is
misled now. -/
def trusts (misled : Ssrc → Bool) (participants : Roster Participant) :
    List SessionEvent → Ssrc → Bool :=
  willTalk participants (fun ssrc => permits participants ssrc && !misled ssrc) Message.dismisses

/-- Whoever will be permitted to talk is a talker unless it is misled, and a misled party that is a
talker is about to be granted the floor. -/
structure Agrees (misled : Ssrc → Bool) (s : Scene) : Prop where
  talks : ∀ x, trusts misled s.participants s.mail x = true → x ∈ s.places.talkers
  regranted : ∀ x, misled x = true → x ∈ s.places.talkers →
    ∃ e ∈ s.mail, e.tells x Message.isGrant = true

theorem misledBy_of_untold (h : ∀ message, cue ≠ some (.toParticipant x message)) :
    misledBy misled s cue x = misled x := by
  have htold : ∀ f, Told cue x f = false := by
    intro f
    rw [← Bool.not_eq_true, told_iff]
    rintro ⟨message, heq, -⟩
    exact h message heq
  simp [misledBy, misleads, htold]

theorem misledBy_of_mem_talkers (hx : x ∈ s.places.talkers) :
    misledBy misled s cue x = (misled x && !Told cue x Message.isGrant) := by
  simp [misledBy, misleads, hx]

private theorem Agrees.of_letters {letters : List SessionEvent} (h : s.Agrees misled)
    (hletters : ∀ e ∈ letters, ∃ message, e = .toArbitrator message) :
    Agrees misled { s with mail := s.mail ++ letters } where
  talks x hx := h.talks x
    (willTalk_of_no_grant hx fun e he => tells_toArbitrator (hletters e he)).1
  regranted x hmisled hx := by
    obtain ⟨e, he, hgrant⟩ := h.regranted x hmisled hx
    exact ⟨e, List.mem_append_left _ he, hgrant⟩

/-- A step of the arbitrator tells everybody whose place it ends. -/
private theorem dismissed_of_leads {before after : Places} {asked : Ssrc → Prop}
    {messages : List Envelope} (hleads : before.Leads asked messages after)
    (hx : x ∈ before.talkers) (hnot : x ∉ after.talkers)
    (hcontains : after.roster.contains x = true) :
    ∃ e ∈ messages.map (·.arrival), e.tells x (Message.dismisses x) = true := by
  rcases Places.mem_talkers.mp hx with ⟨h, hh, rfl⟩ | ⟨s, hs, rfl⟩
  · obtain ⟨first, later, ack, rfl, hidle, -⟩ := hleads.dismissed h hh
      (fun who hwho heq => hnot (heq ▸ Places.holder_mem_talkers hwho)) hcontains
    refine ⟨_, List.mem_map.mpr ⟨_, List.mem_append_left _ hidle, rfl⟩, ?_⟩
    exact SessionEvent.tells_iff.mpr ⟨_, rfl, rfl⟩
  · obtain ⟨message, hmessage, hends⟩ := hleads.relieved s hs hnot hcontains
    refine ⟨_, List.mem_map.mpr ⟨_, hmessage, rfl⟩, ?_⟩
    exact SessionEvent.tells_iff.mpr ⟨message, rfl, by simp [Message.dismisses, hends]⟩

private theorem agrees_leads {before after : Places} {asked : Ssrc → Prop}
    {messages : List Envelope} {participants : Roster Participant} {departed gone : List Ssrc}
    (hleads : before.Leads asked messages after)
    (hknown : ∀ ssrc, after.roster.contains ssrc = participants.contains ssrc)
    (h : Agrees misled ⟨before, participants, rest, departed⟩) :
    Agrees misled ⟨after, participants, rest ++ messages.map (·.arrival), gone⟩ := by
  constructor
  · intro x hx
    by_contra hnot
    have hnone : ∀ e ∈ messages.map (·.arrival), e.tells x Message.isGrant = false := by
      intro e he
      rw [← Bool.not_eq_true]
      exact fun hgrant => hnot (mem_talkers_of_granted hleads.faithful he hgrant)
    obtain ⟨htrusts, hstays⟩ := willTalk_of_no_grant hx hnone
    have hcontains : after.roster.contains x = true := by
      rw [hknown]
      exact (willTalk_iff.mp htrusts).1
    obtain ⟨e, he, hdismisses⟩ := dismissed_of_leads hleads (h.talks x htrusts) hnot hcontains
    rw [hstays e he] at hdismisses
    cases hdismisses
  · intro x hmisled hx
    by_cases hold : x ∈ before.talkers
    · obtain ⟨e, he, hgrant⟩ := h.regranted x hmisled hold
      exact ⟨e, List.mem_append_left _ he, hgrant⟩
    · obtain ⟨message, hmessage, hgrant⟩ := hleads.granted x hx hold
      refine ⟨_, List.mem_append_right _ (List.mem_map.mpr ⟨_, hmessage, rfl⟩), ?_⟩
      exact SessionEvent.tells_iff.mpr ⟨message, rfl, hgrant⟩

/-- A party without a place that is permitted to talk after its turn, and is not misled by then,
trusted what arrived. -/
private theorem trusts_turn {ssrc : Ssrc} {p q : Participant} {input : Participant.Input}
    {messages : List Envelope} (horderly : s.Orderly) (hbrings : Brings cue ssrc input)
    (hget : s.participants.get? ssrc = some p) (hconduct : p.Conduct input messages q)
    (hnot : ssrc ∉ s.places.talkers) (hq : q.permitted = true)
    (hmisled : misledBy misled s cue ssrc = false) :
    foreseen (·.tells ssrc Message.isGrant) (·.tells ssrc (Message.dismisses ssrc))
      (permits s.participants ssrc && !misled ssrc) (arriving cue) = true := by
  rw [misledBy, Bool.or_eq_false_iff] at hmisled
  obtain ⟨hmisleads, hkept⟩ := hmisled
  cases hbefore : misled ssrc with
  | true =>
    rw [hbefore, Bool.true_and, Bool.not_eq_false', told_iff] at hkept
    obtain ⟨message, rfl, hgrant⟩ := hkept
    rw [foreseen_arriving, hgrant, Bool.true_or]
  | false =>
    rw [permits_of_get? hget, Bool.not_false, Bool.and_true]
    refine permitted_arriving hbrings hconduct hq ?_
    rintro message rfl hp hdismisses
    obtain rfl := cue_of_receive hbrings
    have hssrc := horderly.named ssrc p hget
    -- Only a plain change of the holder is not heeded, and that would have misled the party.
    have hyields : message.yieldsTo ssrc = true → p.state ≠ .queued := by
      intro hyields hstate
      have hgrant : p.grantPending = true := by
        simpa [Participant.permitted, hstate] using hp
      simp [misleads, Told, SessionEvent.tells, hyields, awaits, hget, hstate, hgrant, hnot]
        at hmisleads
    cases message with
    | taken named dual ack =>
      have hyields' : (Message.taken named dual ack).yieldsTo ssrc = true := by
        simpa [Message.dismisses, Message.isIdle, Message.endsSecond] using hdismisses
      simp [Participant.strips, hssrc, hyields', hyields hyields']
    | idle | revoke => rfl
    | _ => cases hdismisses

/-- A party without a place that will be permitted to talk trusted what arrived. -/
private theorem trusts_of_anatomy {letters : List SessionEvent} (horderly : s.Orderly)
    (hanatomy : Anatomy cue s s' rest letters) (hnot : x ∉ s.places.talkers)
    (h : trusts (misledBy misled s cue) s'.participants rest x = true) :
    trusts misled s.participants s.mail x = true := by
  rw [hanatomy.before]
  refine willTalk_of_anatomy hanatomy ?_ ?_ (fun hp => by simp [hp]) (List.prefix_refl _) h
  · intro hinput hsame hnow
    rwa [permits_congr hsame, misledBy_of_untold (not_toParticipant_of_input? hinput)] at hnow
  · intro p q input messages hbrings hget hconduct hget' hnow
    rw [permits_of_get? hget', Bool.and_eq_true, Bool.not_eq_true'] at hnow
    exact trusts_turn horderly hbrings hget hconduct hnot hnow.1 hnow.2

/-- Every move keeps the agreement between the participants and the places. -/
theorem agrees_move (hmove : Move cue s s') (horderly : s.Orderly) (h : s.Agrees misled) :
    s'.Agrees (misledBy misled s cue) := by
  have hknown := (orderly_move hmove horderly).known
  obtain ⟨rest, letters, hanatomy⟩ := exists_anatomy hmove horderly
  have hrest : ∀ places, places.talkers = s.places.talkers →
      Agrees (misledBy misled s cue) ⟨places, s'.participants, rest, s'.departed⟩ := by
    intro places htalkers
    constructor
    · intro x hx
      change x ∈ places.talkers
      rw [htalkers]
      by_contra hnot
      exact hnot (h.talks x (trusts_of_anatomy horderly hanatomy hnot hx))
    · intro x hmisled hx
      rw [htalkers] at hx
      rw [misledBy_of_mem_talkers hx, Bool.and_eq_true, Bool.not_eq_true'] at hmisled
      obtain ⟨e, he, hgrant⟩ := h.regranted x hmisled.1 hx
      rw [hanatomy.before] at he
      rcases List.mem_append.mp he with he | he
      · have hcue : cue = some e := by simpa [arriving] using (List.mem_filter.mp he).1
        rw [hcue, Told, Option.any_some, hgrant] at hmisled
        cases hmisled.2
      · exact ⟨e, he, hgrant⟩
  obtain ⟨places', participants', mail', departed'⟩ := s'
  obtain rfl : mail' = rest ++ letters := hanatomy.after
  rcases hanatomy.settles with ⟨hplaces, -, hletters⟩ | ⟨hleads, -, rfl⟩
  · have hplaces : places' = { s.places with roster := places'.roster } := hplaces
    refine (hrest places' ?_).of_letters hletters
    rw [hplaces]
    rfl
  · exact agrees_leads hleads hknown (hrest _ rfl)

end Scene

namespace Session

open Scene

variable {config : SessionConfig} {phase : Phase} {h : History} {r : Run} {x : Ssrc}
  {p : Participant}

/-- Whether the happening tells a party that has only to accept the floor, and whose speech is not
passed on any more, that somebody else has the floor. -/
def Happening.misleads (ssrc : Ssrc) (e : Happening) : Bool :=
  match e.what with
  | .delivery event =>
    event.tells ssrc (·.yieldsTo ssrc) && awaits e.before.participants ssrc &&
      !e.before.arbitrator.passesMedia ssrc
  | .operation _ => false

/-- Whether a party has been misled since it was last granted the floor. -/
def History.misled (h : History) (ssrc : Ssrc) : Bool :=
  h.lasts (Happening.misleads ssrc) (Happening.grants ssrc)

private theorem misled_delivery (before : Session) (event : SessionEvent)
    (hsound : before.arbitrator.places.Sound) :
    History.misled (⟨before, .delivery event⟩ :: h) =
      misledBy h.misled (before.scene h) (some event) := by
  funext x
  have hpasses : (!before.arbitrator.passesMedia x) =
      decide (x ∉ before.arbitrator.places.talkers) := by
    rw [Bool.eq_iff_iff, Bool.not_eq_true', ← Bool.not_eq_true, Arbitrator.passesMedia_iff hsound,
      decide_eq_true_eq]
  simp only [History.misled, History.lasts, Happening.misleads, Happening.grants, hpasses]
  rfl

private theorem invariant_agrees : Invariant config fun h s => s.Agrees h.misled where
  created callId callType now := by
    constructor
    · intro x hx
      cases hx
    · intro x hmisled
      cases hmisled
  operated h e op s hwhat hinv := by
    have hsame : History.misled (e :: h) = h.misled := by
      funext x
      simp [History.misled, History.lasts, Happening.misleads, Happening.grants, hwhat]
    rwa [hsame]
  moved h s s' horderly _ hmove hinv := by
    have hsame : misledBy h.misled s none = h.misled :=
      funext fun x => misledBy_of_untold (by simp)
    rw [← hsame]
    exact agrees_move hmove horderly hinv
  delivered h before event s' horderly _ hmove hinv := by
    rw [misled_delivery before event horderly.sound]
    exact agrees_move hmove horderly hinv

/-- When no message is on its way, a participant that is permitted to talk, or has only to accept
the floor, is a talker of the arbitrator, and whatever it sends is passed on, exactly if it has not
been misled since it was last granted the floor. -/
theorem talker_iff_not_misled (hr : Reached config phase h r) (hjoin : h.NoRejoin)
    (hassist : h.Unassisted) (hmail : r.state.mail = [])
    (hget : r.state.participants.get? x = some p) (hp : p.permitted = true) :
    ((r.state.arbitrator.isHolder x || r.state.arbitrator.dual.isTalker x) = true ↔
        h.misled x = false) ∧
      ∀ frame stamped, r.state.stampMedia x frame = .ok stamped →
        (r.state.relaysMedia stamped = true ↔ h.misled x = false) := by
  rcases hr.open_or_closed invariant_agrees hjoin hassist with ⟨hopen, -⟩ | ⟨hclosed, -⟩
  swap
  · obtain ⟨hstate, -⟩ := hclosed.silent x p hget
    simp [Participant.permitted, hstate] at hp
  have hagrees := hopen.invariant
  have htalks : x ∈ r.state.arbitrator.places.talkers ↔ h.misled x = false := by
    constructor
    · intro hx
      by_contra hmisled
      rw [Bool.not_eq_false] at hmisled
      obtain ⟨e, he, -⟩ := hagrees.regranted x hmisled hx
      have he : e ∈ r.state.mail := he
      rw [hmail] at he
      cases he
    · intro hmisled
      refine hagrees.talks x (willTalk_iff.mpr ⟨Roster.contains_of_get? hget, ?_⟩)
      have hrest : (r.state.scene h).mail = [] := hmail
      rw [hrest, foreseen_nil, hmisled]
      change (permits r.state.participants x && !false) = true
      rw [permits_of_get? hget, hp]
      rfl
  refine ⟨Arbitrator.mem_talkers_places.symm.trans htalks, fun frame stamped hstamped => ?_⟩
  have hsender : stamped.ssrc = x := by
    simp only [stampMedia, hopen.active, Bool.not_true, Bool.false_eq_true, if_false, hget,
      Participant.stampMedia] at hstamped
    split at hstamped
    · cases hstamped
      exact hopen.orderly.named x p hget
    · cases hstamped
  rw [relaysMedia, hopen.active, Bool.true_and, hsender,
    Arbitrator.passesMedia_iff hopen.orderly.sound]
  exact htalks

/-- When the floor has changed hands and has not been accepted yet, the party whose turn has come is
a talker. -/
theorem talker_iff_not_misled_handover :
    ∃ h r p, play? handover ⟨Session.create 1 .basic {} 0, []⟩ = some r ∧
      Reached {} .resting h r ∧ r.state.mail = [] ∧
      r.state.participants.get? 2 = some p ∧ p.permitted = true ∧
      ((r.state.arbitrator.isHolder 2 || r.state.arbitrator.dual.isTalker 2) = true ↔
        h.misled 2 = false) := by
  have hplayed : ∃ r, play? handover ⟨Session.create 1 .basic {} 0, []⟩ = some r ∧
      (decide (r.state.mail = []) && (r.state.participants.get? 2).any (·.permitted)) = true :=
    (Option.any_eq_true _ _).mp (by decide +kernel)
  obtain ⟨r, hr, hcheck⟩ := hplayed
  rw [Bool.and_eq_true, decide_eq_true_eq] at hcheck
  obtain ⟨p, hget, hp⟩ := (Option.any_eq_true _ _).mp hcheck.2
  obtain ⟨h, hreached, hjoin, hassist⟩ := Reached.of_play? hr (by simp [handover])
    (by simp [handover])
  exact ⟨h, r, p, hr, hreached, hcheck.1, hget, hp,
    (talker_iff_not_misled hreached hjoin hassist hcheck.1 hget hp).1⟩

def slowCall : SessionConfig where
  arbitrator := { dualFloorSupported := true }
  participant := { t100 := 1, c100Limit := 1 }
  linkDelay := 10

/-- One party talks. The other asks for the floor and gives the wish up, asks for the second place
and gives it up, and asks to wait, all before it has got an answer. -/
def hasty : List Operation :=
  [.join 1 5 true, .join 2 5 false, .setUpAll, .advanceTo 10, .push 1, .advanceTo 30,
    .push 2, .releaseTalk 2, .advanceTo 31,
    .setDual 2 true, .setIndicator 2 (some .emergency), .push 2, .releaseTalk 2, .advanceTo 32,
    .setDual 2 false, .setIndicator 2 none, .push 2, .advanceTo 52]

/-- A party that waits takes the stale grant of the second place for its turn and does not heed that
the place is over. No message is on its way, its user accepts the floor, and it talks unheard. -/
theorem misled_talker_unheard :
    ∃ h r p, play? (hasty ++ [.accept 2]) ⟨Session.create 1 .basic slowCall 0, []⟩ = some r ∧
      Reached slowCall .resting h r ∧ h.NoRejoin ∧ h.Unassisted ∧ r.state.active = true ∧
      r.state.mail = [] ∧ r.state.participants.get? 2 = some p ∧ p.state = .hasPermission ∧
      (r.state.arbitrator.isHolder 2 || r.state.arbitrator.dual.isTalker 2) = false ∧
      ∃ stamped, r.state.stampMedia 2 ⟨0, 1, []⟩ = .ok stamped ∧
        r.state.relaysMedia stamped = false := by
  have hplayed : ∃ r, play? (hasty ++ [.accept 2]) ⟨Session.create 1 .basic slowCall 0, []⟩ =
      some r ∧ (r.state.active && decide (r.state.mail = []) &&
        (r.state.participants.get? 2).any (fun p => p.state = .hasPermission && p.ssrc = 2) &&
        !(r.state.arbitrator.isHolder 2 || r.state.arbitrator.dual.isTalker 2)) = true :=
    (Option.any_eq_true _ _).mp (by decide +kernel)
  obtain ⟨r, hr, hcheck⟩ := hplayed
  simp only [Bool.and_eq_true, decide_eq_true_eq, Bool.not_eq_true'] at hcheck
  obtain ⟨⟨⟨hactive, hmail⟩, htalks⟩, hunplaced⟩ := hcheck
  obtain ⟨p, hget, hp⟩ := (Option.any_eq_true _ _).mp htalks
  simp only [Bool.and_eq_true, decide_eq_true_eq] at hp
  obtain ⟨h, hreached, hjoin, hassist⟩ := Reached.of_play? hr (by simp [hasty]) (by simp [hasty])
  refine ⟨h, r, p, hr, hreached, hjoin, hassist, hactive, hmail, hget, hp.1, hunplaced,
    ⟨2, 1, []⟩, ?_, ?_⟩
  · simp [stampMedia, hactive, hget, Participant.stampMedia, hp.1, hp.2]
  · simp [relaysMedia, Arbitrator.passesMedia, hunplaced]

end Session
end FloorControl
