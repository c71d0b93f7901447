import FloorControl.Proofs.Hearing

/-!
# The end of a second talk

When the second talker gives its place back, or the floor passes to it, all are told who has the
floor alone. When it leaves the call, or has not acknowledged its grant, nobody is: whoever talks is
marked as spoken over still, and the others take the former second talker for the talker. Besides, a
participant that waits for the answer to its request does not heed that the floor is idle. From what
a participant has heard it is told exactly whether it knows who talks.
-/

namespace FloorControl

/-- Whether the listener does not know afterwards who has the floor alone: somebody talks in the
second place, or the floor is idle and that is not heeded. -/
def Hearing.outdated (w : Hearing) : Bool :=
  w.message.tellsSecond w.listener.ssrc || (w.unheeded && w.listener.talker.isSome)

namespace Session

open Scene

variable {config : SessionConfig} {phase : Phase} {h : History} {r : Run} {s : Session} {x : Ssrc}
  {p : Participant}

def Happening.heard? (x : Ssrc) (e : Happening) : Option Hearing :=
  match e.what with
  | .delivery event => heardBy e.before.participants event x
  | .operation _ => none

/-- Whether the second place is given up in the happening without a word: its talker leaves the
call, or its grant was sent often enough. -/
def Happening.hushes (e : Happening) : Bool :=
  let dual := e.before.arbitrator.dual
  match e.what with
  | .operation (.leave ssrc) => e.before.active && dual.isTalker ssrc
  | .delivery (.expiry ticket) =>
    ticket.owner = .arbitrator && ticket.id = .t20 && dual.started && dual.t20.accepts ticket &&
      dual.c20.arrives
  | .operation _ | .delivery _ => false

namespace History

def heard? (h : History) (x : Ssrc) : Option Hearing := h.findSome? (Happening.heard? x)

/-- Whether the last that a party has heard is that somebody talks over it. -/
def overheard (h : History) (x : Ssrc) : Bool := (h.heard? x).any (·.spokenOver)

/-- Whether a party does not know from the last that it has heard who has the floor alone. -/
def outdated (h : History) (x : Ssrc) : Bool := (h.heard? x).any (·.outdated)

def hushed (h : History) : Bool := h.any Happening.hushes

theorem hushed_of_tail {e : Happening} (hhushed : h.hushed = true) : hushed (e :: h) = true := by
  rw [hushed, List.any_cons, Bool.or_eq_true]
  exact .inr hhushed

theorem hushed_of_hushes {e : Happening} (hhushes : e.hushes = true) : hushed (e :: h) = true := by
  rw [hushed, List.any_cons, hhushes]
  rfl

theorem heard?_operation (op : Operation) :
    heard? (⟨s, .operation op⟩ :: h) = h.heard? := rfl

theorem heard?_delivery (event : SessionEvent) :
    heard? (⟨s, .delivery event⟩ :: h) = hears (some event) (s.scene h) h.heard? := by
  funext x
  simp only [heard?, List.findSome?_cons, hears, Option.bind_some, Happening.heard?]
  change _ = (heardBy s.participants event x).or _
  cases heardBy s.participants event x with
  | none => rw [Option.none_or]
  | some w => rw [Option.some_or]

end History

/-- The second place is taken from its talker by a ticket, while the floor stays with the holder,
only if the grant was sent often enough. -/
private theorem hushes_of_expiry {ticket : Ticket} {r' : Run}
    (hr' : r' = deliver (.expiry ticket) { r with
      state := { r.state with scheduler := s.scheduler } })
    (hsound : r.state.arbitrator.places.Sound) (hroomy : r.state.arbitrator.places.queue.Roomy)
    (hsecond : r.state.arbitrator.places.second.isSome = true)
    (hvacated : r'.state.arbitrator.places.second = none)
    (hholder : r'.state.arbitrator.places.holder = r.state.arbitrator.places.holder) :
    Happening.hushes ⟨r.state, .delivery (.expiry ticket)⟩ = true := by
  obtain ⟨who, hwho⟩ := Option.isSome_iff_exists.mp hsecond
  cases howner : ticket.owner with
  | participant ssrc =>
    have hsame : r'.state.arbitrator = r.state.arbitrator := by
      simp only [hr', deliver, howner, onParticipant]
      split
      · rfl
      · rw [(dispatched_dispatch _ _).arbitrator]
        rfl
    rw [hsame, hwho] at hvacated
    cases hvacated
  | arbitrator =>
    have hafter : r'.state.arbitrator =
        (Arbitrator.expire ticket ⟨r.state.arbitrator, {}⟩).machine := by
      simp only [hr', deliver, howner, onArbitrator]
      rw [(dispatched_dispatch _ _).arbitrator]
      rfl
    rw [hafter] at hvacated hholder
    obtain ⟨hid, haccepts, harrives⟩ := Arbitrator.exhausts_of_expire
      (t := ⟨r.state.arbitrator, {}⟩) hsound hroomy rfl hwho hvacated hholder
    have hstarted : r.state.arbitrator.dual.started = true := hsecond
    simp only at haccepts harrives
    simp [Happening.hushes, howner, hid, haccepts, harrives, hstarted]

private theorem hushes_of_left {op : Operation} {who : Talker}
    (hleft : Happening.left? ⟨s, .operation op⟩ = some who.ssrc)
    (hwho : s.arbitrator.dual.talker = some who) :
    Happening.hushes ⟨s, .operation op⟩ = true := by
  cases op with
  | leave ssrc =>
    simp only [Happening.left?, Option.ite_none_right_eq_some, Bool.and_eq_true,
      Option.some.injEq] at hleft
    obtain ⟨⟨hactive, -⟩, rfl⟩ := hleft
    simp [Happening.hushes, hactive, DualFloor.isTalker, hwho]
  | _ => cases hleft

theorem invariant_named :
    Invariant config fun h _ => ∀ x, ∀ w ∈ h.heard? x, w.listener.ssrc = x where
  created callId callType now x w hw := by cases hw
  operated h e op s hwhat hinv x w hw := by
    obtain ⟨before, what⟩ := e
    cases hwhat
    exact hinv x w hw
  moved h s s' _ _ _ hinv := hinv
  delivered h before event s' horderly _ _ hinv x w hw := by
    rw [History.heard?_delivery, Option.mem_def, hears, Option.or_eq_some_iff] at hw
    rcases hw with hw | ⟨-, hw⟩
    · simp only [Option.bind_some, heardBy, Option.bind_eq_some_iff, Option.ite_none_left_eq_some,
        Option.some.injEq] at hw
      obtain ⟨message, -, p, hget, -, rfl⟩ := hw
      exact horderly.named x p hget
    · exact hinv x w hw

theorem open_of_active (hr : Reached config phase h r) (hjoin : h.NoRejoin)
    (hassist : h.Unassisted) (hactive : r.state.active = true) (hphase : ∀ t, phase ≠ .ending t) :
    Open config (fun h _ => ∀ x, ∀ w ∈ h.heard? x, w.listener.ssrc = x) h r.state := by
  rcases hr.open_or_closed invariant_named hjoin hassist with ⟨hopen, -⟩ | ⟨-, hending⟩
  · exact hopen
  · obtain ⟨t, ht⟩ := hending hactive
    exact absurd ht (hphase t)

private theorem informed_acts {a b : Scene} {heard : Ssrc → Option Hearing} {hushed : Prop}
    (hacts : Acts a b) (hinf : a.Informed hushed heard) : b.Informed hushed heard := by
  induction hacts with
  | refl => exact hinf
  | tail _ hact ih => exact informed_act hact.2 hact.1 ih id (by simp) (by simp)

private theorem informed_created (callId : CallId) (callType : CallType) (now : Nat) :
    ((Session.create callId callType config now).scene []).Informed
      (History.hushed [] = true) (History.heard? []) where
  roomy := Arbitrator.roomy_create callId callType config.arbitrator
  fits _ _ hget := by cases hget
  knows _ _ hget := by cases hget
  fresh _ _ hget := by cases hget
  absent _ _ _ := rfl
  quiet _ := by simp [scene, mail, Session.create]
  unclaimed _ _ _ hget := by cases hget

/-- What the participants know fits what has happened, as long as the call is not taken down. -/
theorem informed_reached (hr : Reached config phase h r) (hjoin : h.NoRejoin)
    (hassist : h.Unassisted) (hactive : r.state.active = true) (hphase : ∀ t, phase ≠ .ending t) :
    (r.state.scene h).Informed (h.hushed = true) h.heard? := by
  induction hr with
  | created callId callType now => exact informed_created callId callType now
  | @performed h r op hbefore hinstant ih =>
    have hassist' : ∀ ssrc, op ≠ .establish ssrc true := fun ssrc heq =>
      hassist _ List.mem_cons_self ssrc (by rw [heq])
    have hwas : r.state.active = true := by
      by_contra hover
      rw [Bool.not_eq_true] at hover
      rw [perform_of_over op hinstant hover, hover] at hactive
      cases hactive
    have hopen := open_of_active hbefore hjoin.2 hassist.tail hwas (by simp)
    have hinf := ih hjoin.2 hassist.tail hwas (by simp)
    rw [History.heard?_operation]
    rcases acts_perform op hinstant hopen.orderly hopen.punctual hjoin.1 hassist' with
      ⟨ssrc, hleft, hact⟩ | hacts
    · refine informed_act hact hopen.orderly hinf History.hushed_of_tail (by simp) ?_
      rintro _ ⟨⟩ who hwho rfl
      exact History.hushed_of_hushes (hushes_of_left hleft hwho)
    · exact informed_acts hacts (hinf.mono History.hushed_of_tail)
  | @started h r t op hbefore htarget ih =>
    have hleft : Happening.left? ⟨r.state, .operation op⟩ = none := by
      cases op <;> simp [Operation.target?] at htarget <;> rfl
    rw [History.heard?_operation, scene_cons hleft]
    exact (ih hjoin.2 hassist.tail hactive (by simp)).mono History.hushed_of_tail
  | @delivered phase h r t event scheduler hbefore huntil hpop ih =>
    have hwas : r.state.active = true := by
      by_contra hover
      rw [Bool.not_eq_true] at hover
      rcases hbefore.open_or_closed invariant_named hjoin.2 hassist.tail with
        ⟨hopen, -⟩ | ⟨hclosed, -⟩
      · exact absurd (hopen.active.symm.trans hover) (by simp)
      · simp [Scheduler.popDue, hclosed.still hover] at hpop
    have hopen := open_of_active hbefore hjoin.2 hassist.tail hwas hphase
    have hinf := ih hjoin.2 hassist.tail hwas hphase
    rw [History.heard?_delivery]
    refine informed_act (act_deliver hopen.orderly hopen.punctual hinf.roomy hpop) hopen.orderly
      hinf History.hushed_of_tail ?_ (by simp)
    rintro ticket ⟨⟩ hsecond hvacated hholder
    exact History.hushed_of_hushes
      (hushes_of_expiry (s := { r.state with scheduler := scheduler }) rfl
        hopen.orderly.sound hinf.roomy hsecond hvacated hholder)
  | @settled h r t hbefore hnone ih => exact ih hjoin hassist hactive (by simp)
  | ending _ _ _ => exact absurd rfl (hphase _)
  | ended _ _ _ => cases hactive

/-- A participant that has not the floor knows exactly what it has heard when nothing is on its
way. -/
theorem talker_of_knows {heard : Option Hearing} (hknows : p.Knows heard False)
    (hstate : p.state ≠ .hasPermission) : p.talker = heard.bind (·.talker?) :=
  hknows.talker.resolve_left fun hown => hown.2.elim hstate id

/-- Whoever has not the floor knows who has, or that nobody does, exactly if it is not outdated. -/
theorem knows_holder_iff {heard : Option Hearing} {places : Arbitrator.Places}
    {hushed : Prop} (hfits : places.Fits hushed x (heard.map (·.message)))
    (horderly : places.Orderly) (htalker : p.talker = heard.bind (·.talker?))
    (hnamed : ∀ w ∈ heard, w.listener.ssrc = x)
    (hholder : places.holder.map (·.ssrc) ≠ some x) :
    p.talker = places.holder.map (·.ssrc) ↔ heard.any (·.outdated) = false := by
  have hvacant : (∀ who ∈ places.holder, who.ssrc = x) → places.holder = none := by
    intro hown
    by_contra hsome
    obtain ⟨who, hwho⟩ := Option.ne_none_iff_exists'.mp hsome
    exact hholder (by rw [hwho, Option.map_some, hown who hwho])
  cases heard with
  | none =>
    have hnone : places.holder = none := by
      by_contra hsome
      obtain ⟨who, hwho⟩ := Option.ne_none_iff_exists'.mp hsome
      exact hfits (horderly.opened_of_holder hwho)
    simp [htalker, hnone]
  | some w =>
    obtain ⟨listener, message⟩ := w
    obtain rfl : listener.ssrc = x := hnamed _ rfl
    rw [htalker]
    cases message with
    | taken named dual ack =>
      have hheeded : Hearing.unheeded ⟨listener, .taken named dual ack⟩ = false :=
        Bool.and_false _
      cases dual with
      | true =>
        obtain ⟨-, hother, hheld, -⟩ := hfits
        have hnot : places.holder.map (·.ssrc) ≠ some named := by
          intro hsame
          obtain ⟨who, hwho, heq⟩ := Option.map_eq_some_iff.mp hsame
          exact hheld who hwho heq
        simp [Hearing.talker?, Hearing.outdated, hheeded, Message.named?, Message.tellsSecond,
          hother, hnot.symm]
      | false =>
        obtain ⟨-, who, hwho, heq⟩ := hfits
        rw [Option.mem_def] at hwho
        have hsame : who.ssrc = named :=
          heq.resolve_right fun hown => hholder (by simp [hwho, hown])
        simp [Hearing.talker?, Hearing.outdated, hheeded, Message.named?, Message.tellsSecond, hwho,
          hsame]
    | idle ack =>
      rw [hvacant hfits.2]
      cases hunheeded : Hearing.unheeded ⟨listener, .idle ack⟩ with
      | true => simp [Hearing.talker?, Hearing.outdated, hunheeded, Message.tellsSecond]
      | false =>
        simp [Hearing.talker?, Hearing.outdated, hunheeded, Message.named?, Message.tellsSecond]
    | _ =>
      rw [hvacant hfits.2]
      simp [Hearing.talker?, Hearing.outdated, Hearing.unheeded, Message.isIdle, Message.named?,
        Message.tellsSecond]

/-- Where nobody talks in the second place, only a place that was given up without a word can be
what a participant has heard of last. -/
theorem tellsSecond_of_fits {places : Arbitrator.Places} {hushed : Prop} {message : Message}
    (hfits : places.Fits hushed x (some message)) (hsecond : places.second = none)
    (hloud : ¬ hushed) : message.tellsSecond x = false := by
  cases message with
  | taken named dual ack =>
    cases dual with
    | true =>
      obtain ⟨-, -, -, ⟨who, hwho, -⟩ | hhushed⟩ := hfits
      · rw [hsecond] at hwho
        cases hwho
      · exact absurd hhushed hloud
    | false => rfl
  | _ => rfl

/-- In a call that is not taken down, when no message is on its way and nobody has the second place,
a participant is marked as spoken over exactly if that is the last that it has heard; and one that
is not the holder knows the holder, or that there is none, exactly if it does not take itself for
the talker and is not outdated. As long as the second place has never been given up without a word,
nobody is marked and nobody is outdated by what was said of a second talker. -/
theorem sole_talker_known_iff (hr : Reached config phase h r) (hjoin : h.NoRejoin)
    (hassist : h.Unassisted) (hactive : r.state.active = true) (hphase : ∀ t, phase ≠ .ending t)
    (hmail : r.state.mail = []) (hsecond : r.state.arbitrator.dual.talker = none)
    (hget : r.state.participants.get? x = some p) :
    (p.overridden = true ↔ h.overheard x = true) ∧
      (p.state ≠ .startStop → r.state.holder? ≠ some x →
        (p.talker = r.state.holder? ↔ p.state ≠ .hasPermission ∧ h.outdated x = false)) ∧
      (h.hushed = false → p.overridden = false ∧
        ∀ w ∈ h.heard? x, w.message.tellsSecond x = false) := by
  have hinf := informed_reached hr hjoin hassist hactive hphase
  have hopen := open_of_active hr hjoin hassist hactive hphase
  by_cases hfresh : p.state = .startStop
  · obtain ⟨-, hoverridden, hheard⟩ := hinf.fresh x p hget hfresh
    simp [History.overheard, hheard, hoverridden, hfresh]
  have hknows : p.Knows (h.heard? x) False := by
    refine (hinf.knows x p hget hfresh).mono fun hcoming => ?_
    change Expects r.state.mail x at hcoming
    simp [hmail, Expects] at hcoming
  have hfits : r.state.arbitrator.places.Fits (h.hushed = true) x
      ((h.heard? x).map (·.message)) := by
    have hfits := hinf.fits x p hget hfresh
    change Arbitrator.Places.Fits _ _ x (lastWord x _ r.state.mail) at hfits
    rwa [hmail] at hfits
  have hmarked : p.overridden = true ↔ h.overheard x = true :=
    ⟨fun hover => (hknows.overridden hover).2,
      fun hover => (hknows.spokenOver hover).resolve_right id⟩
  refine ⟨hmarked, fun _ hholder => ?_, fun hloud => ?_⟩
  · by_cases hstate : p.state = .hasPermission
    · refine iff_of_false (fun htalker => hholder ?_) fun hboth => hboth.1 hstate
      rw [← htalker, hknows.talks hstate, hopen.orderly.named x p hget]
    · rw [and_iff_right hstate]
      exact knows_holder_iff hfits hopen.orderly.sound.toOrderly (talker_of_knows hknows hstate)
        (hopen.invariant x) hholder
  · have hsole : ∀ w ∈ h.heard? x, w.message.tellsSecond x = false := by
      intro w hw
      rw [Option.mem_def] at hw
      rw [hw] at hfits
      exact tellsSecond_of_fits hfits hsecond (by simp [hloud])
    refine ⟨?_, hsole⟩
    by_contra hover
    rw [Bool.not_eq_false, hmarked] at hover
    obtain ⟨w, hw, hspoken⟩ := (Option.any_eq_true _ _).mp hover
    have hnot := hsole w hw
    rw [Hearing.spokenOver, hopen.invariant x w hw, hnot, Bool.and_false] at hspoken
    cases hspoken

def dualCall : SessionConfig where
  arbitrator := { dualFloorSupported := true }

def dualTalk : List Operation :=
  [.join 1 5 true, .join 2 5 false, .join 3 5 false, .setUpAll, .runUntilIdle, .push 1,
    .runUntilIdle, .setDual 2 true, .setIndicator 2 (some .emergency), .push 2, .runUntilIdle]

/-- When the second talker has given its place back, the listener knows who talks. -/
theorem sole_talker_known_relieved :
    ∃ h r p, play? (dualTalk ++ [.releaseTalk 2, .runUntilIdle])
        ⟨Session.create 1 .basic dualCall 0, []⟩ = some r ∧
      Reached dualCall .resting h r ∧ r.state.active = true ∧ r.state.mail = [] ∧
      r.state.arbitrator.dual.talker = none ∧ r.state.participants.get? 3 = some p ∧
      p.state ≠ .startStop ∧ r.state.holder? ≠ some 3 ∧
      (p.overridden = true ↔ h.overheard 3 = true) ∧
      (p.talker = r.state.holder? ↔ p.state ≠ .hasPermission ∧ h.outdated 3 = false) := by
  have hplayed : ∃ r, play? (dualTalk ++ [.releaseTalk 2, .runUntilIdle])
      ⟨Session.create 1 .basic dualCall 0, []⟩ = some r ∧
      (r.state.active && decide (r.state.mail = []) &&
        decide (r.state.arbitrator.dual.talker = none) && decide (r.state.holder? ≠ some 3) &&
        (r.state.participants.get? 3).any (·.state ≠ .startStop)) = true :=
    (Option.any_eq_true _ _).mp (by decide +kernel)
  obtain ⟨r, hr, hcheck⟩ := hplayed
  simp only [Bool.and_eq_true, decide_eq_true_eq] at hcheck
  obtain ⟨⟨⟨⟨hactive, hmail⟩, hsecond⟩, hholder⟩, hpresent⟩ := hcheck
  obtain ⟨p, hget, hp⟩ := (Option.any_eq_true _ _).mp hpresent
  rw [decide_eq_true_eq] at hp
  obtain ⟨h, hreached, hjoin, hassist⟩ := Reached.of_play? hr (by simp [dualTalk])
    (by simp [dualTalk])
  obtain ⟨hmarked, hknown, -⟩ :=
    sole_talker_known_iff hreached hjoin hassist hactive (by simp) hmail hsecond hget
  exact ⟨h, r, p, hr, hreached, hactive, hmail, hsecond, hget, hp, hholder, hmarked,
    hknown hp hholder⟩

/-- When the second talker has left the call, the holder is marked as spoken over still, and the
listener takes the party that has left for the talker. -/
theorem departed_talker_believed :
    ∃ h r p q, Reached dualCall .resting h r ∧ h.NoRejoin ∧ h.Unassisted ∧
      r.state.active = true ∧ r.state.mail = [] ∧ r.state.arbitrator.dual.talker = none ∧
      r.state.holder? = some 1 ∧ r.state.participants.get? 1 = some p ∧ p.overridden = true ∧
      r.state.participants.get? 3 = some q ∧ q.state ≠ .startStop ∧ q.talker = some 2 := by
  have hplayed : ∃ r₀, play? dualTalk ⟨Session.create 1 .basic dualCall 0, []⟩ = some r₀ ∧
      (play? [.leave 2, .runUntilIdle] r₀).any (fun r => r.state.active &&
        decide (r.state.mail = []) && decide (r.state.arbitrator.dual.talker = none) &&
        decide (r.state.holder? = some 1) &&
        (r.state.participants.get? 1).any (·.overridden) &&
        (r.state.participants.get? 3).any fun q =>
          decide (q.state ≠ .startStop) && decide (q.talker = some 2)) = true :=
    (Option.any_eq_true _ _).mp (by decide +kernel)
  obtain ⟨r₀, hr₀, hrest⟩ := hplayed
  obtain ⟨r, hr, hcheck⟩ := (Option.any_eq_true _ _).mp hrest
  simp only [Bool.and_eq_true, decide_eq_true_eq] at hcheck
  obtain ⟨⟨⟨⟨⟨hactive, hmail⟩, hsecond⟩, hholder⟩, hmarked⟩, hlistens⟩ := hcheck
  obtain ⟨p, hp, hoverridden⟩ := (Option.any_eq_true _ _).mp hmarked
  obtain ⟨q, hq, hbelieves⟩ := (Option.any_eq_true _ _).mp hlistens
  simp only [Bool.and_eq_true, decide_eq_true_eq] at hbelieves
  obtain ⟨h, hreached, hjoin, hassist⟩ := Reached.of_play? hr₀ (by simp [dualTalk])
    (by simp [dualTalk])
  obtain ⟨later, hlater, hoperations⟩ := hreached.exists_later hr
  refine ⟨later ++ h, r, p, q, hlater, ?_, ?_, hactive, hmail, hsecond, hholder, hp, hoverridden,
    hq, hbelieves⟩
  · exact History.noRejoin_append (by simp [hoperations]) hjoin
  · intro e he ssrc hwhat
    rcases List.mem_append.mp he with he | he
    · have hmem : .establish ssrc true ∈ History.operations later :=
        List.mem_filterMap.mpr ⟨e, he, by rw [Happening.operation?, hwhat]⟩
      simp [hoperations] at hmem
    · exact hassist e he ssrc hwhat

end Session
end FloorControl
