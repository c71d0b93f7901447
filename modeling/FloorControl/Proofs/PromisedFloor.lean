import FloorControl.Proofs.ImplicitGrants
import FloorControl.Proofs.OpeningDialogue

/-!
# Floors that were promised

A party with which the call is established during the set-up is promised the floor, and gets it as
soon as the last party is ready. Whether it has the floor when everything has been said depends on
what it was waiting for when it was promised the floor, and on nothing else: a party that had asked
for the floor takes the grant for its answer. Any other party has taken the floor before its time,
loses it when the floor is announced as idle, and gives the grant back.
-/

namespace FloorControl

namespace Participant

variable {p : Participant}

/-- What a party hears never makes it ask, and nothing but the answer to a request makes it talk. -/
theorem unasked_receive (message : Message) (hstate : p.state ≠ .pendingRequest) :
    (receive message ⟨p, {}⟩).machine.state ≠ .pendingRequest ∧
      ((receive message ⟨p, {}⟩).machine.state = .hasPermission →
        p.state = .hasPermission ∧ ∀ ack, message ≠ .idle ack) := by
  cases hbefore : p.state with
  | startStop => simp [receive, hbefore]
  | pendingRequest => exact absurd hbefore hstate
  | queued =>
    cases message with
    | granted | revoke =>
      simp only [receive, hbefore, receiveQueued]
      split
      all_goals simp [hbefore]
    | _ => simp [receive, hbefore, receiveQueued]
  | hasPermission =>
    cases message with
    | taken =>
      simp only [receive, hbefore, receiveHasPermission]
      split
      · simp [hbefore]
      · split
        all_goals simp [hbefore]
    | _ => simp [receive, hbefore, receiveHasPermission]
  | pendingRelease => cases message <;> simp [receive, hbefore, receivePendingRelease]
  | idle =>
    cases message with
    | granted =>
      simp only [receive, hbefore, receiveIdle]
      split
      all_goals simp [hbefore]
    | _ => simp [receive, hbefore, receiveIdle]

theorem unasked_expire (ticket : Ticket) (hstate : p.state ≠ .pendingRequest) :
    (expire ticket ⟨p, {}⟩).machine.state ≠ .pendingRequest ∧
      ((expire ticket ⟨p, {}⟩).machine.state = .hasPermission → p.state = .hasPermission) := by
  have hrefused : p.state ≠ .pendingRequest ∧
      (p.state = .hasPermission → p.state = .hasPermission) := ⟨hstate, id⟩
  simp only [expire]
  split
  · split
    · simp [expireT101, hstate]
    · exact hrefused
  · split
    · simp only [expireT100]
      split
      · next hreturning =>
        have hreturning : p.state = .pendingRelease := hreturning
        split
        all_goals simp [hreturning]
      · exact hrefused
    · exact hrefused
  · split
    · simp only [expireT104]
      split
      · next hqueued =>
        have hqueued : p.state = .queued := hqueued
        split
        all_goals simp [hqueued]
      · exact hrefused
    · exact hrefused
  · split
    · simp only [expireT132]
      split
      · simp
      · exact hrefused
    · exact hrefused
  all_goals exact hrefused

/-- A party with which the call is established takes the floor if it wants nothing at the time. -/
theorem state_established (priority : Priority) :
    (p.handle (.established true priority)).machine.state =
      if p.state = .idle then .hasPermission else p.state := by
  simp only [handle, callEstablished, Bool.true_and]
  by_cases hidle : p.state = .idle
  · simp [hidle]
  · simp [hidle]

@[simp] theorem receiveOnly_established (granted : Bool) (priority : Priority) :
    (p.handle (.established granted priority)).machine.receiveOnly = p.receiveOnly := by
  simp only [handle, callEstablished]
  split
  · simp [receiveOnly]
  · rfl

end Participant

namespace Arbitrator

variable {p : Places} {who : Talker} {x : Ssrc}

/-- What is sent when the floor is opened for a party: that it is idle, and then the grant. -/
def Places.openingLetters (p : Places) (who : Talker) : List Envelope :=
  lettersExcept p.roster none (.idle p.config.ackRequired) ++ p.grantLetters who

/-- Only the party that the floor is opened for hears more of it than how it stands. -/
theorem Places.exists_of_mem_openingLetters {e : Envelope} (he : e ∈ p.openingLetters who) :
    ∃ y message, e = letterTo y message ∧ (y ≠ who.ssrc → message.isWord = true) := by
  rcases List.mem_append.mp he with hidle | hgrant
  · obtain ⟨y, -, -, rfl⟩ := mem_lettersExcept.mp hidle
    exact ⟨y, _, rfl, fun _ => rfl⟩
  · rcases List.mem_append.mp hgrant with hgranted | htaken
    · exact ⟨who.ssrc, _, (mem_lettersTo.mp hgranted).2, fun hne => absurd rfl hne⟩
    · obtain ⟨y, -, -, rfl⟩ := mem_lettersExcept.mp htaken
      exact ⟨y, _, rfl, fun _ => rfl⟩

/-- Everybody is told that the floor is idle. -/
theorem Places.idle_mem_openingLetters (hknown : p.roster.contains x = true) :
    letterTo x (.idle p.config.ackRequired) ∈ p.openingLetters who :=
  List.mem_append_left _ (mem_lettersExcept.mpr ⟨x, hknown, by simp, rfl⟩)

theorem Places.mailFor_openingLetters (hknown : p.roster.contains who.ssrc = true) :
    mailFor who.ssrc (p.openingLetters who) = [.idle p.config.ackRequired,
      .granted who.ssrc who.priority p.config.t2 false p.config.ackRequired] := by
  rw [openingLetters, mailFor_append, mailFor_lettersExcept_of_ne hknown (by simp), grantLetters,
    mailFor_append, mailFor_lettersTo hknown, mailFor_lettersExcept]
  rfl

end Arbitrator

namespace Session

open Arbitrator (MayTalk Places places)

variable {config : SessionConfig} {h : History} {r r' last : Run} {x y : Ssrc} {p q : Participant}
  {m m' : Machines} {event : SessionEvent} {rest : List SessionEvent} {outs : List Outbox} {t : Nat}

/-- A party has not asked for the floor, and if it talks all the same, it will hear that the floor
is idle. -/
def Unkept (x : Ssrc) (m : Machines) (mail : List SessionEvent) : Prop :=
  ∃ p, m.participants.get? x = some p ∧ p.state ≠ .pendingRequest ∧
    (p.state = .hasPermission → ∃ ack, .toParticipant x (.idle ack) ∈ mail)

/-- Nothing that is handed over lets the party keep the floor. -/
theorem Unkept.delivers (h : Unkept x m ([event].filter (·.isLetter) ++ rest))
    (hdelivers : Delivers m event outs m') :
    Unkept x m' (rest ++ (outs.flatMap (·.messages)).map (·.arrival)) := by
  obtain ⟨p, hget, hunasked, hwarned⟩ := h
  -- An announcement that does not arrive in this step is still on its way.
  have hlater (hother : ∀ ack, event ≠ .toParticipant x (.idle ack))
      (htalks : p.state = .hasPermission) : ∃ ack, .toParticipant x (.idle ack) ∈
        rest ++ (outs.flatMap (·.messages)).map (·.arrival) := by
    obtain ⟨ack, hmem⟩ := hwarned htalks
    refine ⟨ack, List.mem_append_left _ ((List.mem_append.mp hmem).resolve_left fun hfirst => ?_)⟩
    rw [List.mem_filter, List.mem_singleton] at hfirst
    exact hother ack hfirst.1.symm
  cases hdelivers with
  | arbitratorTicket | arbitratorLetter => exact ⟨p, hget, hunasked, hlater (by simp)⟩
  | @participantTicket ticket y q _ hreceiver =>
    by_cases heq : x = y
    · subst heq
      cases hget.symm.trans hreceiver
      obtain ⟨hafter, hbefore⟩ := Participant.unasked_expire ticket hunasked
      refine ⟨_, ?_, hafter, fun htalks => hlater (by simp) (hbefore htalks)⟩
      rw [Roster.get?_modify, if_pos rfl, hget]
      rfl
    · refine ⟨p, ?_, hunasked, hlater (by simp)⟩
      rwa [Roster.get?_modify, if_neg heq]
  | @participantLetter y q message hreceiver =>
    by_cases heq : x = y
    · subst heq
      cases hget.symm.trans hreceiver
      obtain ⟨hafter, hbefore⟩ := Participant.unasked_receive message hunasked
      refine ⟨_, ?_, hafter, fun htalks => ?_⟩
      · rw [Roster.get?_modify, if_pos rfl, hget]
        rfl
      · obtain ⟨htalked, hother⟩ := hbefore htalks
        exact hlater (by simpa using hother) htalked
    · refine ⟨p, ?_, hunasked, hlater ?_⟩
      · rwa [Roster.get?_modify, if_neg heq]
      · rintro ack ⟨⟩
        exact heq rfl
  | @dropped _ y input hinput hgone =>
    refine ⟨p, hget, hunasked, hlater ?_⟩
    rintro ack rfl
    simp only [SessionEvent.input?, Option.ite_none_right_eq_some] at hinput
    rw [← hinput.1] at hgone
    cases hget.symm.trans hgone

/-- When everything has been said, the party does not talk, whatever else has happened. -/
theorem Advances.unkept (hadvances : Advances t r last) (hs : Stage config h r.state)
    (hlink : config.linkDelay = 0) (hnow : r.state.now = t)
    (hunkept : Unkept x r.state.machines r.state.mail) :
    ∃ p, last.state.participants.get? x = some p ∧ p.state ≠ .hasPermission := by
  obtain ⟨s, ⟨p, hget, -, hwarned⟩, hmail, hmachines⟩ := hadvances.at_once hs hlink hnow
    (P := fun s => Unkept x s.machines s.mail) (fun h s event scheduler m hs _ hbefore hpop
      hdelivers hmail => by
        rw [mail_progressed _ _ (mail_popDue hs.punctual hpop).1]
        exact (hmail ▸ hbefore).delivers hdelivers) hunkept
  refine ⟨p, (congrArg (·.participants.get? x) hmachines).trans hget, fun htalks => ?_⟩
  obtain ⟨ack, hmem⟩ := hwarned htalks
  rw [hmail] at hmem
  cases hmem

def missing (s : Session) : List Ssrc :=
  s.participants.ssrcs.filter fun y => (s.participants.get? y).any (·.state = .startStop)

theorem mem_missing {s : Session} :
    y ∈ s.missing ↔ ∃ q, s.participants.get? y = some q ∧ q.state = .startStop := by
  simp only [missing, List.mem_filter, Option.any_eq_true, decide_eq_true_eq]
  refine ⟨And.right, fun hmissing => ⟨?_, hmissing⟩⟩
  obtain ⟨q, hget, -⟩ := hmissing
  exact (Roster.contains_iff_mem _ y).mp (Roster.contains_of_get? hget)

theorem nodup_missing (s : Session) : s.missing.Nodup :=
  (s.participants.ascending.imp UInt32.ne_of_lt).filter _

/-- A step that takes no time and starts no timer that runs out at once. -/
structure Onward (config : SessionConfig) (r r' : Run) : Prop where
  now : r'.state.now = r.state.now
  unhurried : config.Patient → r.state.now < Time.last → r.state.Unhurried → r'.state.Unhurried

theorem Onward.trans {r₁ r₂ r₃ : Run} (first : Onward config r₁ r₂)
    (second : Onward config r₂ r₃) : Onward config r₁ r₃ where
  now := second.now.trans first.now
  unhurried hpatient hclock h :=
    second.unhurried hpatient (first.now.symm ▸ hclock) (first.unhurried hpatient hclock h)

theorem Reached.onward (hr : Reached config .resting h r) (op : Operation)
    (hinstant : op.Instant r.state)
    (hentered : Happening.entered? ⟨r.state, .operation op⟩ = none) :
    Onward config r (perform op r).2 := by
  obtain ⟨m, hparts, hstate⟩ := (follows_perform op hinstant hentered).exists_parts
  refine ⟨by rw [hstate, now_progressed], fun hpatient hclock hbefore => ?_⟩
  rw [hstate]
  exact hbefore.progressed hpatient (winds_parts hr.stage.made hparts).2 hclock

structure Together (y : Ssrc) (q : Participant) (u : Turn Arbitrator) (r r' : Run) : Prop where
  arbitrator : r'.state.arbitrator = u.machine
  active : r'.state.active = r.state.active
  mail : r'.state.mail = r.state.mail ++ u.out.messages.map (·.arrival)
  parties : ∀ z, r'.state.participants.get? z =
    if z = y then some q else r.state.participants.get? z

/-- A party that is ready after its turn is not missing any more. -/
private theorem Together.mem_missing {u : Turn Arbitrator} (h : Together y q u r r')
    (hready : q.state ≠ .startStop) {z : Ssrc} :
    z ∈ r'.state.missing ↔ z ≠ y ∧ z ∈ r.state.missing := by
  rw [Session.mem_missing, Session.mem_missing, h.parties]
  split
  · next hz =>
    refine iff_of_false ?_ fun hother => hother.1 hz
    rintro ⟨_, ⟨⟩, hstart⟩
    exact hready hstart
  · next hz => rw [and_iff_right hz]

private theorem together_dispatch {u : Turn Arbitrator} (hpunctual : r.state.Punctual)
    (hget : r.state.participants.get? y = some p) :
    Together y q u r (dispatch u.out (setArbitrator u.machine (setParticipant y q r))) := by
  set r₁ := setArbitrator u.machine (setParticipant y q r) with hr₁
  have hkept := dispatched_dispatch u.out r₁
  have hpunctual : r₁.state.Punctual := punctual_congr hpunctual rfl rfl
  refine ⟨hkept.arbitrator, hkept.active, (mail_dispatch u.out hpunctual).2, fun z => ?_⟩
  rw [hkept.participants, hr₁]
  simp only [setArbitrator, setParticipant, Roster.get?_modify]
  split
  · next hz => rw [hz, hget, Option.map_some]
  · rfl

/-- A call is being set up, and a party that may talk is promised the floor. -/
structure Promised (config : SessionConfig) (x : Ssrc) (p : Participant) (r : Run) : Prop where
  reached : ∃ h, Reached config .resting h r
  active : r.state.active = true
  state : r.state.arbitrator.state = .initialising
  promised : r.state.arbitrator.implicitRequest = some x
  party : r.state.participants.get? x = some p
  ready : p.state ≠ .startStop
  talks : p.receiveOnly = false

structure Opened (config : SessionConfig) (x : Ssrc) (p : Participant) (before : List SessionEvent)
    (r : Run) : Prop where
  reached : ∃ h, Reached config .resting h r
  active : r.state.active = true
  alone : r.state.arbitrator.places.Alone x
  party : r.state.participants.get? x = some p
  ready : p.state ≠ .startStop
  mail : ∃ who, who.ssrc = x ∧ r.state.mail = before ++
    (r.state.arbitrator.places.openingLetters who).map (·.arrival)
  everybody : ∀ y q, r.state.participants.get? y = some q → q.state ≠ .startStop

/-- The last party that was missing is ready, and the party that was promised the floor gets it; or
another one is missing still. -/
private theorem callInitialized_promised {t u : Turn Arbitrator}
    (hsound : t.machine.places.Sound) (hout : t.out.messages = [])
    (hstate : t.machine.state = .initialising) (hpromised : t.machine.implicitRequest = some x)
    (htalks : MayTalk t.machine.roster x) (hne : y ≠ x)
    (hu : Arbitrator.callInitialized y t = .ok u) :
    u.out.messages = [] ∧ u.machine.state = .initialising ∧ u.machine.implicitRequest = some x ∨
      u.machine.roster.values.all (·.ready) = true ∧ u.machine.places.Alone x ∧
        ∃ who, who.ssrc = x ∧ u.out.messages = u.machine.places.openingLetters who := by
  simp only [Arbitrator.callInitialized] at hu
  split at hu
  · cases hu
  cases hu
  set v := t.update fun a =>
    { a with roster := a.roster.modify y fun proxy => { proxy with ready := true } } with hv
  have hvstate : v.machine.state = .initialising := hstate
  have horderly : v.machine.places.Orderly := { hsound.toOrderly with }
  have hvacant : v.machine.places.state.occupied = false := by
    change v.machine.state.occupied = false
    rw [hvstate]
    rfl
  have hmay : MayTalk v.machine.places.roster x := by
    obtain ⟨proxy, hproxy, hlisten⟩ := htalks
    exact ⟨proxy, by rwa [hv, Turn.machine_update, places, Roster.get?_modify, if_neg hne.symm],
      hlisten⟩
  simp only [hvstate]
  rcases Arbitrator.checkReady_cases horderly hvstate hout with ⟨-, hmessages, hplaces⟩ |
    ⟨hready, ⟨hlistens, -⟩ | ⟨who, hwho, -, hmessages, hplaces⟩⟩
  · refine .inl ⟨hmessages, ?_, ?_⟩
    · exact (congrArg Places.state hplaces).trans hstate
    · exact (congrArg Places.implicitRequest hplaces).trans hpromised
  · exact absurd hmay (hlistens x hpromised)
  · have hroster : (Arbitrator.checkReady v).machine.roster = v.machine.roster :=
      congrArg Places.roster hplaces
    obtain rfl : who.ssrc = x := Option.some.inj (hwho.symm.trans hpromised)
    refine .inr ⟨hroster ▸ hready, ?_, who, rfl, ?_⟩
    · rw [hplaces]
      exact ⟨rfl, ⟨who, rfl, rfl⟩, horderly.second_eq_none hvacant,
        horderly.preemptor_eq_none (by change v.machine.state ≠ _; simp [hvstate]),
        FloorQueue.waiting_eq_nil.mp (horderly.waiting_eq_nil hvacant)⟩
    · rw [hmessages, hplaces]
      rfl

/-- When the arbitrator has everybody for ready, everybody is. -/
private theorem Reached.everybody (hr : Reached config .resting h r)
    (hactive : r.state.active = true)
    (hready : r.state.arbitrator.roster.values.all (·.ready) = true)
    (hget : r.state.participants.get? y = some q) : q.state ≠ .startStop := by
  obtain ⟨proxy, hproxy⟩ := Roster.exists_get?_of_contains (hr.known hactive hget)
  intro hstart
  have hmissing := ((hr.agree hactive nofun).party y q proxy hget hproxy).ready.mp hstart
  have hthere := List.all_eq_true.mp hready proxy (Roster.mem_values_of_get? hproxy)
  rw [hmissing] at hthere
  cases hthere

/-- One more party is set up. -/
private theorem Promised.setUp (h : Promised config x p r)
    (hget : r.state.participants.get? y = some q) (hne : y ≠ x) :
    ∃ r', setUp y r = (.ok (), r') ∧ Onward config r r' ∧
      (∀ z, z ∈ r'.state.missing ↔ z ≠ y ∧ z ∈ r.state.missing) ∧
      (Promised config x p r' ∧ r'.state.mail = r.state.mail ∨
        Opened config x p r.state.mail r') := by
  obtain ⟨history, hr⟩ := h.reached
  have hmay := (mayTalk_iff hr h.active h.party).mpr h.talks
  obtain ⟨u, hu, heq⟩ := exists_setUp (hr.known h.active hget) h.active hget
  have hsilent : (q.handle .initialized).out.messages = [] := messages_callInitialized q
  have hcases := callInitialized_promised (t := ⟨r.state.arbitrator, (q.handle .initialized).out⟩)
    hr.stage.sound hsilent h.state h.promised hmay hne hu
  have htogether := together_dispatch (q := (q.handle .initialized).machine) (u := u)
    hr.stage.punctual hget
  have hreached := hr.performed (.setUp y) ⟨rfl, nofun⟩
  have honward := hr.onward (.setUp y) ⟨rfl, nofun⟩ rfl
  simp only [perform, heq] at hreached honward
  generalize dispatch u.out _ = r' at heq htogether hreached honward
  have hactive : r'.state.active = true := htogether.active.trans h.active
  have hparty : r'.state.participants.get? x = some p := by
    rw [htogether.parties, if_neg hne.symm, h.party]
  refine ⟨r', heq, honward,
    fun _ => htogether.mem_missing (Participant.state_callInitialized ⟨q, {}⟩), ?_⟩
  rcases hcases with ⟨hsilent, hstate, hpromised⟩ | ⟨hready, halone, who, hwho, hmessages⟩
  · refine .inl ⟨⟨⟨_, hreached⟩, hactive, ?_, ?_, hparty, h.ready, h.talks⟩, ?_⟩
    · rw [htogether.arbitrator, hstate]
    · rw [htogether.arbitrator, hpromised]
    · rw [htogether.mail, hsilent]
      exact List.append_nil _
  · refine .inr ⟨⟨_, hreached⟩, hactive, ?_, hparty, h.ready, ⟨who, hwho, ?_⟩, fun z q hz => ?_⟩
    · rwa [htogether.arbitrator]
    · rw [htogether.mail, htogether.arbitrator, hmessages]
    · exact hreached.everybody hactive (by rwa [htogether.arbitrator]) hz

/-- The parties that are missing are set up, in any order. -/
private theorem Promised.setUpEach {order : List Ssrc} (h : Promised config x p r)
    (horder : order.Nodup) (hmissing : ∀ y, y ∈ order ↔ y ∈ r.state.missing) :
    ∃ r', setUpEach order r = (.ok (), r') ∧ Onward config r r' ∧
      Opened config x p r.state.mail r' := by
  induction order generalizing r with
  | nil =>
    -- The arbitrator would not wait if nobody was missing.
    obtain ⟨history, hr⟩ := h.reached
    have hagree := hr.agree h.active nofun
    obtain ⟨y, proxy, hproxy, hlate⟩ := hagree.gathering.somebody h.state
    have hknown : r.state.arbitrator.roster.contains y = r.state.participants.contains y :=
      (hr.stage.fit h.active).known y
    obtain ⟨q, hq⟩ := Roster.exists_get?_of_contains
      (hknown.symm.trans (Roster.contains_of_get? hproxy))
    cases (hmissing y).mpr
      (mem_missing.mpr ⟨q, hq, (hagree.party y q proxy hq hproxy).ready.mpr hlate⟩)
  | cons y rest ih =>
    obtain ⟨hfresh, hrest⟩ := List.nodup_cons.mp horder
    obtain ⟨q, hq, hstart⟩ := mem_missing.mp ((hmissing y).mp List.mem_cons_self)
    have hne : y ≠ x := by
      rintro rfl
      cases h.party.symm.trans hq
      exact h.ready hstart
    obtain ⟨r₁, heq, honward, hless, hcase⟩ := h.setUp hq hne
    have hleft : ∀ z, z ∈ rest ↔ z ∈ r₁.state.missing := by
      intro z
      rw [hless, ← hmissing, List.mem_cons]
      refine ⟨fun hz => ⟨fun heq => hfresh (heq ▸ hz), .inr hz⟩, fun hz => hz.2.resolve_left hz.1⟩
    simp only [Session.setUpEach, heq]
    rcases hcase with ⟨hpromised, hmail⟩ | hopened
    · obtain ⟨r', heq', honward', hopened⟩ := ih hpromised hrest hleft
      exact ⟨r', heq', honward.trans honward', hmail ▸ hopened⟩
    · have hnobody : rest = [] := List.eq_nil_iff_forall_not_mem.mpr fun z hz => by
        obtain ⟨q, hq, hstart⟩ := mem_missing.mp ((hleft z).mp hz)
        exact hopened.everybody z q hq hstart
      exact ⟨r₁, by rw [hnobody, Session.setUpEach], honward, hopened⟩

/-- A party is established with the floor during the set-up. -/
private theorem promised_establish (hr : Reached config .resting h r)
    (hactive : r.state.active = true) (hstate : r.state.arbitrator.state = .initialising)
    (hget : r.state.participants.get? x = some p) (hset : p.state ≠ .startStop)
    (htalks : p.receiveOnly = false) :
    ∃ r', establish x true r = (.ok (), r') ∧ Onward config r r' ∧
      (∀ z, z ∈ r'.state.missing ↔ z ∈ r.state.missing) ∧
      Promised config x (p.handle (.established true p.priority)).machine r' ∧
      r'.state.mail = r.state.mail := by
  obtain ⟨u, hu, heq⟩ := exists_establish (hr.known hactive hget) hactive hget
  have hsilent : (p.handle (.established true p.priority)).out.messages = [] :=
    (quiet_callEstablished true p.priority p).1
  have hpromised : u.machine.state = .initialising ∧ u.machine.implicitRequest = some x ∧
      u.out.messages = [] := by
    rcases Arbitrator.implicitFloorRequest_cases hu with
      ⟨who, hidle, -⟩ | ⟨-, rfl⟩ | ⟨hother, -⟩
    · cases hstate.symm.trans hidle
    · exact ⟨hstate, rfl, hsilent⟩
    · exact absurd hstate hother
  have htogether := together_dispatch (q := (p.handle (.established true p.priority)).machine)
    (u := u) hr.stage.punctual hget
  have hreached := hr.performed (.establish x true) ⟨rfl, nofun⟩
  have honward := hr.onward (.establish x true) ⟨rfl, nofun⟩ rfl
  simp only [perform, heq] at hreached honward
  generalize dispatch u.out _ = r' at heq htogether hreached honward
  have hready : (p.handle (.established true p.priority)).machine.state ≠ .startStop := by
    rw [Participant.state_established]
    split
    · simp
    · exact hset
  refine ⟨r', heq, honward, fun z => ?_, ⟨⟨_, hreached⟩, htogether.active.trans hactive, ?_, ?_, ?_,
    hready, ?_⟩, ?_⟩
  · rw [htogether.mem_missing hready, and_iff_right_iff_imp]
    rintro hz rfl
    obtain ⟨q, hq, hstart⟩ := mem_missing.mp hz
    cases hget.symm.trans hq
    exact hset hstart
  · rw [htogether.arbitrator, hpromised.1]
  · rw [htogether.arbitrator, hpromised.2.1]
  · rw [htogether.parties, if_pos rfl]
  · rw [Participant.receiveOnly_established, htalks]
  · rw [htogether.mail, hpromised.2.2]
    exact List.append_nil _

/-- Nobody but a party that has asked for the floor keeps it. -/
private theorem Opened.unkept {before : List SessionEvent} (h : Opened config x p before r)
    (hunasked : p.state ≠ .pendingRequest) : Unkept x r.state.machines r.state.mail := by
  obtain ⟨history, hr⟩ := h.reached
  have hknown : r.state.arbitrator.places.roster.contains x = true := hr.known h.active h.party
  obtain ⟨who, -, hmail⟩ := h.mail
  refine ⟨p, h.party, hunasked, fun _ => ⟨r.state.arbitrator.places.config.ackRequired, ?_⟩⟩
  rw [hmail]
  exact List.mem_append_right _ (List.mem_map_of_mem (Places.idle_mem_openingLetters hknown))

/-- With nothing else on its way, the dialogue of the party and the arbitrator begins. -/
private theorem Opened.converses (h : Opened config x p [] r) :
    Converses x (decide (p.state = .pendingRequest)) r.state.machines r.state.mail := by
  obtain ⟨history, hr⟩ := h.reached
  have hknown : r.state.arbitrator.places.roster.contains x = true := hr.known h.active h.party
  obtain ⟨who, rfl, hmail⟩ := h.mail
  rw [hmail, List.nil_append]
  constructor
  · have hsilent : pleas ((r.state.arbitrator.places.openingLetters who).map (·.arrival)) = [] :=
      pleas_of_letterTo fun e he => by
        obtain ⟨y, message, heq, -⟩ := Places.exists_of_mem_openingLetters he
        exact ⟨y, message, heq⟩
    refine ⟨p, h.party, ?_⟩
    rw [heard_letters, Places.mailFor_openingLetters hknown, hsilent]
    exact .announced h.alone h.ready (by simp)
  · intro y message hmem hne
    obtain ⟨e, he, heq⟩ := List.mem_map.mp hmem
    obtain ⟨z, other, rfl, hword⟩ := Places.exists_of_mem_openingLetters he
    cases heq
    exact hword hne

/-- When everything has been said, the floor is where the party left it. -/
private theorem Converses.ended {asked : Bool} (h : Converses x asked m []) :
    ∃ q, m.participants.get? x = some q ∧
      if asked = true then
        m.arbitrator.state = .taken ∧ m.arbitrator.holder.map (·.ssrc) = some x ∧
          q.state = .hasPermission
      else m.arbitrator.state = .idle ∧ m.arbitrator.holder = none ∧ q.state = .idle := by
  obtain ⟨q, hget, hdialogue⟩ := h.party
  refine ⟨q, hget, ?_⟩
  generalize q.state = state at hdialogue ⊢
  cases hdialogue with
  | taken halone =>
    obtain ⟨who, hholder, rfl⟩ := halone.holder
    have hholder : m.arbitrator.holder = some who := hholder
    exact ⟨halone.state, by rw [hholder]; rfl, rfl⟩
  | finished hstate hholder => exact ⟨hstate, hholder, rfl⟩

/-- With no time on the way, a call in which nothing is due has no messages on their way. -/
private theorem mail_eq_nil_of_settled (hs : Stage config h r.state) (hlink : config.linkDelay = 0)
    (hlater : ∀ z ∈ r.state.scheduler.pending, r.state.now < z.due) : r.state.mail = [] := by
  rw [mail, List.map_eq_nil_iff, List.filter_eq_nil_iff]
  intro z hz hletter
  have hdue := hs.punctual.letters z hz hletter
  have hlate := hlater z hz
  simp only [hs.config_eq, hlink, Time.after, UInt64.toNat_zero] at hdue
  omega

/-- A party that may talk is established with the floor during the set-up, and the parties that are
missing are set up, in any order. Nothing of this is refused, and the arbitrator gives the floor to
the party. But only a party that was waiting for the answer to a request of its own has it when
everything has been said, whatever else was on its way at the time. If nothing else was, and no
timer runs out at once, such a party has the floor in the end; any other party has given it back,
and nobody has it. -/
theorem promised_floor_kept_iff {order : List Ssrc} (hr : Reached config .resting h r)
    (hactive : r.state.active = true) (hlink : config.linkDelay = 0)
    (hstate : r.state.arbitrator.state = .initialising)
    (hget : r.state.participants.get? x = some p) (hset : p.state ≠ .startStop)
    (htalks : p.receiveOnly = false) (horder : order.Perm r.state.missing) :
    (establish x true r).1 = .ok () ∧
      ∃ s, setUpEach order (establish x true r).2 = (.ok (), s) ∧
        s.state.arbitrator.state = .taken ∧ s.state.arbitrator.holder.map (·.ssrc) = some x ∧
        (∀ last q, Advances s.state.now s last → last.state.participants.get? x = some q →
          q.state = .hasPermission → p.state = .pendingRequest) ∧
        (config.Patient → r.state.now < Time.last →
          (∀ z ∈ r.state.scheduler.pending, r.state.now < z.due) →
          ∃ last q, Advances s.state.now s last ∧ last.state.participants.get? x = some q ∧
            if p.state = .pendingRequest then
              last.state.arbitrator.state = .taken ∧
                last.state.arbitrator.holder.map (·.ssrc) = some x ∧ q.state = .hasPermission
            else
              last.state.arbitrator.state = .idle ∧ last.state.arbitrator.holder = none ∧
                q.state = .idle) := by
  obtain ⟨r₁, hestablish, honward, hsame, hpromised, hmail⟩ :=
    promised_establish hr hactive hstate hget hset htalks
  obtain ⟨s, hsetUp, honward', hopened⟩ :=
    hpromised.setUpEach (horder.symm.nodup (nodup_missing _)) fun y => by
      rw [horder.mem_iff, hsame]
  obtain ⟨who, hholder, hwho⟩ := hopened.alone.holder
  have hholder : s.state.arbitrator.holder = some who := hholder
  obtain ⟨_, hs⟩ := hopened.reached
  have hasked : (p.handle (.established true p.priority)).machine.state = .pendingRequest ↔
      p.state = .pendingRequest := by
    rw [Participant.state_established]
    split
    · next hidle => simp [hidle]
    · rfl
  refine ⟨by rw [hestablish], s, by rw [hestablish, hsetUp], hopened.alone.state,
    by rw [hholder, Option.map_some, hwho], fun last q hadvances hq hhas => ?_,
    fun hpatient hclock hlater => ?_⟩
  · by_contra hunasked
    obtain ⟨q', hq', hlost⟩ := hadvances.unkept hs.stage hlink rfl
      (hopened.unkept (mt hasked.mp hunasked))
    cases hq'.symm.trans hq
    exact hlost hhas
  · rw [hmail, mail_eq_nil_of_settled hr.stage hlink hlater] at hopened
    have hnow : s.state.now = r.state.now := (honward.trans honward').now
    have hunhurried : s.state.Unhurried :=
      (honward.trans honward').unhurried hpatient hclock fun z hz hdue =>
        absurd hdue (Nat.not_le.mpr (hlater z hz))
    obtain ⟨last, hadvances, -⟩ := hs.stage.advances hpatient (hnow.symm ▸ hclock)
    obtain ⟨q, hq, hend⟩ := (hadvances.converses hs.stage hlink rfl hpatient
      (hnow.symm ▸ hclock) hunhurried hopened.converses).ended
    simp only [decide_eq_true_eq, hasked] at hend
    exact ⟨last, q, hadvances, hq, hend⟩

def halfReady : List Operation := [.join 1 3 true, .join 2 1 false, .setUp 1]

/-- The first party has asked for the floor before it is established with it, and keeps it. -/
theorem promised_floor_kept_iff_asked :
    ∃ h r p last q, play? (halfReady ++ [.push 1, .runUntilIdle])
        ⟨Session.create 1 .emergency {} 0, []⟩ = some r ∧ Reached {} .resting h r ∧
      r.state.active = true ∧ r.state.arbitrator.state = .initialising ∧
      r.state.participants.get? 1 = some p ∧ p.receiveOnly = false ∧ p.state = .pendingRequest ∧
      (establish 1 true r).1 = .ok () ∧
      ∃ s, setUpEach [2] (establish 1 true r).2 = (.ok (), s) ∧ Advances s.state.now s last ∧
        last.state.participants.get? 1 = some q ∧ last.state.arbitrator.state = .taken ∧
        last.state.arbitrator.holder.map (·.ssrc) = some 1 ∧ q.state = .hasPermission := by
  have hplayed : (play? (halfReady ++ [.push 1, .runUntilIdle])
      ⟨Session.create 1 .emergency {} 0, []⟩).any (fun r =>
        r.state.active && decide (r.state.arbitrator.state = .initialising) &&
          decide (r.state.missing = [2]) && decide (r.state.now < Time.last) &&
          r.state.scheduler.pending.all (r.state.now < ·.due) &&
          (r.state.participants.get? 1).any fun p => p.state = .pendingRequest && !p.receiveOnly) =
        true := by
    decide +kernel
  obtain ⟨h, r, hr, hreached, hcheck⟩ := exists_reached_of_play? hplayed
  simp only [Bool.and_eq_true, decide_eq_true_eq, List.all_eq_true] at hcheck
  obtain ⟨⟨⟨⟨⟨hactive, hfloor⟩, hmissing⟩, hclock⟩, hlater⟩, hparty⟩ := hcheck
  obtain ⟨p, hget, hparty⟩ := (Option.any_eq_true _ _).mp hparty
  simp only [Bool.and_eq_true, decide_eq_true_eq, Bool.not_eq_true'] at hparty
  obtain ⟨hasked, htalks⟩ := hparty
  have hpatient : SessionConfig.Patient {} := by constructor <;> decide
  obtain ⟨hok, s, hsetUp, -, -, -, hend⟩ := promised_floor_kept_iff hreached hactive rfl hfloor
    hget (by simp [hasked]) htalks (by rw [hmissing])
  obtain ⟨last, q, hadvances, hq, hend⟩ := hend hpatient hclock hlater
  rw [if_pos hasked] at hend
  exact ⟨h, r, p, last, q, hr, hreached, hactive, hfloor, hget, htalks, hasked, hok, s, hsetUp,
    hadvances, hq, hend⟩

/-- The first party wants nothing when it is established with the floor. The floor is idle in the
end, and the party has it no longer. -/
theorem promised_floor_lost :
    ∃ h r p q, play? halfReady ⟨Session.create 1 .emergency {} 0, []⟩ = some r ∧
      Reached {} .resting h r ∧ r.state.active = true ∧
      r.state.arbitrator.state = .initialising ∧ r.state.missing = [2] ∧
      r.state.participants.get? 1 = some p ∧ p.state = .idle ∧ p.receiveOnly = false ∧
      (establish 1 true r).1 = .ok () ∧ (setUpEach [2] (establish 1 true r).2).1 = .ok () ∧
      let last := runUntilIdle (setUpEach [2] (establish 1 true r).2).2
      last.state.arbitrator.state = .idle ∧ last.state.arbitrator.holder = none ∧
        last.state.participants.get? 1 = some q ∧ q.state = .idle := by
  have hplayed : (play? halfReady ⟨Session.create 1 .emergency {} 0, []⟩).any (fun r =>
      (r.state.active && decide (r.state.arbitrator.state = .initialising) &&
        decide (r.state.missing = [2]) && decide ((establish 1 true r).1 = .ok ()) &&
        decide ((setUpEach [2] (establish 1 true r).2).1 = .ok ()) &&
        (r.state.participants.get? 1).any fun p => p.state = .idle && !p.receiveOnly) &&
      let last := runUntilIdle (setUpEach [2] (establish 1 true r).2).2
      decide (last.state.arbitrator.state = .idle) &&
        decide (last.state.arbitrator.holder = none) &&
        (last.state.participants.get? 1).any (·.state = .idle)) = true := by
    decide +kernel
  obtain ⟨h, r, hr, hreached, hcheck⟩ := exists_reached_of_play? hplayed
  simp only [Bool.and_eq_true, decide_eq_true_eq] at hcheck
  obtain ⟨⟨⟨⟨⟨⟨hactive, hfloor⟩, hmissing⟩, hok⟩, hok'⟩, hparty⟩, hend⟩ := hcheck
  obtain ⟨⟨hvacant, hnobody⟩, hafter⟩ := hend
  obtain ⟨p, hget, hparty⟩ := (Option.any_eq_true _ _).mp hparty
  obtain ⟨q, hget', hidle'⟩ := (Option.any_eq_true _ _).mp hafter
  simp only [Bool.and_eq_true, decide_eq_true_eq, Bool.not_eq_true'] at hparty
  exact ⟨h, r, p, q, hr, hreached, hactive, hfloor, hmissing, hget, hparty.1, hparty.2, hok, hok',
    hvacant, hnobody, hget', of_decide_eq_true hidle'⟩

end Session
end FloorControl
