import FloorControl.Proofs.Complaints
import FloorControl.Proofs.IdleReminders

/-!
# How often a second talker is told of its grant

When a party has got the second place, T20 tells it so again and again, until it acknowledges its
grant, leaves its place, or has been told often enough. In the last case it loses its place, is
revoked, and the observers hear of it. Before the second place is filled once more nothing else
comes of T20, and whatever happens later, no ticket that was drawn for the grant is ever accepted
again. The end of the module puts this together with the reminders of an idle floor.
-/

namespace FloorControl.Arbitrator

variable {config : ArbitratorConfig} {a : Arbitrator} {t : Turn Arbitrator} {input : Input}

def told (input : Input) (a : Arbitrator) : List FloorEvent :=
  match a.handle input with
  | .ok t => t.out.events
  | .error _ => []

def expiresT20 (a : Arbitrator) : Input → Bool
  | .expire ticket => a.dual.t20.accepts ticket
  | _ => false

def regrants (input : Input) (a : Arbitrator) : ℕ :=
  if a.expiresT20 input then (a.sent input).countP (·.message.kind = .granted) else 0

def fills (a : Arbitrator) (input : Input) : Bool :=
  !a.dual.started && (a.after input).dual.started

/-- How the arbitrator lets it be known that a grant was never acknowledged. -/
inductive Complaint where
  /-- The second talker has to give way. -/
  | revocation
  /-- The observers are told. -/
  | failure

def Complaint.voiced : Complaint → Input → Arbitrator → ℕ
  | .revocation, input, a => (a.sent input).countP (·.message.blames)
  | .failure, input, a => (a.told input).countP (·.reports .dualGrantUnacknowledged)

/-- Where T20 does not run out and the second place is not filled, a step is an ordinary one. -/
private theorem Upheld.rests {P : Turn Arbitrator → Prop} (hP : Upheld P) (h : P ⟨a, {}⟩)
    (hother : a.expiresT20 input = false) (hstays : a.fills input = false)
    (ht : a.handle input = .ok t) : P t := by
  rcases hP.handle h ht with hafter | ⟨r, rfl, hvacant, rfl⟩ | ⟨ticket, rfl, haccepts, -⟩
  · exact hafter
  · have hfilled : a.fills (.receive (.request r)) = true := by
      simp [fills, after, ht, DualFloor.started, hvacant, onDual, DualFloor.grant]
    exact absurd (hstays.symm.trans hfilled) (by decide)
  · exact absurd (hother.symm.trans haccepts) (by decide)

/-- The second place keeps its party or is left empty. -/
theorem upheld_second (who : Option Talker) :
    Upheld fun t => t.machine.dual.talker = who ∨ t.machine.dual.talker = none where
  update _ hmild h := hmild.second.elim (fun hsame => h.imp hsame.trans hsame.trans) .inr
  post _ _ h := h
  moved _ _ h := h
  arm _ h := h

/-- Nothing but T20 is ever the reason of a complaint. -/
private theorem calm_handle (h : a.revokeCause ≠ .noResources)
    (hother : a.expiresT20 input = false) (ht : a.handle input = .ok t) : t.out.Calm := by
  rcases upheld_calm.handle ⟨h, Outbox.calm_empty⟩ ht with
    hafter | ⟨r, -, -, rfl⟩ | ⟨ticket, rfl, haccepts, -⟩
  · exact hafter.2
  · exact calm_onDual_grant _ _ Outbox.calm_empty
  · exact absurd (hother.symm.trans haccepts) (by decide)

private theorem voiced_of_rests (c : Complaint) (h : a.revokeCause ≠ .noResources)
    (hother : a.expiresT20 input = false) : c.voiced input a = 0 := by
  cases ht : a.handle input with
  | error e => cases c <;> simp [Complaint.voiced, sent, told, ht]
  | ok t =>
    have hcalm := calm_handle h hother ht
    cases c with
    | revocation =>
      simp only [Complaint.voiced, sent, ht, List.countP_eq_zero]
      intro e he hblames
      exact absurd ((hcalm.letters e he).symm.trans hblames) (by decide)
    | failure =>
      simp only [Complaint.voiced, told, ht, List.countP_eq_zero]
      intro event hevent hreports
      have hordinary := hcalm.events event hevent
      cases event with
      | failure => cases hordinary
      | _ => cases hreports

/-- What comes of a ticket that T20 accepts. -/
theorem handle_t20 {ticket : Ticket} (h : a.Equipped config)
    (haccepts : a.dual.t20.accepts ticket = true) :
    ∃ who, a.dual.talker = some who ∧ a.handle (.expire ticket) = .ok
      (if a.dual.c20.arrives then
        ⟨{ a with dual :=
            { a.dual with
              t20 := a.dual.t20.rest, c20 := a.dual.c20.increment, talker := none } },
          { messages := [letterTo who.ssrc (a.revokeMessage who.ssrc .noResources)]
            events := [.failure a.callId who.ssrc .dualGrantUnacknowledged] }⟩
      else
        ⟨{ a with dual :=
            { a.dual with t20 := a.dual.t20.rest.start, c20 := a.dual.c20.increment } },
          { messages := [a.dual.grantMessage who]
            timers := [⟨a.dual.t20.rest.start.ticket, a.dual.t20.delay⟩] }⟩) := by
  obtain ⟨hruns, hticket⟩ := (Timer.accepts_iff _ _).mp haccepts
  have hid : ticket.id = .t20 := by
    have hids := ids_timers (t := ⟨a, {}⟩) h.make
    simp only [timers, List.map_cons, List.cons.injEq] at hids
    rw [hticket]
    exact hids.2.2.2.2.2.1
  have hstarted : a.dual.started = true := (h.inStep.t20 hruns).1
  obtain ⟨who, hsecond⟩ := Option.isSome_iff_exists.mp hstarted
  have hknown : a.roster.contains who.ssrc = true := by
    have hplaced : who.ssrc ∈ a.places.placed :=
      Places.talkers_subset_placed (Places.second_mem_talkers hsecond)
    exact (h.sound.entitled _ hplaced).contains
  refine ⟨who, hsecond, ?_⟩
  have hhandled : a.handle (.expire ticket) = .ok (expireT20 ticket ⟨a, {}⟩) := by
    simp [handle, expire, hid]
  rw [hhandled, expireT20_of_accepts (t := ⟨a, {}⟩) haccepts hsecond]
  split
  · simp [sendTo, Turn.update, Turn.post, Turn.tell, hknown, letterTo]
  · rfl

def grantReminders (config : ArbitratorConfig) (c : Complaint) : Repetition Arbitrator Input where
  limit := config.c20Limit.toNat
  goes a := a.dual.t20.running = true
  finished a := a.dual.talker = none ∧ a.dual.t20.running = false
  count a := a.dual.c20.value
  expiries input a := if a.expiresT20 input then 1 else 0
  repeats := regrants
  failures := c.voiced

private theorem beat_t20 {ticket : Ticket} (c : Complaint) (h : a.Equipped config)
    (haccepts : a.dual.t20.accepts ticket = true) :
    (grantReminders config c).Beat (.expire ticket) a (a.after (.expire ticket)) := by
  have hexpires : a.expiresT20 (.expire ticket) = true := haccepts
  have hruns := ((Timer.accepts_iff _ _).mp haccepts).1
  obtain ⟨who, -, hhandled⟩ := handle_t20 h haccepts
  cases harrives : a.dual.c20.arrives with
  | true =>
    have hlast : a.dual.c20.value + 1 = config.c20Limit.toNat := by
      simpa [Counter.arrives, h.c20] using harrives
    rw [harrives, if_pos rfl] at hhandled
    have hfinished : (grantReminders config c).finished (a.after (.expire ticket)) := by
      simp only [after, hhandled]
      exact ⟨rfl, rfl⟩
    refine .ends hruns ?_ hfinished hlast (if_pos hexpires) ?_ ?_
    · exact fun hruns => absurd (hfinished.2.symm.trans hruns) (by decide)
    · simp [grantReminders, regrants, sent, hhandled, letterTo, revokeMessage, Message.kind]
    · cases c with
      | revocation =>
        simp [grantReminders, Complaint.voiced, sent, hhandled, letterTo, revokeMessage,
          Message.blames]
      | failure =>
        simp [grantReminders, Complaint.voiced, told, hhandled, FloorEvent.reports]
  | false =>
    have hbelow : a.dual.c20.value + 1 ≠ config.c20Limit.toNat := by
      simpa [Counter.arrives, h.c20] using harrives
    rw [harrives, if_neg (by decide)] at hhandled
    have hstarted : (a.after (.expire ticket)).dual.t20.running = true := by
      simp only [after, hhandled]
      rfl
    refine .again hruns hstarted hbelow (fun hroom => ?_) (if_pos hexpires) ?_ ?_
    · change (a.after (.expire ticket)).dual.c20.value = a.dual.c20.value + 1
      have hroom : a.dual.c20.value < a.dual.c20.limit := h.c20.symm ▸ hroom
      simp [after, hhandled, Counter.increment, hroom]
    · simp [grantReminders, regrants, hexpires, sent, hhandled, DualFloor.grantMessage,
        Message.kind]
    · cases c with
      | revocation =>
        simp [grantReminders, Complaint.voiced, sent, hhandled, DualFloor.grantMessage,
          Message.blames]
      | failure => simp [grantReminders, Complaint.voiced, told, hhandled]

/-- What a step adds to the account of T20, unless the second place is filled by it. -/
theorem beat_grantReminders (c : Complaint) (h : a.Equipped config) (hgoes : input ≠ .stopTimers)
    (hstays : a.fills input = false) :
    (grantReminders config c).Beat input a (a.after input) := by
  cases hexpires : a.expiresT20 input with
  | true =>
    cases input with
    | expire ticket => exact beat_t20 c h hexpires
    | _ => cases hexpires
  | false =>
    have hkept : (a.after input).dual.t20.running = true → (a.after input).dual = a.dual := by
      cases ht : a.handle input with
      | error e => exact fun _ => by simp [after, ht]
      | ok t =>
        have hafter : a.after input = t.machine := by simp [after, ht]
        rw [hafter]
        exact (upheld_dual a.dual).rests (fun _ => rfl) hexpires hstays ht
    have hsteps := (equipped_after input hgoes h).inStep
    refine .rests ?_ ?_ (voiced_of_rests c h.cause hexpires) (fun hruns => ?_) ?_
    · simp [grantReminders, hexpires]
    · simp [grantReminders, regrants, hexpires]
    · have hruns : (a.after input).dual.t20.running = true := hruns
      have hdual := hkept hruns
      rw [hdual] at hruns
      exact ⟨hruns, congrArg (·.c20.value) hdual⟩
    · rintro ⟨hvacant, -⟩
      have hempty : (a.after input).dual.started = false := by
        simpa [fills, DualFloor.started, hvacant] using hstays
      refine ⟨by simpa [DualFloor.started] using hempty, Bool.eq_false_iff.mpr fun hruns => ?_⟩
      have hstarted : (a.after input).dual.started = true := (hsteps.t20 hruns).1
      exact absurd (hempty.symm.trans hstarted) (by decide)

/-- When the second place has been filled, the grant has not been repeated yet. -/
theorem c20_of_fills (h : a.Equipped config) (hfills : a.fills input = true)
    (hruns : (a.after input).dual.t20.running = true) : (a.after input).dual.c20.value = 0 := by
  obtain ⟨hvacant, hfilled⟩ : a.dual.started = false ∧ (a.after input).dual.started = true := by
    simpa [fills] using hfills
  cases ht : a.handle input with
  | error e =>
    have hafter : a.after input = a := by simp [after, ht]
    exact absurd ((hafter ▸ hvacant).symm.trans hfilled) (by decide)
  | ok t =>
    have hafter : a.after input = t.machine := by simp [after, ht]
    rw [hafter] at hfilled hruns ⊢
    rcases (upheld_dual a.dual).handle (fun _ => rfl) ht with
      hkept | ⟨r, -, -, rfl⟩ | ⟨ticket, -, haccepts, -⟩
    · rw [hkept hruns] at hfilled
      exact absurd (hvacant.symm.trans hfilled) (by decide)
    · simp only [onDual, DualFloor.grant]
      split <;> rfl
    · have hstarted := (h.inStep.t20 ((Timer.accepts_iff _ _).mp haccepts).1).1
      exact absurd (hvacant.symm.trans hstarted) (by decide)

/-- As long as the second place is not filled, it belongs to the same party or to nobody. -/
theorem talker_after {who : Option Talker} (h : a.Equipped config)
    (hstays : a.fills input = false) (hsecond : a.dual.talker = who ∨ a.dual.talker = none) :
    (a.after input).dual.talker = who ∨ (a.after input).dual.talker = none := by
  cases hexpires : a.expiresT20 input with
  | true =>
    cases input with
    | expire ticket =>
      obtain ⟨second, -, hhandled⟩ := handle_t20 h hexpires
      simp only [after, hhandled]
      split
      · exact .inr rfl
      · exact hsecond
    | _ => cases hexpires
  | false =>
    cases ht : a.handle input with
    | error e => simpa [after, ht] using hsecond
    | ok t =>
      have hafter : a.after input = t.machine := by simp [after, ht]
      rw [hafter]
      exact (upheld_second who).rests hsecond hexpires hstays ht

/-- The second talker has acknowledged its grant, or it has its place no more. -/
def Settled (b : Arbitrator) (inputs : List Input) : Prop :=
  (b.run inputs).dual.talker = none ∨ ∃ before x after,
    inputs = before ++ .receive (.ack x .granted) :: after ∧
      (b.run before).dual.isTalker x = true

/-- What comes of T20 while `later` happens to an arbitrator with the given second talker, if T20
runs out `k` times. -/
structure RemindsTalker (limit k : ℕ) (who : Talker) (b : Arbitrator) (later : List Input) :
    Prop where
  within : k ≤ limit
  grants : tally after regrants later b = min k (limit - 1)
  complaints : ∀ c : Complaint, tally after c.voiced later b = if k = limit then 1 else 0
  vacated : k = limit →
    (b.run later).dual.talker = none ∧ (b.run later).dual.t20.running = false
  /-- Each time the second talker is told of its grant, or that it has to give way. -/
  letters : Throughout after (fun input a => a.expiresT20 input = true →
    a.dual.talker = some who ∧
      (a.sent input = [a.dual.grantMessage who] ∧ a.told input = [] ∨
        a.sent input = [letterTo who.ssrc (a.revokeMessage who.ssrc .noResources)] ∧
          a.told input = [.failure a.callId who.ssrc .dualGrantUnacknowledged])) later b
  /-- When everything is settled, nothing comes of T20 any more. -/
  settled : ∀ first rest, later = first ++ rest → b.Settled first →
    tally after regrants rest (b.run first) = 0 ∧
      ∀ c : Complaint, tally after c.voiced rest (b.run first) = 0
  /-- Also when the second place has been filled again, no ticket is accepted that was drawn
  before everything was settled. -/
  spent : ∀ first rest, later = first ++ rest → b.Settled first →
    ∀ more, .stopTimers ∉ more → ∀ ticket, ticket.id = .t20 →
      ticket.generation ≤ (b.run first).dual.t20.generation →
      ((b.run first).run more).handle (.expire ticket) = .ok ⟨(b.run first).run more, {}⟩

section Stay

variable {b : Arbitrator} {later first rest : List Input}

/-- A ticket that T20 accepts leads to a grant that is sent again or to a revocation. -/
private theorem letters_t20 {who : Talker} (h : a.Equipped config)
    (hsecond : a.dual.talker = some who ∨ a.dual.talker = none)
    (hexpires : a.expiresT20 input = true) :
    a.dual.talker = some who ∧
      (a.sent input = [a.dual.grantMessage who] ∧ a.told input = [] ∨
        a.sent input = [letterTo who.ssrc (a.revokeMessage who.ssrc .noResources)] ∧
          a.told input = [.failure a.callId who.ssrc .dualGrantUnacknowledged]) := by
  cases input with
  | expire ticket =>
    obtain ⟨second, htalker, hhandled⟩ := handle_t20 h hexpires
    obtain rfl : second = who := by simpa [htalker] using hsecond
    refine ⟨htalker, ?_⟩
    cases harrives : a.dual.c20.arrives with
    | true => exact .inr (by simp [sent, told, hhandled, harrives])
    | false => exact .inl (by simp [sent, told, hhandled, harrives])
  | _ => cases hexpires

private theorem stopped_of_settled {c : Complaint} (h : (b.run first).Equipped config)
    (hbeats : (grantReminders config c).Beats after first b) (hsettled : b.Settled first) :
    (b.run first).dual.t20.running = false := by
  rw [Bool.eq_false_iff]
  intro hruns
  rcases hsettled with hvacant | ⟨before, x, later, rfl, hsecond⟩
  · have hstarted : (b.run first).dual.started = true := (h.inStep.t20 hruns).1
    simp [DualFloor.started, hvacant] at hstarted
  · have hacked := (throughout_append.mp hbeats).2
    refine Repetition.Beats.not_goes (r := grantReminders config c) hacked.2 (fun hstarted => ?_) ?_
    · have hstopped := t20_receive_ack (t := ⟨b.run before, {}⟩) hsecond
      exact absurd (hstopped.symm.trans hstarted) (by decide)
    · rw [run, List.foldl_append] at hruns
      exact hruns

/-- As long as the second place is not filled once more, its talker is told of its grant as often as
T20 runs out, except for the last time, when it loses its place. -/
theorem remindsTalker {entry : Input} (h : a.Equipped config)
    (hlimit : 1 ≤ config.c20Limit.toNat) (hgoes : .stopTimers ∉ entry :: later)
    (hb : b = a.after entry) (hfills : a.fills entry = true)
    (hstays : Throughout after (fun input a => a.fills input = false) later b) :
    ∃ who, b.dual.talker = some who ∧
      RemindsTalker config.c20Limit.toNat
        (tally after (fun input a => if a.expiresT20 input then 1 else 0) later b) who b later := by
  simp only [List.mem_cons, not_or] at hgoes
  have hentered : b.Equipped config := hb ▸ equipped_after entry (Ne.symm hgoes.1) h
  have hbeats (c : Complaint) : (grantReminders config c).Beats after later b :=
    (hentered.throughout (I := fun _ => True)
      (fun h hgoes _ hstays => ⟨trivial, beat_grantReminders c h hgoes hstays⟩)
      hgoes.2 trivial hstays).2
  have hafresh (c : Complaint) := (hbeats c).afresh hlimit fun hruns =>
    hb ▸ c20_of_fills h hfills (hb ▸ hruns)
  obtain ⟨who, hsecond⟩ : ∃ who, b.dual.talker = some who := by
    have hstarted : b.dual.started = true := by
      subst hb
      simpa using (Bool.and_eq_true_iff.mp hfills).2
    exact Option.isSome_iff_exists.mp hstarted
  obtain ⟨-, hletters⟩ := hentered.throughout
    (I := fun a => a.dual.talker = some who ∨ a.dual.talker = none)
    (fun h _ hsecond hstays => ⟨talker_after h hstays hsecond, letters_t20 h hsecond⟩)
    hgoes.2 (.inl hsecond) hstays
  have hfirst (first rest : List Input) (heq : later = first ++ rest) :
      (b.run first).Equipped config :=
    equipped_run first (fun hmem => hgoes.2 (heq ▸ List.mem_append_left _ hmem)) hentered
  have hstopped (first rest : List Input) (heq : later = first ++ rest)
      (hsettled : b.Settled first) : (b.run first).dual.t20.running = false := by
    refine stopped_of_settled (c := .failure) (hfirst first rest heq) ?_ hsettled
    exact (throughout_append.mp (heq ▸ hbeats .failure)).1
  refine ⟨who, hsecond, ?_⟩
  obtain ⟨hwithin, hgrants, -, hvacated⟩ := hafresh .failure
  refine ⟨hwithin, hgrants, fun c => (hafresh c).2.2.1, hvacated, hletters, ?_, ?_⟩
  · intro first rest heq hsettled
    have hended (c : Complaint) := Repetition.Beats.ended (r := grantReminders config c)
      (throughout_append.mp (heq ▸ hbeats c)).2 fun hruns =>
        absurd ((hstopped first rest heq hsettled).symm.trans hruns) (by decide)
    exact ⟨(hended .failure).2.1, fun c => (hended c).2.2.1⟩
  · intro first rest heq hsettled more hmore ticket hid hold
    have hretires := retires_run more hmore (hfirst first rest heq)
      (Timer.retires_of_stopped (hstopped first rest heq hsettled))
    simp only [handle, expire, hid]
    rw [expireT20_of_refused (hretires.refuses hold)]

/-- However an arbitrator is configured, as long as both limits allow a message to be sent at all,
and whatever happened before, if only its timers were never just stopped: from one time that the
floor becomes idle to the next, and from one grant of the second place to the next, the parties are
told so as often as the timer runs out and the limit allows. -/
theorem reminders_bounded (callId : CallId) (callType : CallType) (config : ArbitratorConfig)
    (h7 : 1 ≤ config.c7Limit.toNat) (h20 : 1 ≤ config.c20Limit.toNat) (earlier : List Input)
    (entry : Input) (later : List Input) (hgoes : .stopTimers ∉ earlier ++ entry :: later)
    {a b : Arbitrator} (ha : a = (create callId callType config).run earlier)
    (hb : b = a.after entry) :
    (a.fallsIdle entry = true →
      Throughout after (fun input a => a.fallsIdle input = false) later b →
      RemindsIdle config.c7Limit.toNat
        (tally after (fun input a => if a.expiresT7 input then 1 else 0) later b) b later) ∧
    (a.fills entry = true → Throughout after (fun input a => a.fills input = false) later b →
      ∃ who, b.dual.talker = some who ∧
        RemindsTalker config.c20Limit.toNat
          (tally after (fun input a => if a.expiresT20 input then 1 else 0) later b) who b
          later) := by
  simp only [List.mem_append, not_or] at hgoes
  have hequipped : a.Equipped config :=
    ha ▸ equipped_run earlier hgoes.1 (equipped_create callId callType config)
  exact ⟨fun hfalls hstays => remindsIdle hequipped h7 hgoes.2 hb hfalls hstays,
    fun hfills hstays => remindsTalker hequipped h20 hgoes.2 hb hfills hstays⟩

end Stay

/-- Nobody takes the floor, and a second talker never says that it has heard of its grant. Both are
told once more, an old ticket does nothing, and with the second ticket it is over. -/
theorem reminders_bounded_unheard :
    let config : ArbitratorConfig :=
      { c7Limit := 2, c20Limit := 2, dualFloorSupported := true, ackRequired := true }
    let ticket (id : TimerId) (generation : ℕ) : Input := .expire ⟨.arbitrator, id, generation⟩
    let request (ssrc : Ssrc) (dual : Bool) : Input :=
      .receive (.request ⟨ssrc, 5, if dual then .emergency else .normal, dual, true⟩)
    let gathering := [.add 1 5 true, .add 2 5 false, .initialized 1]
    let talking := gathering ++ [.initialized 2, request 1 false]
    let idle := ((create 7 .basic config).run gathering).after (.initialized 2)
    let dual := ((create 7 .basic config).run talking).after (request 2 true)
    tally after (fun input a => if a.reannounces input then 1 else 0)
        [ticket .t7 1, ticket .t7 1, ticket .t7 2] idle = 1 ∧
      (idle.run [ticket .t7 1, ticket .t7 1, ticket .t7 2]).t7.running = false ∧
      tally after regrants [ticket .t20 1, ticket .t20 1, ticket .t20 2] dual = 1 ∧
      tally after Complaint.revocation.voiced
        [ticket .t20 1, ticket .t20 1, ticket .t20 2] dual = 1 ∧
      (dual.run [ticket .t20 1, ticket .t20 1, ticket .t20 2]).dual.talker = none := by
  intro config ticket request gathering talking idle dual
  obtain ⟨hidle, -⟩ := reminders_bounded 7 .basic config (by decide) (by decide) gathering
    (.initialized 2) [ticket .t7 1, ticket .t7 1, ticket .t7 2] (by decide) rfl (b := idle) rfl
  obtain ⟨-, hdual⟩ := reminders_bounded 7 .basic config (by decide) (by decide) talking
    (request 2 true) [ticket .t20 1, ticket .t20 1, ticket .t20 2] (by decide) rfl (b := dual) rfl
  have hreminded := hidle (by decide +kernel) (by decide +kernel)
  obtain ⟨who, -, htold⟩ := hdual (by decide +kernel) (by decide +kernel)
  refine ⟨hreminded.reminders.trans (by decide +kernel), hreminded.silence (by decide +kernel),
    htold.grants.trans (by decide +kernel), (htold.complaints .revocation).trans ?_,
    (htold.vacated (by decide +kernel)).1⟩
  exact if_pos (by decide +kernel)

end FloorControl.Arbitrator
