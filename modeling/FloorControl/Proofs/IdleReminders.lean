import FloorControl.Proofs.ArbitratorMake

/-!
# How often the parties are told that the floor is idle

When the floor has become idle, T7 tells all parties so again and again, until they have been told
often enough. Whatever happens in the meantime, and also if the floor is given to somebody, T7 is
not started anew before the floor becomes idle once more. While the floor is idle, nobody else is
told so but a party that has asked for it.
-/

namespace FloorControl.Arbitrator

variable {config : ArbitratorConfig} {a : Arbitrator} {t : Turn Arbitrator} {input : Input}

/-- Whether the party asks how the floor stands, by being set up or by giving back what it does not
have. -/
def Input.asks (x : Ssrc) : Input → Bool
  | .initialized ssrc => ssrc = x
  | .receive (.release ssrc) => ssrc = x
  | _ => false

def expiresT7 (a : Arbitrator) : Input → Bool
  | .expire ticket => a.t7.accepts ticket
  | _ => false

def reannounces (a : Arbitrator) (input : Input) : Bool :=
  a.expiresT7 input && (a.after input).t7.running

def fallsIdle (a : Arbitrator) (input : Input) : Bool :=
  a.state ≠ .idle && (a.after input).state = .idle

/-- Where the floor has become idle in a turn, nobody has been reminded yet. -/
def Fresh (t : Turn Arbitrator) : Prop := t.machine.state = .idle → t.machine.c7.value = 0

namespace Fresh

theorem of_state {state : ArbitratorState} (hstate : t.machine.state = state)
    (hother : state ≠ .idle) : Fresh t :=
  fun hidle => absurd (hstate.symm.trans hidle) hother

theorem congr {u : Turn Arbitrator} (h : Fresh t) (hstate : u.machine.state = t.machine.state)
    (hc7 : u.machine.c7 = t.machine.c7) : Fresh u := by
  rw [Fresh, hstate, hc7]
  exact h

theorem sendTo (h : Fresh t) (ssrc : Ssrc) (message : Message) : Fresh (sendTo ssrc message t) :=
  h.congr (by rw [machine_sendTo]) (by rw [machine_sendTo])

theorem moveTo (h : Fresh t) (next : ArbitratorState) : Fresh (moveTo next t) := by
  by_cases hsame : t.machine.state = next
  · simp only [Arbitrator.moveTo, hsame, if_true]
    exact h
  · by_cases hidle : next = .idle
    · subst hidle
      intro _
      simp only [Arbitrator.moveTo, hsame, if_false]
      rfl
    · exact of_state (state_moveTo next) hidle

theorem grant (who : Talker) (t : Turn Arbitrator) : Fresh (grant who t) := by
  have hstate : (Arbitrator.grant who t).machine.state = .taken :=
    congrArg Places.state (places_grant who)
  exact of_state hstate (by decide)

theorem becomeIdle (h : Fresh t) : Fresh (becomeIdle t) := by
  simp only [Arbitrator.becomeIdle]
  split
  · exact h
  · split
    · exact h.moveTo .idle
    · next ssrc _ =>
      rcases grantImplicit_cases ssrc ((Arbitrator.moveTo .idle t).update fun a =>
          { a with implicitRequest := none }) with ⟨-, heq⟩ | ⟨who, -, -, heq⟩
      · rw [heq]
        exact (h.moveTo .idle).congr rfl rfl
      · rw [heq]
        exact grant who _

theorem checkReady (h : Fresh t) : Fresh (checkReady t) := by
  simp only [Arbitrator.checkReady]
  split
  · exact becomeIdle (t := broadcast t.machine.idleMessage t) h
  · exact h

theorem revokeHolder (h : Fresh t) (cause : RevokeCause) : Fresh (revokeHolder cause t) := by
  simp only [Arbitrator.revokeHolder]
  split
  · exact h
  · refine moveTo (sendTo ?_ _ _) _
    exact h.congr rfl rfl

end Fresh

private theorem state_queueOrDeny (who : Talker) (willing : Bool) (t : Turn Arbitrator) :
    (queueOrDeny who willing t).machine.state = t.machine.state := by
  rcases queueOrDeny_cases who willing t with ⟨_, _, _, -, hplaces, -⟩ | ⟨_, _, hplaces, -⟩
  · exact congrArg Places.state hplaces
  · exact congrArg Places.state hplaces

private theorem fresh_promote (former : Option Talker) (second : Talker) (t : Turn Arbitrator) :
    Fresh (promote former second t) := by
  have hstate : (promoted former second t).machine.state = .taken := by
    simp only [promoted]
    exact (congrArg Places.state places_refreshT4).trans (state_moveTo .taken)
  have hfresh : Fresh (promoted former second t) := .of_state hstate (by decide)
  rw [promote_eq_promoted]
  split
  · exact hfresh
  · split
    · exact hfresh.revokeHolder _
    · exact .of_state ((state_queueOrDeny _ _ _).trans hstate) (by decide)

theorem Fresh.endHolder (h : Fresh t) : Fresh (endHolder t) := by
  rcases endHolder_cases t with ⟨second, heq⟩ | ⟨who, u, heq, -⟩ | heq
  · rw [heq]
    exact fresh_promote _ _ _
  · rw [heq]
    exact .grant who _
  · rw [heq]
    exact Fresh.becomeIdle (t := broadcast t.machine.idleMessage (vacated t)) h

private theorem fresh_requestWhileOccupied (r : Request) (receiveOnly : Bool)
    (hstate : t.machine.state ≠ .idle) : Fresh (requestWhileOccupied r receiveOnly t) := by
  have hsame {u : Turn Arbitrator} (hu : u.machine.state = t.machine.state) : Fresh u :=
    .of_state hu hstate
  have hreaction := reaction_requestWhileOccupied r receiveOnly t
  generalize requestWhileOccupied r receiveOnly t = u at hreaction ⊢
  cases hreaction with
  | holder | waiting | preemptor | listens => exact Fresh.sendTo (hsame rfl) _ _
  | second | seconded | parked => exact hsame rfl
  | preempted =>
    refine Fresh.revokeHolder ?_ _
    exact hsame rfl
  | supplanted =>
    refine Fresh.revokeHolder ?_ _
    exact hsame (state_queueOrDeny _ _ _)
  | displaced | enlisted => exact hsame (state_queueOrDeny _ _ _)

private theorem fresh_receive (message : Message) (hstate : a.state ≠ .idle) :
    Fresh (receive message ⟨a, {}⟩) := by
  have hsame {u : Turn Arbitrator} (hu : u.machine.state = a.state) : Fresh u :=
    .of_state hu hstate
  cases message with
  | request r =>
    simp only [receive, receiveRequest]
    split
    · exact hsame rfl
    · split
      · next hidle => exact absurd hidle hstate
      · exact fresh_requestWhileOccupied r _ hstate
      · exact fresh_requestWhileOccupied r _ hstate
      all_goals exact hsame rfl
  | release ssrc =>
    simp only [receive, receiveRelease, sendTaken]
    split
    · exact hsame rfl
    split
    · exact Fresh.endHolder (hsame rfl)
    split
    · split <;> exact hsame rfl
    · refine hsame ((congrArg Places.state places_refreshT4).trans ?_)
      split
      · rw [machine_sendTo]
        rfl
      · rfl
  | queuePositionRequest ssrc =>
    simp only [receive, receiveQueuePositionRequest]
    split
    · exact Fresh.sendTo (hsame rfl) _ _
    · split
      · exact Fresh.sendTo (hsame rfl) _ _
      · exact hsame rfl
  | ack ssrc acked =>
    refine hsame ?_
    simp only [receive, Turn.machine_update, receiveAck]
    split <;> rfl
  | granted | denied | idle | taken | revoke | queuePositionInfo => exact hsame rfl

private theorem fresh_expire (ticket : Ticket) (hstate : a.state ≠ .idle) :
    Fresh (expire ticket ⟨a, {}⟩) := by
  have hsame {u : Turn Arbitrator} (hu : u.machine.state = a.state) : Fresh u :=
    .of_state hu hstate
  simp only [expire]
  split
  · split
    · simp only [expireT1]
      split
      · refine Fresh.congr (Fresh.sendTo ?_ _ _) rfl rfl
        exact hsame rfl
      · exact hsame rfl
    · exact hsame rfl
  · split
    · simp only [expireT2]
      split
      · refine Fresh.revokeHolder ?_ _
        exact hsame rfl
      · exact hsame rfl
    · exact hsame rfl
  · split
    · simp only [expireT3]
      split
      · refine Fresh.endHolder ?_
        exact hsame rfl
      · exact hsame rfl
    · exact hsame rfl
  · split
    · refine hsame ((congrArg Places.state places_refreshT4).trans ?_)
      rw [machine_sendPositions]
      rfl
    · exact hsame rfl
  · split
    · simp only [expireT7]
      split
      · next hidle => exact absurd hidle hstate
      · exact hsame rfl
    · exact hsame rfl
  · refine hsame ?_
    simp only [expireT20]
    split
    · rw [Turn.machine_tell, machine_sendTo]
    all_goals rfl
  all_goals exact hsame rfl

private theorem fresh_handle (hstate : a.state ≠ .idle) (ht : a.handle input = .ok t) :
    Fresh t := by
  have hsame {u : Turn Arbitrator} (hu : u.machine.state = a.state) : Fresh u :=
    .of_state hu hstate
  cases input with
  | add ssrc priority originator =>
    simp only [handle, addParticipant] at ht
    split at ht
    · cases ht
    · cases ht
      exact hsame rfl
  | initialized ssrc =>
    simp only [handle, callInitialized] at ht
    split at ht
    · cases ht
    · cases ht
      split
      · exact (Fresh.moveTo (hsame rfl) _).checkReady
      · exact Fresh.checkReady (hsame rfl)
      · next hidle => exact absurd hidle hstate
      · split
        · refine Fresh.sendTo ?_ _ _
          exact hsame rfl
        · exact hsame rfl
      · split
        · refine Fresh.sendTo ?_ _ _
          exact hsame rfl
        · exact hsame rfl
      · exact hsame rfl
  | implicitRequest ssrc =>
    simp only [handle, implicitFloorRequest] at ht
    split at ht
    · cases ht
    · cases ht
      split
      · next hidle => exact absurd hidle hstate
      all_goals exact hsame rfl
  | leave ssrc =>
    simp only [handle, clientRelease] at ht
    split at ht
    · cases ht
    · cases ht
      have hrelieved := Fresh.endHolder (t := (⟨a, {}⟩ : Turn Arbitrator).update fun a =>
        forget ssrc { a with roster := a.roster.erase ssrc }) (hsame rfl)
      have hrefreshed : Fresh (refreshT4 ((⟨a, {}⟩ : Turn Arbitrator).update fun a =>
          forget ssrc { a with roster := a.roster.erase ssrc })) :=
        hsame (congrArg Places.state places_refreshT4)
      split <;> split
      · exact hrelieved.checkReady
      · exact hrelieved
      · exact hrefreshed.checkReady
      · exact hrefreshed
  | receive message =>
    cases ht
    exact fresh_receive message hstate
  | expire ticket =>
    cases ht
    exact fresh_expire ticket hstate
  | beginRelease =>
    cases ht
    exact .of_state (congrArg Places.state places_beginRelease) (by simp [Places.emptied])
  | finishRelease =>
    cases ht
    simp only [finishRelease]
    split
    · exact .of_state (state_moveTo .startStop) (by decide)
    · exact hsame rfl
  | stopTimers =>
    cases ht
    exact hsame rfl

/-- What happens while the floor is idle, if T7 does not run out. -/
structure Idles (a : Arbitrator) (input : Input) (t : Turn Arbitrator) : Prop where
  t7 : t.machine.state = .idle → t.machine.t7.running = true →
    t.machine.t7 = a.t7 ∧ t.machine.c7 = a.c7
  letters : ∀ e ∈ t.out.messages, e.message.kind = .idle →
    ∃ x, input.asks x = true ∧ e = letterTo x a.idleMessage

private theorem idles_silent {b : Arbitrator} (ht7 : b.t7 = a.t7) (hc7 : b.c7 = a.c7) :
    Idles a input ⟨b, {}⟩ :=
  ⟨fun _ _ => ⟨ht7, hc7⟩, by simp⟩

private theorem Idles.sendTo (h : Idles a input t) (ssrc : Ssrc) {message : Message}
    (hmessage : message.kind = .idle → input.asks ssrc = true ∧ message = a.idleMessage) :
    Idles a input (sendTo ssrc message t) := by
  constructor
  · rw [machine_sendTo]
    exact h.t7
  · intro e he hkind
    rw [messages_sendTo] at he
    rcases List.mem_append.mp he with he | he
    · exact h.letters e he hkind
    · obtain ⟨-, rfl⟩ := mem_lettersTo.mp he
      obtain ⟨hasks, rfl⟩ := hmessage hkind
      exact ⟨ssrc, hasks, rfl⟩

private theorem idles_grant (h : Idles a input t) (who : Talker) : Idles a input (grant who t) := by
  constructor
  · intro hidle
    have htaken : (grant who t).machine.state = .taken := congrArg Places.state (places_grant who)
    rw [htaken] at hidle
    cases hidle
  · intro e he hkind
    rw [messages_grant] at he
    rcases List.mem_append.mp he with he | he
    · rcases List.mem_append.mp he with he | he
      · exact h.letters e he hkind
      · obtain ⟨-, rfl⟩ := mem_lettersTo.mp he
        simp [letterTo, grantedMessage, Message.kind] at hkind
    · obtain ⟨x, -, -, rfl⟩ := mem_lettersExcept.mp he
      simp [letterTo, takenMessage, Message.kind] at hkind

private theorem idles_grantImplicit (h : Idles a input t) (ssrc : Ssrc) :
    Idles a input (grantImplicit ssrc t) := by
  rcases grantImplicit_cases ssrc t with ⟨-, heq⟩ | ⟨who, -, -, heq⟩
  · exact heq.symm ▸ h
  · exact heq.symm ▸ idles_grant h who

private theorem idles_refreshT4 (h : Idles a input t) : Idles a input (refreshT4 t) := by
  have hstate : (refreshT4 t).machine.state = t.machine.state :=
    congrArg Places.state places_refreshT4
  have ht7 : (refreshT4 t).machine.t7 = t.machine.t7 := by
    simp only [refreshT4]
    split
    · split <;> rfl
    · rfl
  have hc7 : (refreshT4 t).machine.c7 = t.machine.c7 := by
    simp only [refreshT4]
    split
    · split <;> rfl
    · rfl
  constructor
  · rw [hstate, ht7, hc7]
    exact h.t7
  · rw [messages_refreshT4]
    exact h.letters

section Idle

variable (hidle : a.state = .idle)

include hidle

private theorem idles_receive (message : Message) :
    Idles a (.receive message) (receive message ⟨a, {}⟩) := by
  have hsilent : Idles a (.receive message) ⟨a, {}⟩ := idles_silent rfl rfl
  have hvacant : a.occupied = false := by simp [occupied, hidle, ArbitratorState.occupied]
  cases message with
  | request r =>
    simp only [receive, receiveRequest, hidle]
    split
    · exact hsilent
    · split
      · exact hsilent.sendTo _ (by simp [Message.kind])
      · exact idles_grant hsilent _
  | release ssrc =>
    simp only [receive, receiveRelease, hvacant, hidle, Bool.not_false, if_true]
    exact hsilent.sendTo _ fun _ => ⟨by simp [Input.asks], rfl⟩
  | queuePositionRequest ssrc =>
    simp only [receive, receiveQueuePositionRequest]
    split
    · exact hsilent.sendTo _ (by simp [Message.kind])
    · split
      · exact hsilent.sendTo _ (by simp [Message.kind])
      · exact hsilent
  | ack ssrc acked =>
    refine ⟨fun _ _ => ?_, by simp [receive]⟩
    simp only [receive, Turn.machine_update, receiveAck]
    split
    all_goals exact ⟨rfl, rfl⟩
  | granted | denied | idle | taken | revoke | queuePositionInfo => exact hsilent

/-- While the floor is idle, no timer runs but T7. -/
private theorem idles_expire {ticket : Ticket} (h : a.Equipped config)
    (hother : a.t7.accepts ticket = false) : expire ticket ⟨a, {}⟩ = ⟨a, {}⟩ := by
  have hsteps := h.inStep
  have hvacant : a.places.state.occupied = false := by
    change a.state.occupied = false
    rw [hidle]
    rfl
  have hsecond : a.dual.talker = none := h.sound.second_eq_none hvacant
  have hrefuses {timer : Timer} (hruns : timer.running = true → False) :
      timer.accepts ticket = false :=
    Bool.eq_false_iff.mpr fun haccepts => hruns ((Timer.accepts_iff _ _).mp haccepts).1
  have hstate (state : ArbitratorState) (hne : state ≠ .idle) : a.gears.state ≠ state :=
    fun heq => hne (heq ▸ hidle)
  refine expire_of_refused fun timer htimer => ?_
  simp only [timers, List.mem_cons, List.not_mem_nil, or_false] at htimer
  rcases htimer with rfl | rfl | rfl | rfl | rfl | rfl
  · exact hrefuses fun hruns => hstate .pendingRevoke (by decide) (hsteps.t1 hruns)
  · exact hrefuses fun hruns => hstate .taken (by decide) (hsteps.t2 hruns)
  · exact hrefuses fun hruns => hstate .pendingRevoke (by decide) (hsteps.t3 hruns)
  · refine hrefuses fun hruns => ?_
    have hoccupied := (hsteps.t4.mp hruns).1
    exact absurd (hvacant.symm.trans hoccupied) (by decide)
  · exact hother
  · refine hrefuses fun hruns => ?_
    have hstarted : a.dual.started = true := (hsteps.t20 hruns).1
    simp [DualFloor.started, hsecond] at hstarted

/-- Unless T7 runs out, a step while the floor is idle leaves T7 alone, stops it or gives the floor
to somebody, and tells nobody that the floor is idle who has not asked. -/
theorem idles_handle (h : a.Equipped config) (hother : a.expiresT7 input = false)
    (ht : a.handle input = .ok t) : Idles a input t := by
  have hvacant : a.occupied = false := by simp [occupied, hidle, ArbitratorState.occupied]
  cases input with
  | add ssrc priority originator =>
    simp only [handle, addParticipant] at ht
    split at ht
    · cases ht
    · cases ht
      exact idles_silent rfl rfl
  | initialized ssrc =>
    simp only [handle, callInitialized] at ht
    split at ht
    · cases ht
    · cases ht
      simp only [Turn.machine_update, hidle]
      refine Idles.sendTo ?_ ssrc fun _ => ⟨by simp [Input.asks], rfl⟩
      exact idles_silent rfl rfl
  | implicitRequest ssrc =>
    simp only [handle, implicitFloorRequest, hidle] at ht
    split at ht
    · cases ht
    · cases ht
      exact idles_grantImplicit (idles_silent rfl rfl) ssrc
  | leave ssrc =>
    simp only [handle, clientRelease] at ht
    split at ht
    · cases ht
    · cases ht
      have hleft : (forget ssrc { a with roster := a.roster.erase ssrc }).occupied = false :=
        hvacant
      have hstays : (refreshT4 ((⟨a, {}⟩ : Turn Arbitrator).update fun a =>
          forget ssrc { a with roster := a.roster.erase ssrc })).machine.state = .idle :=
        (congrArg Places.state places_refreshT4).trans hidle
      simp only [Turn.machine_update, hleft, Bool.and_false, Bool.false_eq_true, if_false, hstays]
      refine idles_refreshT4 ?_
      exact idles_silent rfl rfl
  | receive message =>
    cases ht
    exact idles_receive hidle message
  | expire ticket =>
    cases ht
    rw [idles_expire hidle h hother]
    exact idles_silent rfl rfl
  | beginRelease =>
    cases ht
    constructor
    · intro hstays
      have hreleasing : (beginRelease ⟨a, {}⟩).machine.state = .releasing :=
        congrArg Places.state places_beginRelease
      rw [hreleasing] at hstays
      cases hstays
    · rw [messages_beginRelease rfl]
      simp only [List.mem_append, List.mem_flatMap]
      rintro e (⟨who, -, he⟩ | ⟨x, -, he⟩) hkind
      · obtain ⟨-, rfl⟩ := mem_lettersTo.mp he
        cases hkind
      · obtain ⟨-, rfl⟩ := mem_lettersTo.mp he
        cases hkind
  | finishRelease =>
    cases ht
    simp only [finishRelease, hidle]
    exact idles_silent rfl rfl
  | stopTimers =>
    cases ht
    exact ⟨fun _ hruns => by simp [stopTimers] at hruns, by simp⟩

end Idle

/-- What comes of a ticket that T7 accepts. -/
theorem handle_t7 {ticket : Ticket} (h : a.Equipped config)
    (haccepts : a.t7.accepts ticket = true) :
    a.handle (.expire ticket) = .ok
      (if a.c7.arrives then ⟨{ a with t7 := a.t7.rest, c7 := a.c7.increment }, {}⟩
      else startT7 (broadcast a.idleMessage
        ⟨{ a with t7 := a.t7.rest, c7 := a.c7.increment }, {}⟩)) := by
  obtain ⟨hruns, hticket⟩ := (Timer.accepts_iff _ _).mp haccepts
  have hidle : a.state = .idle := h.inStep.t7 hruns
  have hid : ticket.id = .t7 := by
    have hids := ids_timers (t := ⟨a, {}⟩) h.make
    simp only [timers, List.map_cons, List.cons.injEq] at hids
    rw [hticket]
    exact hids.2.2.2.2.1
  simp only [handle, expire, hid, haccepts, if_true, expireT7]
  split
  · rfl
  · next hother => exact absurd hidle hother

def idleReminders (config : ArbitratorConfig) : Repetition Arbitrator Input where
  limit := config.c7Limit.toNat
  goes a := a.t7.running = true
  finished a := a.t7.running = false
  count a := a.c7.value
  expiries input a := if a.expiresT7 input then 1 else 0
  repeats input a := if a.reannounces input then 1 else 0
  failures input a := if a.expiresT7 input && !a.reannounces input then 1 else 0

private theorem beat_t7 {ticket : Ticket} (h : a.Equipped config)
    (haccepts : a.t7.accepts ticket = true) :
    (idleReminders config).Beat (.expire ticket) a (a.after (.expire ticket)) := by
  have hexpires : a.expiresT7 (.expire ticket) = true := haccepts
  have hruns := ((Timer.accepts_iff _ _).mp haccepts).1
  have hhandled := handle_t7 h haccepts
  cases harrives : a.c7.arrives with
  | true =>
    have hlast : a.c7.value + 1 = config.c7Limit.toNat := by
      simpa [Counter.arrives, h.c7] using harrives
    have hafter : a.after (.expire ticket) =
        { a with t7 := a.t7.rest, c7 := a.c7.increment } := by
      simp [after, hhandled, harrives]
    have hstopped : (a.after (.expire ticket)).t7.running = false := by rw [hafter]; rfl
    have hsilent : a.reannounces (.expire ticket) = false := by simp [reannounces, hstopped]
    refine .ends hruns ?_ hstopped hlast (if_pos hexpires) ?_ ?_
    · exact fun hruns => absurd (hstopped.symm.trans hruns) (by decide)
    · simp [idleReminders, hsilent]
    · simp [idleReminders, hexpires, hsilent]
  | false =>
    have hbelow : a.c7.value + 1 ≠ config.c7Limit.toNat := by
      simpa [Counter.arrives, h.c7] using harrives
    have hafter : a.after (.expire ticket) =
        { a with t7 := a.t7.rest.start, c7 := a.c7.increment } := by
      simp only [after, hhandled, harrives]
      rfl
    have hstarted : (a.after (.expire ticket)).t7.running = true := by rw [hafter]; rfl
    have hsends : a.reannounces (.expire ticket) = true := by
      simp [reannounces, hexpires, hstarted]
    refine .again hruns hstarted hbelow (fun hroom => ?_) (if_pos hexpires) (if_pos hsends) ?_
    · change (a.after (.expire ticket)).c7.value = a.c7.value + 1
      have hroom : a.c7.value < a.c7.limit := h.c7.symm ▸ hroom
      rw [hafter]
      simp [Counter.increment, hroom]
    · simp [idleReminders, hsends]

/-- What a step adds to the account of T7, unless the floor becomes idle by it. -/
theorem beat_idleReminders (h : a.Equipped config) (hgoes : input ≠ .stopTimers)
    (hstays : a.fallsIdle input = false) :
    (idleReminders config).Beat input a (a.after input) := by
  cases hexpires : a.expiresT7 input with
  | true =>
    cases input with
    | expire ticket => exact beat_t7 h hexpires
    | _ => cases hexpires
  | false =>
    have hsteps := (equipped_after input hgoes h).inStep
    have hquiet : (a.after input).t7.running = true →
        a.t7.running = true ∧ (a.after input).c7.value = a.c7.value := by
      intro hruns
      have hidle : (a.after input).state = .idle := hsteps.t7 hruns
      have hbefore : a.state = .idle := by simpa [fallsIdle, hidle] using hstays
      cases ht : a.handle input with
      | error e =>
        have hafter : a.after input = a := by simp [after, ht]
        exact ⟨hafter ▸ hruns, by rw [hafter]⟩
      | ok t =>
        have hafter : a.after input = t.machine := by simp [after, ht]
        rw [hafter] at hruns hidle ⊢
        obtain ⟨ht7, hc7⟩ := (idles_handle hbefore h hexpires ht).t7 hidle hruns
        exact ⟨ht7 ▸ hruns, congrArg Counter.value hc7⟩
    refine .rests ?_ ?_ ?_ hquiet fun hstopped => ?_
    · simp [idleReminders, hexpires]
    · simp [idleReminders, reannounces, hexpires]
    · simp [idleReminders, hexpires]
    · refine Bool.eq_false_iff.mpr fun hruns => ?_
      exact absurd (hstopped.symm.trans (hquiet hruns).1) (by decide)

/-- The reminder goes to the whole roster. Otherwise, while the floor is idle, a party is told so
only if it asks. -/
theorem sent_idle (h : a.Equipped config) :
    (a.reannounces input = true → a.sent input = lettersExcept a.roster none a.idleMessage) ∧
      (a.reannounces input = false → a.state = .idle →
        ∀ e ∈ a.sent input, e.message.kind = .idle →
          ∃ x, input.asks x = true ∧ e = letterTo x a.idleMessage) := by
  cases hexpires : a.expiresT7 input with
  | true =>
    cases input with
    | expire ticket =>
      have hhandled := handle_t7 h hexpires
      cases harrives : a.c7.arrives with
      | true =>
        have hsilent : a.sent (.expire ticket) = [] := by simp [sent, hhandled, harrives]
        refine ⟨fun hsends => ?_, fun _ _ => by simp [hsilent]⟩
        simp [reannounces, hexpires, after, hhandled, harrives] at hsends
      | false =>
        have hsends : a.reannounces (.expire ticket) = true := by
          simp only [reannounces, hexpires, after, hhandled, harrives]
          rfl
        refine ⟨fun _ => ?_, fun hsilent => absurd (hsends.symm.trans hsilent) (by decide)⟩
        simp only [sent, hhandled, harrives]
        rfl
    | _ => cases hexpires
  | false =>
    have hsilent : a.reannounces input = false := by simp [reannounces, hexpires]
    refine ⟨fun hsends => absurd (hsilent.symm.trans hsends) (by decide), fun _ hidle => ?_⟩
    cases ht : a.handle input with
    | error e => simp [sent, ht]
    | ok t =>
      have hsent : a.sent input = t.out.messages := by simp [sent, ht]
      rw [hsent]
      exact (idles_handle hidle h hexpires ht).letters

/-- What comes of T7 while `later` happens to an arbitrator, if T7 runs out `k` times. -/
structure RemindsIdle (limit k : ℕ) (b : Arbitrator) (later : List Input) : Prop where
  within : k ≤ limit
  reminders : tally after (fun input a => if a.reannounces input then 1 else 0) later b =
    min k (limit - 1)
  /-- After the last time T7 rests. -/
  silence : k = limit → (b.run later).t7.running = false
  /-- A reminder is for the whole roster. Otherwise, while the floor is idle, a party is told so
  only if it asks. -/
  letters : Throughout after (fun input a =>
    (a.reannounces input = true →
      a.sent input = lettersExcept a.roster none a.idleMessage) ∧
    (a.reannounces input = false → a.state = .idle →
      ∀ e ∈ a.sent input, e.message.kind = .idle →
        ∃ x, input.asks x = true ∧ e = letterTo x a.idleMessage)) later b

/-- As long as the floor does not become idle once more, the parties are reminded as often as T7
runs out, except for the last time, after which T7 rests. -/
theorem remindsIdle {entry : Input} {later : List Input} {b : Arbitrator} (h : a.Equipped config)
    (hlimit : 1 ≤ config.c7Limit.toNat) (hgoes : .stopTimers ∉ entry :: later)
    (hb : b = a.after entry) (hfalls : a.fallsIdle entry = true)
    (hstays : Throughout after (fun input a => a.fallsIdle input = false) later b) :
    RemindsIdle config.c7Limit.toNat
      (tally after (fun input a => if a.expiresT7 input then 1 else 0) later b) b later := by
  simp only [List.mem_cons, not_or] at hgoes
  have hentered : b.Equipped config := hb ▸ equipped_after entry (Ne.symm hgoes.1) h
  have hcount : b.c7.value = 0 := by
    obtain ⟨hbefore, hidle⟩ : a.state ≠ .idle ∧ b.state = .idle := by
      simpa [fallsIdle, hb] using hfalls
    cases ht : a.handle entry with
    | error e =>
      have hafter : a.after entry = a := by simp [after, ht]
      exact absurd ((hb.trans hafter) ▸ hidle) hbefore
    | ok t =>
      have hafter : a.after entry = t.machine := by simp [after, ht]
      rw [hb, hafter] at hidle ⊢
      exact fresh_handle hbefore ht hidle
  obtain ⟨-, hbeats⟩ := hentered.throughout (I := fun _ => True)
    (fun h hgoes _ hstays => ⟨trivial, beat_idleReminders h hgoes hstays⟩) hgoes.2 trivial hstays
  obtain ⟨hwithin, hreminders, -, hfinished⟩ :=
    Repetition.Beats.afresh (r := idleReminders config) hbeats hlimit fun _ => hcount
  obtain ⟨-, hletters⟩ := hentered.throughout (I := fun _ => True)
    (fun h _ _ _ => ⟨trivial, sent_idle h⟩) hgoes.2 trivial hstays
  exact ⟨hwithin, hreminders, hfinished, hletters⟩

end FloorControl.Arbitrator
