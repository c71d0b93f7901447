import FloorControl.Proofs.ArbitratorPath
import FloorControl.Proofs.CallChanges
import FloorControl.Proofs.ParticipantPath

/-!
# The told changes replay the machines

The observers of a call can follow every machine: from what they were told of the arbitrator they
know its state, and so from what they were told of a party, whether it has come, left or come back.
In one step a party changes its state at most once, and it is told that it may talk exactly when
that change gives it permission. The steps are looked at one by one, from the start of the call.
-/

namespace FloorControl

theorem filterMap_notices (events : List FloorEvent) :
    (notices events).filterMap FloorEvent.arbitratorChange? =
      events.filterMap FloorEvent.arbitratorChange? := by
  rw [notices, List.filterMap_filter]
  congr 1
  funext e
  cases e <;> rfl

theorem filter_notices (x : Ssrc) (events : List FloorEvent) :
    (notices events).filter (FloorEvent.concerns x) = events.filter (FloorEvent.concerns x) := by
  rw [notices, List.filter_filter]
  congr 1
  funext e
  cases e <;> simp [FloorEvent.concerns, FloorEvent.noteworthy]

/-- What is told of a party that changes its state is no change of the arbitrator. -/
@[simp] theorem filterMap_announce (call : CallId) (x : Ssrc) (before after : ParticipantState) :
    (announce call x before after).filterMap FloorEvent.arbitratorChange? = [] := by
  unfold announce
  split
  · rfl
  · split <;> rfl

theorem filter_announce (call : CallId) (x y : Ssrc) (before after : ParticipantState) :
    (announce call y before after).filter (FloorEvent.concerns x) =
      if x = y then announce call y before after else [] := by
  unfold announce
  split
  · simp
  · split <;> by_cases h : x = y <;> simp [FloorEvent.concerns, h, eq_comm, Ne.symm]

/-- What is told of the arbitrator concerns no party. -/
theorem filter_of_arbitratorChange {told : List FloorEvent} (x : Ssrc)
    (htold : ∀ e ∈ told, e.arbitratorChange?.isSome = true) :
    told.filter (FloorEvent.concerns x) = [] := by
  rw [List.filter_eq_nil_iff]
  intro e he
  have := htold e he
  cases e <;> simp_all [FloorEvent.arbitratorChange?, FloorEvent.concerns]

namespace Session

/-- The state of a party; one that is not there is where every party begins. -/
def Machines.stateOf (m : Machines) (x : Ssrc) : ParticipantState :=
  (m.participants.get? x).elim .startStop (·.state)

/-- At most one party changes its state, and that is all that is said. -/
structure Moved (m m' : Machines) (y : Ssrc) (said : List FloorEvent) : Prop where
  exists_call : ∃ call, said = announce call y (m.stateOf y) (m'.stateOf y)
  others : ∀ x, x ≠ y → m'.stateOf x = m.stateOf x
  edge : m'.stateOf y = m.stateOf y ∨ m'.stateOf y ∈ (m.stateOf y).next

/-- What is said tells how the machines of a call have changed: the arbitrator along its edges, and
each party by at most one change. -/
structure Retold (m m' : Machines) (said : List FloorEvent) : Prop where
  arbitrator : replay ArbitratorState.next m.arbitrator.state
    (said.filterMap FloorEvent.arbitratorChange?) = some m'.arbitrator.state
  party : ∀ x, ∃ call, said.filter (FloorEvent.concerns x) =
    announce call x (m.stateOf x) (m'.stateOf x)
  edge : ∀ x, m'.stateOf x = m.stateOf x ∨ m'.stateOf x ∈ (m.stateOf x).next

variable {m m' m'' : Machines} {first said later : List FloorEvent} {x y : Ssrc}
  {p q : Participant}

theorem Machines.stateOf_of_get? (hget : m.participants.get? x = some p) :
    m.stateOf x = p.state := by
  simp [Machines.stateOf, hget]

theorem Moved.nobody (hsame : ∀ x, m'.stateOf x = m.stateOf x) (y : Ssrc) : Moved m m' y [] :=
  ⟨⟨0, by simp [hsame]⟩, fun x _ => hsame x, .inl (hsame y)⟩

theorem Machines.stateOf_modify {a : Arbitrator} (hget : m.participants.get? y = some p)
    (x : Ssrc) : Machines.stateOf ⟨a, m.participants.modify y fun _ => q⟩ x =
      if x = y then q.state else m.stateOf x := by
  simp only [Machines.stateOf, Roster.get?_modify]
  split
  · next heq => simp [heq, hget]
  · rfl

theorem Moved.of_state {before after : ParticipantState} (call : CallId)
    (hbefore : m.stateOf y = before)
    (hafter : ∀ x, m'.stateOf x = if x = y then after else m.stateOf x)
    (hedge : after = before ∨ after ∈ before.next) :
    Moved m m' y (announce call y before after) := by
  have hend : m'.stateOf y = after := (hafter y).trans (if_pos rfl)
  refine ⟨⟨call, by rw [hbefore, hend]⟩, fun x hne => (hafter x).trans (if_neg hne), ?_⟩
  rwa [hbefore, hend]

theorem stopped_edge (before : ParticipantState) :
    .startStop = before ∨ .startStop ∈ before.next := by
  cases before <;> decide

theorem Retold.refl (m : Machines) : Retold m m [] :=
  ⟨rfl, fun x => ⟨0, by simp⟩, fun x => .inl rfl⟩

/-- Two stretches in which no party changes its state twice are one stretch. -/
theorem Retold.trans (h : Retold m m' said) (h' : Retold m' m'' later)
    (honce : ∀ x, m'.stateOf x = m.stateOf x ∨ m''.stateOf x = m'.stateOf x) :
    Retold m m'' (said ++ later) where
  arbitrator := by
    rw [List.filterMap_append]
    exact replay_trans h.arbitrator h'.arbitrator
  party x := by
    obtain ⟨call, hfirst⟩ := h.party x
    obtain ⟨call', hlater⟩ := h'.party x
    rw [List.filter_append, hfirst, hlater]
    rcases honce x with heq | heq <;> rw [heq]
    · exact ⟨call', by simp⟩
    · exact ⟨call, by simp⟩
  edge x := by
    rcases honce x with heq | heq
    · exact heq ▸ h'.edge x
    · exact heq ▸ h.edge x

/-- What at most one party has to say, and what the arbitrator tells of its way. -/
theorem Retold.of_moved {told : List FloorEvent} (h : Moved m m' y first)
    (hsaid : said = first ++ told ∨ said = told ++ first)
    (htold : ∀ e ∈ told, e.arbitratorChange?.isSome = true)
    (hpath : replay ArbitratorState.next m.arbitrator.state
      (told.filterMap FloorEvent.arbitratorChange?) = some m'.arbitrator.state) :
    Retold m m' said := by
  obtain ⟨⟨call, rfl⟩, hothers, hedge⟩ := h
  refine ⟨?_, fun x => ⟨call, ?_⟩, fun x => ?_⟩
  · rcases hsaid with rfl | rfl <;> simpa [List.filterMap_append] using hpath
  · have hparty : said.filter (FloorEvent.concerns x) =
        if x = y then announce call y (m.stateOf y) (m'.stateOf y) else [] := by
      rcases hsaid with rfl | rfl <;>
        simp [List.filter_append, filter_announce, filter_of_arbitratorChange x htold]
    rw [hparty]
    split
    · next heq => rw [heq]
    · next hne => simp [hothers x hne]
  · by_cases heq : x = y
    · exact heq ▸ hedge
    · exact .inl (hothers x heq)

/-- The arbitrator goes its way after at most one party has put its change into the outbox. -/
theorem Retold.of_passes {t u : Turn Arbitrator}
    (hpasses : Arbitrator.Passes ArbitratorState.next t u)
    (hmoved : Moved m m' y (notices t.out.events))
    (hbefore : t.machine.state = m.arbitrator.state) (hafter : u.machine = m'.arbitrator) :
    Retold m m' (notices u.out.events) := by
  obtain ⟨told, hsaid, htold, hpath⟩ := hpasses.exists_told
  refine .of_moved hmoved (.inl hsaid) htold ?_
  rw [← hbefore, ← hafter]
  exact hpath

/-- Whoever joins begins where every party begins, so nothing has to be told. -/
private theorem moved_joined {a : Arbitrator} {p : Participant}
    (hstranger : m.participants.contains y = false) (hp : p.state = .startStop) :
    Moved m ⟨a, m.participants.insert y p⟩ y [] := by
  refine .nobody (fun x => ?_) y
  have hnone := Roster.get?_of_contains_eq_false hstranger
  simp only [Machines.stateOf, Roster.get?_insert]
  split
  · next heq => simp [heq, hnone, hp]
  · rfl

/-- Whoever leaves ends where every party begins. -/
private theorem moved_left {a : Arbitrator} {p : Participant} (call : CallId)
    (hget : m.participants.get? y = some p) :
    Moved m ⟨a, m.participants.erase y⟩ y (announce call y p.state .startStop) := by
  refine .of_state call (Machines.stateOf_of_get? hget) (fun x => ?_) (stopped_edge _)
  simp only [Machines.stateOf, Roster.get?_erase]
  split <;> rfl

/-- Every change is told as it happens. -/
theorem retold_change {config : SessionConfig} {s : Session} {out : Outbox}
    (hfit : s.machines.Fit config) (hchange : Change s out m) :
    Retold s.machines m (notices out.events) := by
  have hturns := ArbitratorState.turnover_subset
  have hmoved {x : Ssrc} {p : Participant} {t : Turn Participant} {a : Arbitrator}
      (hget : s.participants.get? x = some p)
      (hturn : Participant.Announces ParticipantState.next ⟨p, {}⟩ t) :
      Moved s.machines ⟨a, s.participants.modify x fun _ => t.machine⟩ x
        (notices t.out.events) := by
    have hsaid : notices t.out.events = announce p.callId x p.state t.machine.state :=
      (hfit.member x p hget).ssrc ▸ hturn.said
    rw [hsaid]
    exact .of_state p.callId (Machines.stateOf_of_get? hget)
      (fun y => Machines.stateOf_modify (m := s.machines) hget y) hturn.edge
  have hsolos {x : Ssrc} {p : Participant} {input : Participant.Input}
      (hget : s.participants.get? x = some p) (hsolo : input.Solo p) :
      Participant.Announces ParticipantState.next ⟨p, {}⟩ (p.handle input) :=
    (Participant.announces_solo (hfit.member x p hget).waits hsolo).mono
      ParticipantState.turnover_subset
  have hnobody (a : Arbitrator) : Moved s.machines ⟨a, s.participants⟩ 0 [] :=
    .nobody (by intro x; rfl) 0
  cases hchange with
  | nothing => exact .refl _
  | party hget hsolo =>
    exact .of_moved (hmoved hget (hsolos hget hsolo)) (.inl (List.append_nil _).symm) (by simp) rfl
  | received message =>
    exact .of_passes ((Arbitrator.Passes.refl _).receive hturns message) (hnobody _) rfl rfl
  | expired ticket =>
    exact .of_passes ((Arbitrator.Passes.refl _).expire hturns ticket) (hnobody _) rfl rfl
  | setUp hget hu =>
    exact .of_passes (Arbitrator.passes_callInitialized hu)
      (hmoved hget (Participant.announces_callInitialized _)) rfl rfl
  | granted hget hu =>
    exact .of_passes ((Arbitrator.Passes.refl _).implicitFloorRequest hturns hu)
      (hmoved hget (hsolos hget (.established true _))) rfl rfl
  | @joined x priority originator a hadded =>
    obtain ⟨hstranger, proxy, rfl⟩ := Arbitrator.exists_insert_of_addParticipant hadded
    have hnew : s.participants.contains x = false := (hfit.known x).symm.trans hstranger
    exact .of_moved (moved_joined hnew rfl) (.inl rfl) (by simp) rfl
  | @left x p u hget hu =>
    obtain ⟨hssrc, -, -, -⟩ := hfit.member x p hget
    obtain ⟨told, hsaid, htold, hpath⟩ := (Arbitrator.passes_clientRelease hu).exists_told
    refine .of_moved (moved_left p.callId hget) (.inr ?_) htold hpath
    have hleaves := (Participant.announces_beginRelease ⟨p, u.out⟩).said
    rw [Participant.state_beginRelease, hssrc, hsaid] at hleaves
    exact hleaves

def Tells (r r' : Run) : Prop :=
  ∃ told, r'.trace = r.trace ++ told ∧
    Retold r.state.machines r'.state.machines (notices (told.map (·.event)))

variable {config : SessionConfig} {phase phase' : Phase} {h : History} {r r' : Run}

theorem Tells.refl (r : Run) : Tells r r := ⟨[], by simp, .refl _⟩

/-- Two stretches in which no party changes its state twice. -/
theorem Tells.trans {r'' : Run} (h : Tells r r') (h' : Tells r' r'')
    (honce : ∀ x, r'.state.machines.stateOf x = r.state.machines.stateOf x ∨
      r''.state.machines.stateOf x = r'.state.machines.stateOf x) : Tells r r'' := by
  obtain ⟨told, htrace, hretold⟩ := h
  obtain ⟨told', htrace', hretold'⟩ := h'
  refine ⟨told ++ told', by rw [htrace', htrace, List.append_assoc], ?_⟩
  rw [List.map_append, notices_append]
  exact hretold.trans hretold' honce

/-- Whatever else is told is no change of a machine. -/
theorem Tells.tell {event : FloorEvent} (h : Tells r r') (hplain : event.noteworthy = false) :
    Tells r (tell event r') := by
  obtain ⟨told, htrace, hretold⟩ := h
  refine ⟨told ++ [⟨r'.state.scheduler.now, event⟩], ?_, ?_⟩
  · rw [← List.append_assoc, ← htrace]
    exact List.reverse_cons
  · simp only [List.map_append, List.map_cons, List.map_nil, notices_append, notices_cons, hplain,
      notices_nil, Bool.false_eq_true, if_false, List.append_nil]
    exact hretold

theorem Tells.of_alters (hfit : r.state.machines.Fit config) (halters : Alters r r') :
    Tells r r' := by
  obtain ⟨out, told, hchange, htrace, hnotices⟩ := halters.exists_change
  exact ⟨told, htrace, hnotices ▸ retold_change hfit hchange⟩

/-- The machines change, and their outbox is dispatched. -/
private theorem tells_dispatch {out : Outbox} {r₁ : Run}
    (hretold : Retold r.state.machines r₁.state.machines (notices out.events))
    (hlog : r₁.log = r.log) : Tells r (dispatch out r₁) := by
  obtain ⟨told, htrace, hnotices⟩ := trace_dispatch out r₁
  refine ⟨told, htrace.trans (congrArg (·.reverse ++ told) hlog), ?_⟩
  rw [hnotices, state_dispatch]
  exact hretold

/-- Setting a party up a second time changes nothing at it. -/
private theorem stateOf_setUp (hr : Reached config phase h r) (hactive : r.state.active = true)
    (hset : r.state.machines.stateOf x ≠ .startStop) :
    (setUp y r).2.state.machines.stateOf x = r.state.machines.stateOf x := by
  cases hget : r.state.participants.get? y with
  | none => simp only [setUp, withParticipant, whenActive, hactive, if_true, hget, refuse]
  | some p =>
    obtain ⟨u, -, heq⟩ := exists_setUp (hr.known hactive hget) hactive hget
    rw [heq, state_dispatch]
    refine (Machines.stateOf_modify (m := r.state.machines) hget x).trans ?_
    split
    · next hsame =>
      subst hsame
      have hbefore : r.state.machines.stateOf x = p.state := Machines.stateOf_of_get? hget
      rw [hbefore] at hset ⊢
      simp only [Participant.handle, Participant.callInitialized, if_neg hset]
    · rfl

private theorem tells_setUpEach (ssrcs : List Ssrc) (hr : Reached config .resting h r)
    (hactive : r.state.active = true) : Tells r (setUpEach ssrcs r).2 ∧
      ∀ x, r.state.machines.stateOf x ≠ .startStop →
        (setUpEach ssrcs r).2.state.machines.stateOf x = r.state.machines.stateOf x := by
  induction ssrcs generalizing h r with
  | nil => exact ⟨.refl r, fun _ _ => rfl⟩
  | cons y rest ih =>
    have halters : Alters r (setUp y r).2 := alters_setUp hr hactive
    have hfirst := Tells.of_alters (hr.stage.fit hactive) halters
    have hstays (x : Ssrc) (hset : r.state.machines.stateOf x ≠ .startStop) :=
      stateOf_setUp (y := y) hr hactive hset
    have hnext : Reached config .resting _ (setUp y r).2 :=
      hr.performed (.setUp y) ⟨rfl, by simp⟩
    simp only [setUpEach]
    split
    · next r₁ heq =>
      rw [heq] at halters hfirst hstays hnext
      obtain ⟨hlater, hlast⟩ := ih hnext (halters.active.trans hactive)
      -- A party that has just been set up is left alone by the rest, so no party changes twice.
      refine ⟨hfirst.trans hlater fun x => ?_, fun x hset => ?_⟩
      · by_cases hset : r.state.machines.stateOf x = .startStop
        · by_cases hset₁ : r₁.state.machines.stateOf x = .startStop
          · exact .inl (hset₁.trans hset.symm)
          · exact .inr (hlast x hset₁)
        · exact .inl (hstays x hset)
      · exact (hlast x ((hstays x hset).symm ▸ hset)).trans (hstays x hset)
    · exact ⟨hfirst, hstays⟩

private theorem keyed_modify {participants : Roster Participant}
    (hkeys : ∀ x p, participants.get? x = some p → p.ssrc = x)
    (hget : participants.get? y = some p) (hssrc : q.ssrc = p.ssrc) :
    ∀ x p', (participants.modify y fun _ => q).get? x = some p' → p'.ssrc = x := by
  intro x p' hp'
  rw [Roster.get?_modify] at hp'
  split at hp'
  · next heq =>
    rw [heq, hget] at hp'
    cases hp'
    exact heq ▸ hssrc.trans (hkeys y p hget)
  · exact hkeys x p' hp'

/-- One after the other the parties are stopped, and each tells so. -/
private theorem retold_releaseEach (a : Arbitrator) (ssrcs : List Ssrc)
    (participants : Roster Participant) (out : Outbox)
    (hkeys : ∀ x p, participants.get? x = some p → p.ssrc = x) :
    ∃ said, notices (releaseEach ssrcs participants out).2.events = notices out.events ++ said ∧
      Retold ⟨a, participants⟩ ⟨a, (releaseEach ssrcs participants out).1⟩ said ∧
      ∀ x, Machines.stateOf ⟨a, participants⟩ x = .startStop →
        Machines.stateOf ⟨a, (releaseEach ssrcs participants out).1⟩ x = .startStop := by
  induction ssrcs generalizing participants out with
  | nil => exact ⟨[], by simp [releaseEach], .refl _, fun _ h => h⟩
  | cons y rest ih =>
    simp only [releaseEach]
    split
    · exact ih _ _ hkeys
    · next p hget =>
      have hsaid := (Participant.announces_beginRelease ⟨p, out⟩).said
      have hstop := Participant.state_beginRelease ⟨p, out⟩
      have hafter (x : Ssrc) := Machines.stateOf_modify (m := ⟨a, participants⟩) (a := a)
        (q := (Participant.beginRelease ⟨p, out⟩).machine) hget x
      rw [hstop] at hafter hsaid
      have hkeys' := keyed_modify hkeys hget (Participant.announces_beginRelease ⟨p, out⟩).ssrc
      obtain ⟨later, hrest, hretold, hstays⟩ := ih _ _ hkeys'
      have hfirst : Retold ⟨a, participants⟩ _ (announce p.callId y p.state .startStop) :=
        .of_moved (.of_state p.callId (Machines.stateOf_of_get? hget) hafter (stopped_edge _))
          (.inl (List.append_nil _).symm) (by simp) rfl
      -- The party that has just been stopped stays stopped, so no party changes twice.
      refine ⟨announce p.callId y p.state .startStop ++ later, ?_, hfirst.trans hretold ?_, ?_⟩
      · rw [hrest, hsaid, hkeys y p hget, List.append_assoc]
      · intro x
        rw [hafter x]
        split
        · next heq => exact .inr (hstays x ((hafter x).trans (if_pos heq)))
        · exact .inl rfl
      · intro x hx
        refine hstays x ((hafter x).trans ?_)
        split
        · rfl
        · exact hx

private theorem tells_beginRelease (hfit : r.state.machines.Fit config) :
    Tells r (beginRelease r) := by
  refine tells_dispatch ?_ rfl
  obtain ⟨said, hsaid, hretold, -⟩ := retold_releaseEach
    (Arbitrator.beginRelease ⟨r.state.arbitrator, {}⟩).machine r.state.participants.ssrcs
    r.state.participants (Arbitrator.beginRelease ⟨r.state.arbitrator, {}⟩).out
    (fun x p hget => (hfit.member x p hget).ssrc)
  have hfirst : Retold r.state.machines
      ⟨(Arbitrator.beginRelease ⟨r.state.arbitrator, {}⟩).machine, r.state.participants⟩
      (notices (Arbitrator.beginRelease ⟨r.state.arbitrator, {}⟩).out.events) :=
    .of_passes Arbitrator.passes_beginRelease (.nobody (by intro x; rfl) 0) rfl rfl
  rw [hsaid]
  exact hfirst.trans hretold fun x => .inl rfl

private theorem tells_finishRelease (r : Run) : Tells r (finishRelease r) := by
  obtain ⟨roster, hpasses⟩ := Arbitrator.passes_finishRelease ⟨r.state.arbitrator, {}⟩
  have hstate (x : Ssrc) : Machines.stateOf ⟨(Arbitrator.finishRelease ⟨r.state.arbitrator,
      {}⟩).machine, r.state.participants.mapWith fun _ p => p.finishRelease⟩ x =
      r.state.machines.stateOf x := by
    simp only [Machines.stateOf, Roster.get?_mapWith, machines]
    cases r.state.participants.get? x <;> rfl
  obtain ⟨told, htrace, hretold⟩ :
      Tells r (dispatch (Arbitrator.finishRelease ⟨r.state.arbitrator, {}⟩).out { r with
        state := { r.state with
          arbitrator := (Arbitrator.finishRelease ⟨r.state.arbitrator, {}⟩).machine
          participants := r.state.participants.mapWith fun _ p => p.finishRelease } }) :=
    tells_dispatch (.of_passes hpasses (.nobody hstate 0) rfl rfl) rfl
  exact Tells.tell ⟨told, htrace, hretold⟩ rfl

/-- The observers are told of every step what it changes. -/
theorem Step.tells (hr : Reached config phase h r) (hstep : Step phase r phase' r') :
    Tells r r' := by
  cases hstep with
  | performed op hinstant =>
    cases hactive : r.state.active with
    | false =>
      rw [perform_of_over op hinstant hactive]
      exact .refl r
    | true =>
      by_cases hall : op = .setUpAll
      · subst hall
        exact (tells_setUpEach _ hr hactive).1
      · exact .of_alters (hr.stage.fit hactive) (alters_perform hr op hinstant hall)
  | started => exact .refl r
  | delivered _ hpop =>
    exact .of_alters (hr.stage.fit (hr.stage.active_of_popDue hpop)) (alters_deliver ..)
  | settled => exact .refl r
  | ending hactive => exact tells_beginRelease (hr.stage.fit hactive)
  | ended => exact tells_finishRelease (settle _ r)

def arbitratorChanges (trace : List TraceEvent) : List (ArbitratorState × ArbitratorState) :=
  trace.filterMap fun e => e.event.arbitratorChange?

def participantChanges (x : Ssrc) (trace : List TraceEvent) :
    List (ParticipantState × ParticipantState) :=
  trace.filterMap fun e => e.event.participantChange? x

theorem replay_arbitratorChanges {told : List TraceEvent}
    (h : Retold m m' (notices (told.map (·.event)))) :
    replay ArbitratorState.next m.arbitrator.state (arbitratorChanges told) =
      some m'.arbitrator.state := by
  have hpath := h.arbitrator
  rwa [filterMap_notices, List.filterMap_map] at hpath

/-- What is told of a party, in the order in which it is told. -/
theorem filter_told {told : List TraceEvent} (h : Retold m m' (notices (told.map (·.event))))
    (x : Ssrc) : ∃ call, (told.map (·.event)).filter (FloorEvent.concerns x) =
      announce call x (m.stateOf x) (m'.stateOf x) := by
  obtain ⟨call, hparty⟩ := h.party x
  exact ⟨call, by rwa [filter_notices] at hparty⟩

theorem replay_participantChanges {told : List TraceEvent}
    (h : Retold m m' (notices (told.map (·.event)))) (x : Ssrc) :
    replay ParticipantState.next (m.stateOf x) (participantChanges x told) =
      some (m'.stateOf x) := by
  obtain ⟨call, hparty⟩ := filter_told h x
  have hchanges : participantChanges x told =
      (announce call x (m.stateOf x) (m'.stateOf x)).filterMap (·.participantChange? x) := by
    rw [← hparty, List.filterMap_filter, List.filterMap_map, participantChanges]
    congr 1
    funext ⟨_, event⟩
    cases event <;> simp [FloorEvent.participantChange?, FloorEvent.concerns]
  rw [hchanges]
  rcases h.edge x with heq | hedge
  · simp [heq, replay]
  · have hmoves : m.stateOf x ≠ m'.stateOf x := fun heq =>
      ParticipantState.not_mem_next _ (heq ▸ hedge)
    have hone : (announce call x (m.stateOf x) (m'.stateOf x)).filterMap
        (·.participantChange? x) = [(m.stateOf x, m'.stateOf x)] := by
      simp only [announce, if_neg hmoves]
      split <;> simp [FloorEvent.participantChange?]
    simp [hone, replay, hedge]

/-- A party is told that it may talk where it enters the state in which it may. -/
theorem granted_iff {told : List TraceEvent} (h : Retold m m' (notices (told.map (·.event))))
    (x : Ssrc) : (∃ call, .floorGranted call x ∈ told.map (·.event)) ↔
      m.stateOf x ≠ .hasPermission ∧ m'.stateOf x = .hasPermission := by
  obtain ⟨call, hparty⟩ := filter_told h x
  have hmem (call' : CallId) : .floorGranted call' x ∈ told.map (·.event) ↔
      .floorGranted call' x ∈ announce call x (m.stateOf x) (m'.stateOf x) := by
    simp [← hparty, FloorEvent.concerns]
  simp only [hmem, announce]
  split
  · next heq => simp [heq]
  · next hmoves =>
    split
    · next hpermits =>
      rw [hpermits] at hmoves
      simp [hpermits, hmoves]
    · next hplain => simp [hplain]

/-- What the observers of a call were told since its start leads the arbitrator, and every party
whether it has come, left or come back, from the first state to the present one along the edges of
its machine, and in every step that comes next, a party is told that it may talk exactly if it
enters the state in which it may. -/
theorem told_changes_replay (hr : Reached config phase h r) :
    replay ArbitratorState.next .startStop (arbitratorChanges r.trace) =
        some r.state.arbitrator.state ∧
      (∀ x, replay ParticipantState.next .startStop (participantChanges x r.trace) =
        some (r.state.machines.stateOf x)) ∧
      ∀ phase' r', Step phase r phase' r' → ∃ told, r'.trace = r.trace ++ told ∧
        ∀ x, (∃ call, .floorGranted call x ∈ told.map (·.event)) ↔
          r.state.machines.stateOf x ≠ .hasPermission ∧
            r'.state.machines.stateOf x = .hasPermission := by
  have hreplays := hr.of_step (P := fun _ r =>
    replay ArbitratorState.next .startStop (arbitratorChanges r.trace) =
        some r.state.arbitrator.state ∧
      ∀ x, replay ParticipantState.next .startStop (participantChanges x r.trace) =
        some (r.state.machines.stateOf x)) (fun _ _ _ => ⟨rfl, fun _ => rfl⟩) ?_
  · refine ⟨hreplays.1, hreplays.2, fun phase' r' hstep => ?_⟩
    obtain ⟨told, htrace, hretold⟩ := hstep.tells hr
    exact ⟨told, htrace, granted_iff hretold⟩
  · intro phase h r phase' r' hr hstep hbefore
    obtain ⟨told, htrace, hretold⟩ := hstep.tells hr
    rw [htrace]
    refine ⟨?_, fun x => ?_⟩
    · rw [arbitratorChanges, List.filterMap_append]
      exact replay_trans hbefore.1 (replay_arbitratorChanges hretold)
    · rw [participantChanges, List.filterMap_append]
      exact replay_trans (hbefore.2 x) (replay_participantChanges hretold x)

/-- The party that had the floor first leaves and comes back, and has begun anew. -/
theorem told_changes_replay_comeback :
    ∃ h r, play? (handover ++ [.leave 1, .join 1 5 false, .setUp 1])
        ⟨Session.create 1 .basic {} 0, []⟩ = some r ∧ Reached {} .resting h r ∧
      replay ArbitratorState.next .startStop (arbitratorChanges r.trace) =
        some r.state.arbitrator.state ∧
      replay ParticipantState.next .startStop (participantChanges 1 r.trace) = some .idle := by
  obtain ⟨r, hr, hidle⟩ : ∃ r, play? (handover ++ [.leave 1, .join 1 5 false, .setUp 1])
      ⟨Session.create 1 .basic {} 0, []⟩ = some r ∧
        decide (r.state.machines.stateOf 1 = .idle) = true :=
    (Option.any_eq_true _ _).mp (by decide +kernel)
  rw [decide_eq_true_eq] at hidle
  obtain ⟨h, hreached, -⟩ := (Reached.created 1 .basic 0).play? hr
  obtain ⟨harbitrator, hparties, -⟩ := told_changes_replay hreached
  exact ⟨h, r, hr, hreached, harbitrator, (hparties 1).trans (congrArg some hidle)⟩

end Session
end FloorControl
