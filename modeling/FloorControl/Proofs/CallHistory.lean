import FloorControl.Session

/-!
# Histories of a call

A call between two events: what can be reached by doing operations in any order, with the inside of
an operation that moves the clock laid open, so that a call is seen before and after every event
that is handed over. What has happened is kept as a history, each happening with the call that it
found, the latest first. A finished operation is one stretch of such a history.
-/

namespace FloorControl.Session

/-- What a call is in the middle of. -/
inductive Phase where
  /-- Nothing: the next operation can come. -/
  | resting
  /-- The clock is being moved to the given time. -/
  | advancing (t : Nat)
  /-- The call is being taken down, and what is due at the given time still arrives. -/
  | ending (t : Nat)
  deriving DecidableEq, Repr

def Phase.until? : Phase → Option Nat
  | .resting => none
  | .advancing t | .ending t => some t

inductive Occurrence where
  | operation (op : Operation)
  | delivery (event : SessionEvent)
  deriving DecidableEq, Repr

structure Happening where
  before : Session
  what : Occurrence

/-- What has happened to a call, the latest first. -/
abbrev History := List Happening

/-- The time that an operation moves the clock to, if it is one that does nothing else. -/
def Operation.target? (s : Session) : Operation → Option Nat
  | .runUntilIdle => some s.now
  | .advanceTo t => some t
  | .advanceBy delta => some (Time.after s.now delta)
  | .join .. | .setUp .. | .setUpAll | .establish .. | .push .. | .releaseTalk .. | .accept ..
  | .askPosition .. | .setDual .. | .setIndicator .. | .leave .. | .release => none

/-- An operation during which no event is handed over. -/
structure Operation.Instant (s : Session) (op : Operation) : Prop where
  still : op.target? s = none
  /-- Taking down a call that is down does nothing. -/
  down : op = .release → s.active = false

/-- The calls of a configuration that can be reached, with what has happened to them. -/
inductive Reached (config : SessionConfig) : Phase → History → Run → Prop where
  | created (callId : CallId) (callType : CallType) (now : Nat) :
      Reached config .resting [] ⟨Session.create callId callType config now, []⟩
  | performed {h : History} {r : Run} (op : Operation) : Reached config .resting h r →
      op.Instant r.state → Reached config .resting (⟨r.state, .operation op⟩ :: h) (perform op r).2
  | started {h : History} {r : Run} {t : Nat} (op : Operation) : Reached config .resting h r →
      op.target? r.state = some t →
      Reached config (.advancing t) (⟨r.state, .operation op⟩ :: h) r
  | delivered {phase : Phase} {h : History} {r : Run} {t : Nat} {event : SessionEvent}
      {scheduler : Scheduler SessionEvent} : Reached config phase h r → phase.until? = some t →
      r.state.scheduler.popDue t = some (event, scheduler) →
      Reached config phase (⟨r.state, .delivery event⟩ :: h)
        (deliver event { r with state := { r.state with scheduler := scheduler } })
  | settled {h : History} {r : Run} {t : Nat} : Reached config (.advancing t) h r →
      deliverNext? t r = none → Reached config .resting h (settle t r)
  | ending {h : History} {r : Run} : Reached config .resting h r → r.state.active = true →
      Reached config (.ending (beginRelease r).state.now) (⟨r.state, .operation .release⟩ :: h)
        (beginRelease r)
  | ended {h : History} {r : Run} {t : Nat} : Reached config (.ending t) h r →
      deliverNext? t r = none → Reached config .resting h (finishRelease (settle t r))

def Happening.joined? (e : Happening) : Option Ssrc :=
  match e.what with
  | .operation (.join ssrc _ _) => if e.before.active then some ssrc else none
  | _ => none

def Happening.left? (e : Happening) : Option Ssrc :=
  match e.what with
  | .operation (.leave ssrc) =>
    if e.before.active && e.before.participants.contains ssrc then some ssrc else none
  | _ => none

def Happening.operation? (e : Happening) : Option Operation :=
  match e.what with
  | .operation op => some op
  | .delivery _ => none

namespace History

def departed (h : History) : List Ssrc := h.filterMap Happening.left?

/-- No party joins again after it has left. -/
def NoRejoin : History → Prop
  | [] => True
  | e :: h => (∀ ssrc ∈ e.joined?, ssrc ∉ departed h) ∧ NoRejoin h

/-- No party is granted the floor with the establishment of the call. -/
def Unassisted (h : History) : Prop :=
  ∀ e ∈ h, ∀ ssrc, e.what ≠ .operation (.establish ssrc true)

def operations (h : History) : List Operation := h.filterMap Happening.operation?

variable {h : History}

theorem Unassisted.tail {e : Happening} (hassist : Unassisted (e :: h)) : h.Unassisted :=
  fun e he => hassist e (List.mem_cons_of_mem _ he)

theorem departed_of_stay (hstay : ∀ ssrc, .leave ssrc ∉ h.operations) : h.departed = [] := by
  rw [departed, List.filterMap_eq_nil_iff]
  intro e he
  simp only [Happening.left?]
  split
  · next ssrc hwhat =>
    refine absurd (List.mem_filterMap.mpr ⟨e, he, ?_⟩) (hstay ssrc)
    rw [Happening.operation?, hwhat]
  · rfl

/-- As long as nobody leaves, nobody joins again. -/
theorem noRejoin_of_stay (hstay : ∀ ssrc, .leave ssrc ∉ h.operations) : h.NoRejoin := by
  induction h with
  | nil => trivial
  | cons e h ih =>
    have hbefore : ∀ ssrc, .leave ssrc ∉ operations h := fun ssrc hmem =>
      hstay ssrc ((List.sublist_cons_self e h).filterMap _ |>.subset hmem)
    refine ⟨fun ssrc _ => ?_, ih hbefore⟩
    rw [departed_of_stay hbefore]
    exact List.not_mem_nil

/-- Nobody joins again where nobody joins. -/
theorem noRejoin_append {later : History}
    (hclosed : ∀ ssrc priority originator, .join ssrc priority originator ∉ later.operations)
    (hjoin : h.NoRejoin) : NoRejoin (later ++ h) := by
  induction later with
  | nil => exact hjoin
  | cons e later ih =>
    have hsublist : (operations later).Sublist (operations (e :: later)) :=
      (List.sublist_cons_self e later).filterMap _
    refine ⟨fun ssrc hjoined => ?_, ih fun ssrc priority originator hmem =>
      hclosed ssrc priority originator (hsublist.subset hmem)⟩
    obtain ⟨before, what⟩ := e
    cases what with
    | delivery event => cases hjoined
    | operation op =>
      cases op with
      | join ssrc priority originator =>
        exact (hclosed ssrc priority originator
          (List.mem_filterMap.mpr ⟨_, List.mem_cons_self, rfl⟩)).elim
      | _ => cases hjoined

theorem unassisted_of_operations (hasks : ∀ ssrc, .establish ssrc true ∉ h.operations) :
    h.Unassisted := by
  intro e he ssrc hwhat
  refine hasks ssrc (List.mem_filterMap.mpr ⟨e, he, ?_⟩)
  rw [Happening.operation?, hwhat]

end History

variable {config : SessionConfig} {phase : Phase} {h : History} {r last : Run} {t : Nat}

/-- Events that are handed over one after the other, up to the end of an advance. -/
theorem Reached.of_advances (hadvances : Advances t r last) (hr : Reached config phase h r)
    (hphase : phase.until? = some t) :
    ∃ deliveries r', Reached config phase (deliveries ++ h) r' ∧ deliverNext? t r' = none ∧
      last = settle t r' ∧ ∀ e ∈ deliveries, ∃ event, e.what = .delivery event := by
  induction hadvances generalizing h with
  | settled hnone => exact ⟨[], _, hr, hnone, rfl, by simp⟩
  | @delivered r next last hnext _ ih =>
    simp only [deliverNext?, Option.map_eq_some_iff] at hnext
    obtain ⟨⟨event, scheduler⟩, hpop, rfl⟩ := hnext
    obtain ⟨deliveries, r', hr', hnone, hlast, hall⟩ := ih (hr.delivered hphase hpop)
    refine ⟨deliveries ++ [⟨r.state, .delivery event⟩], r', by simpa using hr', hnone, hlast, ?_⟩
    intro e he
    rcases List.mem_append.mp he with he | he
    · exact hall e he
    · exact ⟨event, by rw [List.mem_singleton.mp he]⟩

def perform? (op : Operation) (r : Run) : Option Run :=
  match op.target? r.state with
  | some t => advance? stepLimit t r
  | none =>
    if op = .release ∧ r.state.active = true then
      (advance? stepLimit (beginRelease r).state.now (beginRelease r)).map finishRelease
    else some (perform op r).2

theorem perform_target {op : Operation} (htarget : op.target? r.state = some t) :
    (perform op r).2 = advanceTo t r := by
  cases op <;> simp only [Operation.target?, Option.some.injEq, reduceCtorEq] at htarget
  all_goals
    subst htarget
    rfl

theorem perform_eq_of_perform? {op : Operation} (h : perform? op r = some last) :
    (perform op r).2 = last := by
  rw [perform?] at h
  split at h
  · next t htarget => rw [perform_target htarget, advanceTo_eq h (Nat.le_refl _)]
  · split at h
    · next hends =>
      obtain ⟨rfl, hactive⟩ := hends
      obtain ⟨down, hdown, rfl⟩ := Option.map_eq_some_iff.mp h
      simp only [perform, release, hactive, Bool.not_true, Bool.false_eq_true, if_false,
        runUntilIdle]
      rw [advanceTo_eq hdown (Nat.le_refl _)]
    · exact Option.some.inj h

/-- An operation that comes to an end is a stretch of a history: itself, and what it hands over. -/
theorem Reached.perform? {op : Operation} (hr : Reached config .resting h r)
    (hends : Session.perform? op r = some last) :
    ∃ deliveries, Reached config .resting (deliveries ++ ⟨r.state, .operation op⟩ :: h) last ∧
      ∀ e ∈ deliveries, ∃ event, e.what = .delivery event := by
  rw [Session.perform?] at hends
  split at hends
  · next t htarget =>
    obtain ⟨deliveries, r', hr', hnone, rfl, hall⟩ :=
      (hr.started op htarget).of_advances (.of_advance? hends) rfl
    exact ⟨deliveries, hr'.settled hnone, hall⟩
  · next htarget =>
    split at hends
    · next hrelease =>
      obtain ⟨rfl, hactive⟩ := hrelease
      obtain ⟨down, hdown, rfl⟩ := Option.map_eq_some_iff.mp hends
      obtain ⟨deliveries, r', hr', hnone, rfl, hall⟩ :=
        (hr.ending hactive).of_advances (.of_advance? hdown) rfl
      exact ⟨deliveries, hr'.ended hnone, hall⟩
    · next hrelease =>
      cases hends
      refine ⟨[], hr.performed op ⟨htarget, fun heq => ?_⟩, by simp⟩
      simpa [heq] using hrelease

/-- The call after some operations, if every one comes to an end. -/
def play? : List Operation → Run → Option Run
  | [], r => some r
  | op :: ops, r => (perform? op r).bind (play? ops)

/-- Operations that come to an end are a stretch of a history in which nothing else is done. -/
theorem Reached.exists_later {ops : List Operation} (hr : Reached config .resting h r)
    (hends : Session.play? ops r = some last) :
    ∃ later : History, Reached config .resting (later ++ h) last ∧
      later.operations = ops.reverse := by
  induction ops generalizing h r with
  | nil =>
    cases hends
    exact ⟨[], hr, rfl⟩
  | cons op ops ih =>
    obtain ⟨next, hnext, hrest⟩ := Option.bind_eq_some_iff.mp hends
    obtain ⟨deliveries, hr', hall⟩ := hr.perform? hnext
    obtain ⟨later, hlast, hoperations⟩ := ih hr' hrest
    refine ⟨later ++ (deliveries ++ [⟨r.state, .operation op⟩]), by simpa using hlast, ?_⟩
    have hquiet : History.operations deliveries = [] := by
      rw [History.operations, List.filterMap_eq_nil_iff]
      intro e he
      obtain ⟨event, hwhat⟩ := hall e he
      rw [Happening.operation?, hwhat]
    simp only [History.operations, List.filterMap_append] at hoperations hquiet ⊢
    rw [hoperations, hquiet, List.reverse_cons]
    rfl

theorem Reached.play? {ops : List Operation} (hr : Reached config .resting h r)
    (hends : Session.play? ops r = some last) :
    ∃ h', Reached config .resting h' last ∧ h'.operations = ops.reverse ++ h.operations := by
  obtain ⟨later, hlast, hoperations⟩ := hr.exists_later hends
  refine ⟨later ++ h, hlast, ?_⟩
  rw [← hoperations]
  exact List.filterMap_append

/-- A call can be played: some operations are done with a new call, nobody leaves, and nobody is
granted the floor with the establishment of the call. -/
theorem Reached.of_play? {ops : List Operation} {callId : CallId} {callType : CallType} {now : Nat}
    (hends : Session.play? ops ⟨Session.create callId callType config now, []⟩ = some last)
    (hstay : ∀ ssrc, .leave ssrc ∉ ops) (hasks : ∀ ssrc, .establish ssrc true ∉ ops) :
    ∃ h, Reached config .resting h last ∧ h.NoRejoin ∧ h.Unassisted := by
  obtain ⟨h, hr, hoperations⟩ := (Reached.created callId callType now).play? hends
  have hmem : ∀ op, op ∈ h.operations → op ∈ ops := by
    intro op hop
    rw [hoperations] at hop
    simpa [History.operations] using hop
  exact ⟨h, hr, History.noRejoin_of_stay fun ssrc hop => hstay ssrc (hmem _ hop),
    History.unassisted_of_operations fun ssrc hop => hasks ssrc (hmem _ hop)⟩

/-- What is found of a new call with which some operations were done is found of a reached call. -/
theorem exists_reached_of_play? {ops : List Operation} {callId : CallId} {callType : CallType}
    {now : Nat} {check : Run → Bool}
    (hcheck : (play? ops ⟨Session.create callId callType config now, []⟩).any check = true) :
    ∃ h r, play? ops ⟨Session.create callId callType config now, []⟩ = some r ∧
      Reached config .resting h r ∧ check r = true := by
  obtain ⟨r, hends, hcheck⟩ := (Option.any_eq_true _ _).mp hcheck
  obtain ⟨h, hr, -⟩ := (Reached.created callId callType now).play? hends
  exact ⟨h, r, hends, hr, hcheck⟩

/-- Of two parties one is granted the floor, the other waits for it, and its turn comes. -/
def handover : List Operation :=
  [.join 1 5 true, .join 2 5 false, .setUpAll, .runUntilIdle, .push 1, .runUntilIdle, .push 2,
    .runUntilIdle, .releaseTalk 1, .runUntilIdle]

end FloorControl.Session
