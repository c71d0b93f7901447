import FloorControl.Proofs.Refusals
import FloorControl.Scenario

/-!
# Scenarios are played to their end

An operation of a call that is not down is refused only if somebody is missing whom it is about, or
is there already who is to join. So a script can be checked against its cast alone, without playing
it: as long as everything that is done suits those who are there, the scenario is played to its end,
whatever the configuration makes of it meanwhile, and the call that is left is one that can be
reached like any other. Even an advance of the clock that has no end stops no scenario here, because
`Session.advanceTo` leaves the call as it is then.
-/

namespace FloorControl

namespace Session

variable {config : SessionConfig} {h : History} {r r' last : Run} {s s' : Session}
  {outs : List Outbox} {op : Operation} {ops : List Operation} {cast : List Ssrc} {id : CallId}
  {t : Nat}

/-- Whether an operation can be done when these parties are there. Taking the call down is left
out, since nothing can be done with the call after it. -/
def Operation.suits (cast : List Ssrc) : Operation → Bool
  | .join x _ _ => x ∉ cast
  | .setUp x | .establish x _ | .push x | .releaseTalk x | .accept x | .askPosition x
  | .setDual x _ | .setIndicator x _ | .leave x => x ∈ cast
  | .setUpAll | .runUntilIdle | .advanceTo _ | .advanceBy _ => true
  | .release => false

def Operation.recast (cast : List Ssrc) : Operation → List Ssrc
  | .join x _ _ => x :: cast
  | .leave x => cast.filter (· ≠ x)
  | _ => cast

/-- Whether each of the operations suits those who are there when it is its turn. -/
def Suitable : List Ssrc → List Operation → Prop
  | _, [] => True
  | cast, op :: ops => op.suits cast = true ∧ Suitable (op.recast cast) ops

def recastAll (cast : List Ssrc) (ops : List Operation) : List Ssrc :=
  ops.foldl Operation.recast cast

instance Suitable.instDecidable : (cast : List Ssrc) → (ops : List Operation) →
    Decidable (Suitable cast ops)
  | _, [] => .isTrue trivial
  | cast, op :: ops =>
    have := instDecidable (op.recast cast) ops
    inferInstanceAs (Decidable (op.suits cast = true ∧ Suitable (op.recast cast) ops))

theorem suitable_append {later : List Operation} : Suitable cast (ops ++ later) ↔
    Suitable cast ops ∧ Suitable (recastAll cast ops) later := by
  induction ops generalizing cast with
  | nil => simp [Suitable, recastAll]
  | cons op ops ih => simp [Suitable, recastAll, ih, and_assoc]

/-- The same call, not taken down if it was not before, with the same parties. -/
structure Stays (s s' : Session) : Prop where
  callId : s'.callId = s.callId
  active : s'.active = s.active
  party : ∀ x, s'.participants.contains x = s.participants.contains x

theorem Stays.refl (s : Session) : Stays s s := ⟨rfl, rfl, fun _ => rfl⟩

theorem Stays.trans {s'' : Session} (first : Stays s s') (second : Stays s' s'') : Stays s s'' :=
  ⟨second.callId.trans first.callId, second.active.trans first.active,
    fun x => (second.party x).trans (first.party x)⟩

theorem stays_follows (hstays : ∀ x, op ≠ .leave x) (hfollows : Follows op r outs r') :
    Stays r.state r'.state := by
  obtain ⟨m, hparts, heq⟩ := hfollows.exists_parts
  rw [heq]
  refine ⟨rfl, rfl, fun x => ?_⟩
  refine hparts.keeps (P := fun m => m.participants.contains x = r.state.participants.contains x)
    (fun _ _ _ hpart hbefore => ?_) rfl
  rw [contains_part hpart (hstays x), hbefore]

theorem stays_deliver (event : SessionEvent) (r : Run) : Stays r.state (deliver event r).state := by
  obtain ⟨⟨m, hdelivers, heq⟩, -⟩ := delivers_deliver event r
  rw [heq]
  exact ⟨rfl, rfl, fun _ => contains_delivers hdelivers⟩

theorem stays_deliverNext? (hnext : deliverNext? t r = some last) :
    Stays r.state last.state := by
  simp only [deliverNext?, Option.map_eq_some_iff] at hnext
  obtain ⟨⟨event, scheduler⟩, -, rfl⟩ := hnext
  have hstays := stays_deliver event { r with state := { r.state with scheduler := scheduler } }
  exact ⟨hstays.callId, hstays.active, hstays.party⟩

theorem stays_advances (hadvances : Advances t r last) : Stays r.state last.state := by
  induction hadvances with
  | settled => exact ⟨rfl, rfl, fun _ => rfl⟩
  | delivered hnext _ ih => exact (stays_deliverNext? hnext).trans ih

theorem stays_advanceTo (t : Nat) (r : Run) : Stays r.state (advanceTo t r).state := by
  rw [advanceTo]
  cases hends : advance? stepLimit t r with
  | none => exact .refl _
  | some last => exact stays_advances (.of_advance? hends)

/-- A call between two operations that is not down, with the given parties in it. -/
structure Hosts (config : SessionConfig) (id : CallId) (cast : List Ssrc) (r : Run) : Prop where
  reached : ∃ h, Reached config .resting h r
  callId : r.state.callId = id
  active : r.state.active = true
  party : ∀ x, r.state.participants.contains x = true ↔ x ∈ cast

theorem Reached.exists_perform (hr : Reached config .resting h r) (hgoes : op ≠ .release) :
    ∃ h', Reached config .resting h' (perform op r).2 := by
  cases htarget : op.target? r.state with
  | none => exact ⟨_, hr.performed op ⟨htarget, fun heq => absurd heq hgoes⟩⟩
  | some t =>
    cases hends : advance? stepLimit t r with
    | none =>
      rw [perform_target htarget, advanceTo, hends]
      exact ⟨h, hr⟩
    | some last =>
      have hends : Session.perform? op r = some last := by
        simp only [Session.perform?, htarget, hends]
      obtain ⟨deliveries, hlast, -⟩ := hr.perform? hends
      rw [perform_eq_of_perform? hends]
      exact ⟨_, hlast⟩

theorem Hosts.known (h : Hosts config id cast r) (x : Ssrc) :
    r.state.arbitrator.roster.contains x = r.state.participants.contains x := by
  obtain ⟨history, hr⟩ := h.reached
  exact (hr.stage.fit h.active).known x

theorem Hosts.stays (hstays : Stays r.state r'.state) (hreached : ∃ h, Reached config .resting h r')
    (h : Hosts config id cast r) : Hosts config id cast r' where
  reached := hreached
  callId := hstays.callId.trans h.callId
  active := hstays.active.trans h.active
  party x := by rw [hstays.party x, h.party x]

/-- What suits those who are there is not refused. -/
theorem Hosts.accepted (op : Operation) (hsuits : op.suits cast = true)
    (h : Hosts config id cast r) :
    (perform op r).1 = .ok () := by
  have hsettles := settles_perform op (r := r) fun _ => h.known
  have hrefusal : op.refusal? r.state = none := by
    have hparty (x : Ssrc) : r.state.participants.contains x = decide (x ∈ cast) := by
      rw [Bool.eq_iff_iff, h.party x, decide_eq_true_iff]
    cases op <;>
      simp_all [Operation.refusal?, refusalFor?, Operation.suits, h.active]
  rwa [hrefusal] at hsettles

private theorem party_join {x : Ssrc} (priority : Priority) (originator : Bool)
    (hnew : x ∉ cast) (h : Hosts config id cast r) :
    (join x priority originator r).2.state.callId = r.state.callId ∧
      (join x priority originator r).2.state.active = r.state.active ∧
      ∀ y, (join x priority originator r).2.state.participants.contains y =
        (decide (y = x) || r.state.participants.contains y) := by
  have habsent : r.state.arbitrator.roster.contains x = false := by
    rw [h.known x, ← Bool.not_eq_true, h.party x]
    exact hnew
  simp only [join, whenActive, h.active, if_true, Arbitrator.addParticipant, habsent,
    Bool.false_eq_true, if_false, true_and]
  exact fun y => Roster.contains_insert _ _ y _

private theorem party_leave {x : Ssrc} (hpresent : x ∈ cast) (h : Hosts config id cast r) :
    (clientRelease x r).2.state.callId = r.state.callId ∧
      (clientRelease x r).2.state.active = r.state.active ∧
      ∀ y, (clientRelease x r).2.state.participants.contains y =
        (decide (y ≠ x) && r.state.participants.contains y) := by
  have hthere := (h.party x).mpr hpresent
  obtain ⟨p, hget⟩ := Roster.exists_get?_of_contains hthere
  simp only [clientRelease, whenActive, h.active, if_true, Arbitrator.clientRelease, h.known x,
    hthere, Bool.not_true, Bool.false_eq_true, if_false, setArbitrator, hget, state_dispatch,
    true_and]
  exact Roster.contains_erase _ _

/-- After an operation that suits those who are there, those are there whom it leaves there. -/
theorem Hosts.perform (op : Operation) (hsuits : op.suits cast = true)
    (h : Hosts config id cast r) :
    Hosts config id (op.recast cast) (perform op r).2 := by
  have hgoes : op ≠ .release := by
    rintro rfl
    cases hsuits
  obtain ⟨history, hr⟩ := h.reached
  have hreached := hr.exists_perform hgoes
  have hinstant (htarget : op.target? r.state = none)
      (hentered : Happening.entered? ⟨r.state, .operation op⟩ = none)
      (hstays : ∀ x, op ≠ .leave x) : Hosts config id cast (Session.perform op r).2 :=
    h.stays (stays_follows hstays
      (follows_perform op ⟨htarget, fun heq => absurd heq hgoes⟩ hentered)) hreached
  cases op with
  | join x priority originator =>
    have hnew : x ∉ cast := by simpa [Operation.suits] using hsuits
    obtain ⟨hid, hactive, hparty⟩ := party_join priority originator hnew h
    refine ⟨hreached, hid.trans h.callId, hactive.trans h.active, fun y => ?_⟩
    simp [Session.perform, hparty y, h.party y, Operation.recast]
  | leave x =>
    have hpresent : x ∈ cast := by simpa [Operation.suits] using hsuits
    obtain ⟨hid, hactive, hparty⟩ := party_leave hpresent h
    refine ⟨hreached, hid.trans h.callId, hactive.trans h.active, fun y => ?_⟩
    simp [Session.perform, hparty y, h.party y, Operation.recast, and_comm]
  | release => exact absurd rfl hgoes
  | runUntilIdle | advanceTo | advanceBy => exact h.stays (stays_advanceTo _ _) hreached
  | setUp | setUpAll | establish | push | releaseTalk | accept | askPosition | setDual
  | setIndicator => exact hinstant rfl rfl fun _ => by simp

end Session

namespace Scenario

open Session (Hosts Suitable recastAll suitable_append)

variable {config : SessionConfig} {id : CallId} {cast : List Ssrc} {r : Server.Run} {s : Scenario}

/-- A server whose only call hosts the given parties, and is the only one that was heard. -/
structure Staged (config : SessionConfig) (id : CallId) (cast : List Ssrc) (r : Server.Run) :
    Prop where
  exists_call : ∃ call, r.state.calls = [call] ∧ Hosts config id cast ⟨call, r.log⟩
  allocated : r.state.ids.isAllocated id = true

/-- The call can be looked up. -/
theorem Staged.exists_found (h : Staged config id cast r) : ∃ call, r.state.calls = [call] ∧
    r.state.call? id = .ok call ∧ Hosts config id cast ⟨call, r.log⟩ := by
  obtain ⟨call, hcalls, hhosts⟩ := h.exists_call
  have hid : call.callId = id := hhosts.callId
  refine ⟨call, hcalls, ?_, hhosts⟩
  simp [Server.call?, h.allocated, hcalls, hid]

/-- What suits those who are there is done. -/
theorem Staged.act (op : Session.Operation) (hsuits : op.suits cast = true)
    (h : Staged config id cast r) :
    ∃ r', act id op r = .ok r' ∧ Staged config id (op.recast cast) r' := by
  obtain ⟨call, hcalls, hfound, hhosts⟩ := h.exists_found
  have hid : call.callId = id := hhosts.callId
  have haccepted := hhosts.accepted op hsuits
  refine ⟨⟨Server.replaceCall id (Session.perform op ⟨call, r.log⟩).2.state r.state,
    (Session.perform op ⟨call, r.log⟩).2.log⟩, ?_, ⟨_, ?_, hhosts.perform op hsuits⟩, h.allocated⟩
  · rw [Scenario.act, Server.withCall, hfound]
    simp only [haccepted]
  · simp only [Server.replaceCall, hcalls, List.map_cons, List.map_nil, if_pos hid]

theorem Staged.advanceTo (t : Nat) (h : Staged config id cast r) :
    Staged config id cast (Server.advanceTo t r) := by
  rw [Server.advanceTo]
  split
  · exact h
  · obtain ⟨call, hcalls, hhosts⟩ := h.exists_call
    refine ⟨⟨(Session.advanceTo t ⟨call, r.log⟩).state, ?_, ?_⟩, h.allocated⟩
    · simp only [hcalls, Server.advanceEach]
    · simp only [hcalls, Server.advanceEach]
      exact hhosts.perform (.advanceTo t) rfl

theorem Staged.follow {line : ScriptLine} (hsuits : line.operation.suits cast = true)
    (h : Staged config id cast r) :
    ∃ r', follow id r line = .ok r' ∧ Staged config id (line.operation.recast cast) r' := by
  obtain ⟨r', hdone, hafter⟩ := (h.advanceTo line.time).act _ hsuits
  refine ⟨Server.advanceBy 0 r', ?_, hafter.advanceTo _⟩
  rw [Scenario.follow, hdone]
  rfl

/-- Things that are done one after the other are all done, if each is done that suits those who are
there when it is its turn. -/
theorem Staged.foldlM {α : Type} {f : Server.Run → α → Except FloorError Server.Run}
    {operation : α → Session.Operation}
    (hstep : ∀ cast r a, (operation a).suits cast = true → Staged config id cast r →
      ∃ r', f r a = .ok r' ∧ Staged config id ((operation a).recast cast) r') {xs : List α}
    (hsuitable : Suitable cast (xs.map operation)) (h : Staged config id cast r) :
    ∃ r', xs.foldlM f r = .ok r' ∧ Staged config id (recastAll cast (xs.map operation)) r' := by
  induction xs generalizing cast r with
  | nil => exact ⟨r, rfl, h⟩
  | cons x xs ih =>
    obtain ⟨hsuits, hrest⟩ := hsuitable
    obtain ⟨next, hnext, hstaged⟩ := hstep cast r x hsuits h
    obtain ⟨last, hlast, hfinal⟩ := ih hrest hstaged
    refine ⟨last, ?_, hfinal⟩
    rw [List.foldlM_cons, hnext]
    exact hlast

def operations (s : Scenario) : List Session.Operation :=
  s.parties.map (fun p => .join p.ssrc p.priority p.originator) ++
    ([.setUpAll, .runUntilIdle] ++ s.script.map (·.operation))

/-- Whoever does something is there, and nobody comes in twice. -/
def Playable (s : Scenario) : Prop := Suitable [] s.operations

instance (s : Scenario) : Decidable s.Playable := inferInstanceAs (Decidable (Suitable _ _))

/-- A new server creates the call under the first number. -/
private theorem exists_created (s : Scenario) :
    ∃ r, Server.createCall s.callType (Server.subscribe ⟨Server.create s.config, []⟩) = (.ok 1, r) ∧
      Staged s.config 1 [] r :=
  ⟨_, rfl, ⟨Session.create 1 s.callType s.config 0, rfl, ⟨_, .created 1 s.callType 0⟩, rfl, rfl,
    fun _ => by simp [Session.create, Roster.contains, Roster.empty]⟩, rfl⟩

/-- A scenario that can be played is played to its end, and it is left with a call that can be
reached, between two operations and not down, which has told all that was told. -/
theorem Playable.exists_play (h : s.Playable) :
    ∃ r call, s.play = .ok (1, r) ∧ r.state.call? 1 = .ok call ∧
      Hosts s.config 1 (recastAll [] s.operations) ⟨call, r.log⟩ := by
  obtain ⟨hparties, hrest⟩ := suitable_append.mp h
  obtain ⟨hset, hscript⟩ := suitable_append.mp hrest
  obtain ⟨created, hcreated, hempty⟩ := exists_created s
  obtain ⟨joined, hjoined, hcast⟩ := hempty.foldlM
    (f := fun r (p : Party) => act 1 (.join p.ssrc p.priority p.originator) r)
    (fun _ _ _ hsuits hstaged => hstaged.act _ hsuits) hparties
  obtain ⟨ready, hready, hstaged⟩ := hcast.act .setUpAll rfl
  obtain ⟨idle, hidle, hstaged⟩ := hstaged.act .runUntilIdle rfl
  obtain ⟨done, hdone, hstaged⟩ := hstaged.foldlM (f := Scenario.follow 1)
    (fun _ _ _ hsuits hstaged => hstaged.follow hsuits) hscript
  obtain ⟨call, -, hcall, hhosts⟩ := (hstaged.advanceTo s.ending).exists_found
  refine ⟨Server.advanceTo s.ending done, call, ?_, hcall, ?_⟩
  · have hsetUp : s.setUp = .ok (1, idle) := by
      rw [setUp, hcreated]
      simp only [hjoined, hready, hidle, bind, Except.bind, pure, Except.pure]
    simp only [play, hsetUp, hdone, bind, Except.bind, pure, Except.pure]
  · simpa only [operations, recastAll, List.foldl_append] using hhosts

/-- Every scenario that has a name can be played, with every configuration. -/
theorem playable_ofName (name : ScenarioName) (config : SessionConfig) :
    (ofName name config).Playable := by
  cases name <;> exact of_decide_eq_true rfl

end Scenario
end FloorControl
