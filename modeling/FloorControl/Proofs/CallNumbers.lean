import FloorControl.Proofs.ServerPace

/-!
# The numbers of the calls

A server hands out call numbers by counting, and it keeps its calls elsewhere. What it answers when
it is asked for a number comes from both, and has to tell three things apart: a call that is there,
one that was taken away, and a number that was never handed out. Books are kept here of the numbers
that were handed out and of those whose calls were taken away. They are never looked at by the
server, and everything that it answers can be read off them.
-/

namespace FloorControl.Server

inductive Operation where
  | subscribe
  | create (callType : CallType)
  | call (id : CallId) (op : Session.Operation)
  | release (id : CallId)
  | advanceTo (t : Nat)
  | advanceBy (delta : Nat)
  deriving DecidableEq, Repr

/-- A server, with the numbers that it has handed out and those whose calls it has taken away, each
in order. -/
structure Books where
  run : Run
  made : List CallId := []
  gone : List CallId := []

def Books.opened (config : SessionConfig) (first last : CallId) : Books where
  run := ⟨Server.create config { first := first, last := last }, []⟩

/-- Do something with a server, and enter what it answers. -/
def Operation.perform (op : Operation) (b : Books) : Books :=
  match op with
  | .subscribe => { b with run := Server.subscribe b.run }
  | .create callType =>
    let (answer, r) := createCall callType b.run
    { b with run := r, made := b.made ++ answer.toOption.toList }
  | .call id op => { b with run := (withCall id (Session.perform op) b.run).2 }
  | .release id =>
    let (answer, r) := releaseCall id b.run
    { b with run := r, gone := b.gone ++ (answer.toOption.map fun _ => id).toList }
  | .advanceTo t => { b with run := Server.advanceTo t b.run }
  | .advanceBy delta => { b with run := Server.advanceBy delta b.run }

def performAll (ops : List Operation) (b : Books) : Books :=
  ops.foldl (fun b op => op.perform b) b

variable {config : SessionConfig} {first last id : CallId} {b : Books} {r : Run}

theorem callIds_withCall {α : Type} (id : CallId) {f : Session.Run → α × Session.Run}
    (hf : ∀ call log r, Session.Signed call log r → Session.Signed call log (f r).2)
    (h : Tidy r.state) :
    (withCall id f r).2.state.ids = r.state.ids ∧
      (withCall id f r).2.state.callIds = r.state.callIds := by
  rcases withCall_cases id hf h with ⟨e, -, heq⟩ | ⟨call, -, hsigned, heq⟩ <;> rw [heq]
  · exact ⟨rfl, rfl⟩
  · exact ⟨rfl, callIds_replaceCall hsigned.callId _⟩

theorem callIds_advanceTo (t : Nat) (h : Tidy r.state) :
    (advanceTo t r).state.ids = r.state.ids ∧
      (advanceTo t r).state.callIds = r.state.callIds := by
  simp only [advanceTo]
  split
  · exact ⟨rfl, rfl⟩
  · exact ⟨rfl, (apart_advanceEach t r.log h.apart).1⟩

/-- A call is taken away, or there is none to be taken away. -/
theorem callIds_releaseCall (id : CallId) (h : Tidy r.state) :
    (releaseCall id r).2.state.ids = r.state.ids ∧
      (releaseCall id r).2.state.callIds =
        match (releaseCall id r).1 with
        | .ok () => r.state.callIds.filter (· ≠ id)
        | .error _ => r.state.callIds := by
  have hcalled := callIds_withCall id (f := fun call => ((), Session.release call))
    (fun _ _ _ hsigned => hsigned.release) h
  simp only [releaseCall]
  split
  · next heq => rwa [heq] at hcalled
  · next r' heq =>
    rw [heq] at hcalled
    refine ⟨hcalled.1, ?_⟩
    rw [← hcalled.2, callIds, callIds, List.filter_map]
    rfl

/-- Whether there is a call of the number, or why there is none, by the numbers alone. -/
theorem call?_eq (s : Server) (id : CallId) : (s.call? id).map (fun _ => ()) =
    if !s.ids.isAllocated id then .error (.callIdOutOfRange id)
    else if id ∈ s.callIds then .ok () else .error (.callNotFound id) := by
  rw [call?]
  cases s.ids.isAllocated id with
  | false => rfl
  | true =>
    simp only [Bool.not_true, Bool.false_eq_true, if_false, if_true]
    cases hfind : s.calls.find? (·.callId = id) with
    | none =>
      have habsent : id ∉ s.callIds := by
        simpa [callIds, List.find?_eq_none] using hfind
      rw [if_neg habsent]
      rfl
    | some call =>
      have hid : call.callId = id := by simpa using List.find?_some hfind
      have hpresent : id ∈ s.callIds :=
        List.mem_map.mpr ⟨call, List.mem_of_find?_eq_some hfind, hid⟩
      rw [if_pos hpresent]
      rfl

theorem answer_withCall {α : Type} (id : CallId) (f : Session.Run → α × Session.Run) (r : Run) :
    (withCall id f r).1.map (fun _ => ()) = (r.state.call? id).map fun _ => () := by
  rw [withCall]
  cases r.state.call? id <;> rfl

theorem answer_releaseCall (id : CallId) (r : Run) :
    (releaseCall id r).1 = (r.state.call? id).map fun _ => () := by
  rw [releaseCall, withCall]
  cases r.state.call? id <;> rfl

namespace Books

/-- What the books say of a number: it was never handed out, its call was taken away, or its call is
there. -/
def standing (b : Books) (id : CallId) : Except FloorError Unit :=
  if id ∉ b.made then .error (.callIdOutOfRange id)
  else if id ∈ b.gone then .error (.callNotFound id)
  else .ok ()

structure Kept (config : SessionConfig) (first last : CallId) (b : Books) : Prop where
  reached : Reached config b.run
  from_first : b.run.state.ids.first = first
  to_last : b.run.state.ids.last = last
  allocated : b.run.state.ids.allocated = b.made.length
  counted : b.made.map UInt16.toNat = List.range' first.toNat b.made.length
  bounded : ∀ id ∈ b.made, id ≤ last
  gone : b.gone ⊆ b.made
  present : b.run.state.callIds = b.made.filter (· ∉ b.gone)

namespace Kept

/-- What was handed out is told by counting. -/
theorem mem_made (h : b.Kept config first last) :
    id ∈ b.made ↔ first.toNat ≤ id.toNat ∧ id.toNat < first.toNat + b.made.length := by
  have hcounted : id ∈ b.made ↔ id.toNat ∈ b.made.map UInt16.toNat := by
    refine ⟨List.mem_map_of_mem, fun hmem => ?_⟩
    obtain ⟨other, hother, heq⟩ := List.mem_map.mp hmem
    rwa [← UInt16.toNat_inj.mp heq]
  rw [hcounted, h.counted, List.mem_range'_1]

theorem isAllocated (h : b.Kept config first last) (id : CallId) :
    b.run.state.ids.isAllocated id = true ↔ id ∈ b.made := by
  rw [h.mem_made, CallIds.isAllocated, h.from_first, h.allocated, Bool.and_eq_true,
    decide_eq_true_eq, decide_eq_true_eq, UInt16.le_iff_toNat_le]

theorem mem_callIds (h : b.Kept config first last) :
    id ∈ b.run.state.callIds ↔ id ∈ b.made ∧ id ∉ b.gone := by
  rw [h.present, List.mem_filter, decide_eq_true_eq]

/-- As long as the last number was not handed out, a call is created under the next one. -/
theorem createCall_of_room (h : b.Kept config first last)
    (hroom : first.toNat + b.made.length ≤ last.toNat) (callType : CallType) :
    ∃ r, createCall callType b.run = (.ok (UInt16.ofNat (first.toNat + b.made.length)), r) ∧
      r.state.ids = { b.run.state.ids with allocated := b.made.length + 1 } ∧
      r.state.callIds =
        b.run.state.callIds ++ [UInt16.ofNat (first.toNat + b.made.length)] := by
  simp only [createCall, CallIds.allocate, h.from_first, h.to_last, h.allocated, if_pos hroom]
  exact ⟨_, rfl, rfl, by simp [callIds, Session.create]⟩

theorem createCall_of_full (h : b.Kept config first last)
    (hfull : ¬ first.toNat + b.made.length ≤ last.toNat) (callType : CallType) :
    createCall callType b.run = (.error (.callIdOutOfRange last), b.run) := by
  simp only [createCall, CallIds.allocate, h.from_first, h.to_last, h.allocated, if_neg hfull]

theorem created_iff (h : b.Kept config first last) (callType : CallType) (id : CallId) :
    (createCall callType b.run).1 = .ok id ↔
      id.toNat = first.toNat + b.made.length ∧ id ≤ last := by
  rw [UInt16.le_iff_toNat_le]
  by_cases hroom : first.toNat + b.made.length ≤ last.toNat
  · obtain ⟨r, hcreate, -, -⟩ := h.createCall_of_room hroom callType
    rw [hcreate, Except.ok.injEq, ← UInt16.toNat_inj, toNat_ofNat_of_le hroom]
    omega
  · rw [h.createCall_of_full hroom]
    refine ⟨nofun, fun hnext => ?_⟩
    omega

/-- The server is full when every number of its range was handed out, which all of them were from
the beginning if there is none. -/
theorem refused_iff (h : b.Kept config first last) (callType : CallType) (e : FloorError) :
    (createCall callType b.run).1 = .error e ↔
      e = .callIdOutOfRange last ∧ ∀ id, first ≤ id → id ≤ last → id ∈ b.made := by
  by_cases hroom : first.toNat + b.made.length ≤ last.toNat
  · obtain ⟨r, hcreate, -, -⟩ := h.createCall_of_room hroom callType
    rw [hcreate]
    refine ⟨nofun, fun ⟨_, hall⟩ => ?_⟩
    have hlast := hall (UInt16.ofNat (first.toNat + b.made.length))
    rw [h.mem_made, UInt16.le_iff_toNat_le, UInt16.le_iff_toNat_le,
      toNat_ofNat_of_le hroom] at hlast
    omega
  · rw [h.createCall_of_full hroom, Except.error.injEq, eq_comm, iff_self_and]
    rintro - id hfrom hto
    rw [UInt16.le_iff_toNat_le] at hfrom hto
    rw [h.mem_made]
    omega

theorem look_up (h : b.Kept config first last) (id : CallId) :
    (b.run.state.call? id).map (fun _ => ()) = b.standing id := by
  have hmade := h.isAllocated id
  rw [call?_eq, standing]
  by_cases hknown : id ∈ b.made
  · by_cases hgone : id ∈ b.gone
    · simp [hmade.mpr hknown, h.mem_callIds, hknown, hgone]
    · simp [hmade.mpr hknown, h.mem_callIds, hknown, hgone]
  · simp [Bool.eq_false_iff.mpr (mt hmade.mp hknown), hknown]

/-- The server has gone on, but neither its numbers nor its calls are others. -/
theorem moved (h : b.Kept config first last) (hreached : Reached config r)
    (hsame : r.state.ids = b.run.state.ids ∧ r.state.callIds = b.run.state.callIds) :
    Kept config first last { b with run := r } where
  reached := hreached
  from_first := hsame.1 ▸ h.from_first
  to_last := hsame.1 ▸ h.to_last
  allocated := hsame.1 ▸ h.allocated
  counted := h.counted
  bounded := h.bounded
  gone := h.gone
  present := hsame.2 ▸ h.present

/-- The next number was not handed out, and so its call was not taken away either. -/
theorem created {next : CallId} (h : b.Kept config first last) (hreached : Reached config r)
    (hnext : next.toNat = first.toNat + b.made.length) (hle : next ≤ last)
    (hids : r.state.ids = { b.run.state.ids with allocated := b.made.length + 1 })
    (hcallIds : r.state.callIds = b.run.state.callIds ++ [next]) :
    Kept config first last { b with run := r, made := b.made ++ [next] } where
  reached := hreached
  from_first := by rw [hids, ← h.from_first]
  to_last := by rw [hids, ← h.to_last]
  allocated := by rw [hids, List.length_append, List.length_singleton]
  counted := by
    rw [List.map_append, h.counted, List.length_append, List.length_singleton,
      List.range'_1_concat, List.map_singleton, hnext]
  bounded := by
    intro id hid
    rcases List.mem_append.mp hid with hid | hid
    · exact h.bounded id hid
    · rwa [List.mem_singleton.mp hid]
  gone := List.Subset.trans h.gone (List.subset_append_left ..)
  present := by
    have hnew : next ∉ b.made := by
      rw [h.mem_made, hnext]
      omega
    have hkept : next ∉ b.gone := fun hmem => hnew (h.gone hmem)
    rw [hcallIds, h.present, List.filter_append]
    simp [hkept]

/-- A call that was created is taken away. -/
theorem removed (h : b.Kept config first last) (hreached : Reached config r)
    (hmade : id ∈ b.made) (hids : r.state.ids = b.run.state.ids)
    (hcallIds : r.state.callIds = b.run.state.callIds.filter (· ≠ id)) :
    Kept config first last { b with run := r, gone := b.gone ++ [id] } where
  reached := hreached
  from_first := hids ▸ h.from_first
  to_last := hids ▸ h.to_last
  allocated := hids ▸ h.allocated
  counted := h.counted
  bounded := h.bounded
  gone := List.append_subset.mpr ⟨h.gone, by simpa using hmade⟩
  present := by
    rw [hcallIds, h.present, List.filter_filter]
    refine List.filter_congr fun other _ => ?_
    simp [and_comm]

theorem create (h : b.Kept config first last) (callType : CallType) :
    ((Operation.create callType).perform b).Kept config first last := by
  have hreached := h.reached.callCreated callType
  by_cases hroom : first.toNat + b.made.length ≤ last.toNat
  · obtain ⟨r, hcreate, hids, hcallIds⟩ := h.createCall_of_room hroom callType
    have hnext := toNat_ofNat_of_le hroom
    have hle : UInt16.ofNat (first.toNat + b.made.length) ≤ last := by
      rwa [UInt16.le_iff_toNat_le, hnext]
    have hperform : (Operation.create callType).perform b =
        { b with run := r, made := b.made ++ [UInt16.ofNat (first.toNat + b.made.length)] } := by
      simp only [Operation.perform, hcreate]
      rfl
    rw [hcreate] at hreached
    rw [hperform]
    exact h.created hreached hnext hle hids hcallIds
  · have hperform : (Operation.create callType).perform b = b := by
      simp [Operation.perform, h.createCall_of_full hroom, Except.toOption]
    rwa [hperform]

/-- Only a call that is there is taken away, and it is one of those that were created. -/
theorem release (h : b.Kept config first last) (id : CallId) :
    ((Operation.release id).perform b).Kept config first last := by
  obtain ⟨hids, hcallIds⟩ := callIds_releaseCall id h.reached.tidy
  have hreached := h.reached.callReleased id
  have hanswer := (answer_releaseCall id b.run).trans (h.look_up id)
  cases hreleased : releaseCall id b.run with
  | mk answer r =>
    rw [hreleased] at hids hcallIds hreached hanswer
    cases answer with
    | error e =>
      have hperform : (Operation.release id).perform b = { b with run := r } := by
        simp [Operation.perform, hreleased, Except.toOption]
      rw [hperform]
      exact h.moved hreached ⟨hids, hcallIds⟩
    | ok done =>
      have hperform : (Operation.release id).perform b =
          { b with run := r, gone := b.gone ++ [id] } := by
        simp [Operation.perform, hreleased, Except.toOption]
      have hmade : id ∈ b.made := by
        refine Decidable.byContradiction fun habsent => ?_
        rw [standing, if_pos habsent] at hanswer
        cases hanswer
      rw [hperform]
      exact h.removed hreached hmade hids hcallIds

theorem perform (h : b.Kept config first last) (op : Operation) :
    (op.perform b).Kept config first last := by
  cases op with
  | subscribe => exact h.moved h.reached.subscribed ⟨rfl, rfl⟩
  | create callType => exact h.create callType
  | call id op =>
    exact h.moved (h.reached.called id op)
      (callIds_withCall id (fun _ _ _ hsigned => hsigned.perform op) h.reached.tidy)
  | release id => exact h.release id
  | advanceTo t => exact h.moved (h.reached.advanced t) (callIds_advanceTo t h.reached.tidy)
  | advanceBy delta => exact h.moved (h.reached.advanced _) (callIds_advanceTo _ h.reached.tidy)

theorem performAll (h : b.Kept config first last) (ops : List Operation) :
    (performAll ops b).Kept config first last := by
  induction ops generalizing b with
  | nil => exact h
  | cons op ops ih => exact ih (h.perform op)

end Kept

theorem kept_opened (config : SessionConfig) (first last : CallId) :
    (opened config first last).Kept config first last where
  reached := .created _
  from_first := rfl
  to_last := rfl
  allocated := rfl
  counted := rfl
  bounded := nofun
  gone := nofun
  present := rfl

end Books

/-- A server counts its calls from its first number to its last. It hands the numbers out one after
the other and none twice, and refuses to create a call when, and only when, there is no number left.
Of every number it tells, whichever way it is asked, whether the call is there, was taken away, or
was never created. -/
theorem numbers_are_counted (config : SessionConfig) (first last : CallId)
    (ops : List Operation) :
    let b := performAll ops (.opened config first last)
    b.made.map UInt16.toNat = List.range' first.toNat b.made.length ∧
    (∀ id ∈ b.made, id ≤ last) ∧
    (∀ callType,
      (∀ id, (createCall callType b.run).1 = .ok id ↔
        id.toNat = first.toNat + b.made.length ∧ id ≤ last) ∧
      ∀ e, (createCall callType b.run).1 = .error e ↔
        e = .callIdOutOfRange last ∧ ∀ id, first ≤ id → id ≤ last → id ∈ b.made) ∧
    ∀ id,
      (b.run.state.call? id).map (·.callId) = (b.standing id).map (fun _ => id) ∧
      (∀ {α : Type} (f : Session.Run → α × Session.Run),
        (withCall id f b.run).1.map (fun _ => ()) = b.standing id) ∧
      (releaseCall id b.run).1 = b.standing id := by
  intro b
  have h : b.Kept config first last := (Books.kept_opened config first last).performAll ops
  refine ⟨h.counted, h.bounded, fun callType => ⟨h.created_iff callType, h.refused_iff callType⟩,
    fun id => ⟨?_, fun f => ?_, ?_⟩⟩
  · rw [← h.look_up id]
    cases hcall : b.run.state.call? id with
    | error e => rfl
    | ok call => exact congrArg Except.ok (callId_of_call? hcall)
  · exact (answer_withCall id f b.run).trans (h.look_up id)
  · exact (answer_releaseCall id b.run).trans (h.look_up id)

/-- The range ends where the numbers end: after two calls there is no third, although the first of
them is gone. -/
example :
    (performAll [.create .basic, .release 65534, .create .basic, .create .basic]
      (.opened {} 65534 65535)).made = [65534, 65535] := by decide +kernel

end FloorControl.Server
