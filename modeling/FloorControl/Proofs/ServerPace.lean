import FloorControl.Proofs.Pace
import FloorControl.Proofs.Signatures
import FloorControl.TickClock

/-!
# The pace of a server

The calls of a server share the clock and the observers, and nothing else. Each of them comes to the
same at whatever pace the server goes, and since every call tells what it tells under its own
number, the pace shows only in the order in which different calls are heard. What follows is that
the length of a tick does not matter.
-/

namespace FloorControl

namespace Server

variable {config : SessionConfig} {r mid last : Run} {calls calls' : List Session}
  {told : List TraceEvent} {early late t : Nat}

inductive Reached (config : SessionConfig) : Run → Prop where
  | created (ids : CallIds) : Reached config ⟨create config ids, []⟩
  | subscribed {r : Run} : Reached config r → Reached config (subscribe r)
  | callCreated {r : Run} (callType : CallType) : Reached config r →
      Reached config (createCall callType r).2
  | called {r : Run} (id : CallId) (op : Session.Operation) : Reached config r →
      Reached config (withCall id (Session.perform op) r).2
  | callReleased {r : Run} (id : CallId) : Reached config r → Reached config (releaseCall id r).2
  | advanced {r : Run} (t : Nat) : Reached config r → Reached config (advanceTo t r)

/-- The clocks of all calls are moved. Each call goes its own way, and what the calls tell comes
one call after the other. -/
inductive AdvancesEach (t : Nat) : List Session → List Session → List TraceEvent → Prop where
  | nil : AdvancesEach t [] [] []
  | cons {call call' : Session} {rest rest' : List Session} {told more : List TraceEvent} :
      Session.Advances t ⟨call, []⟩ ⟨call', told⟩ → AdvancesEach t rest rest' more →
      AdvancesEach t (call :: rest) (call' :: rest') (more ++ told)

def Advances (t : Nat) (r last : Run) : Prop :=
  if t < r.state.now then last = r
  else ∃ calls told, AdvancesEach t r.state.calls calls told ∧
    last = ⟨{ r.state with now := t, calls := calls }, told ++ r.log⟩

theorem AdvancesEach.unique {calls'' : List Session} {told' : List TraceEvent}
    (h : AdvancesEach t calls calls' told) (h' : AdvancesEach t calls calls'' told') :
    calls' = calls'' ∧ told = told' := by
  induction h generalizing calls'' told' with
  | nil =>
    cases h'
    exact ⟨rfl, rfl⟩
  | cons hcall _ ih =>
    cases h' with
    | cons hcall' hrest' =>
      obtain ⟨rfl, rfl⟩ := ih hrest'
      cases hcall.unique hcall'
      exact ⟨rfl, rfl⟩

theorem Advances.unique (h : Advances t r mid) (h' : Advances t r last) : mid = last := by
  rw [Advances] at h h'
  split at h
  · next hpast => rw [if_pos hpast] at h'; exact h.trans h'.symm
  · next hpast =>
    rw [if_neg hpast] at h'
    obtain ⟨calls, told, hcalls, rfl⟩ := h
    obtain ⟨calls', told', hcalls', rfl⟩ := h'
    obtain ⟨rfl, rfl⟩ := hcalls.unique hcalls'
    rfl

inductive AdvancesAlong : List Nat → Run → Run → Prop where
  | nil {r : Run} : AdvancesAlong [] r r
  | cons {t : Nat} {times : List Nat} {r mid last : Run} : Advances t r mid →
      AdvancesAlong times mid last → AdvancesAlong (t :: times) r last

/-- Every call comes to a stop at `t`, in the steps that an advance may take. -/
def Ends (t : Nat) (calls : List Session) : Prop :=
  ∀ call ∈ calls, ∃ last, Session.advance? Session.stepLimit t ⟨call, []⟩ = some last

def about (id : CallId) (log : List TraceEvent) : List TraceEvent := log.filter (·.event.call = id)

def callTrace (id : CallId) (r : Run) : List TraceEvent := about id r.trace

/-- The same server, of which every call has told the same. -/
structure Alike (r r' : Run) : Prop where
  state : r.state = r'.state
  traces : ∀ id, callTrace id r = callTrace id r'

theorem Alike.trans {r'' : Run} {r r' : Run} (h : Alike r r') (h' : Alike r' r'') : Alike r r'' :=
  ⟨h.state.trans h'.state, fun id => (h.traces id).trans (h'.traces id)⟩

theorem about_append (id : CallId) (log log' : List TraceEvent) :
    about id (log ++ log') = about id log ++ about id log' := List.filter_append ..

private theorem about_eq_nil {id : CallId} {log : List TraceEvent}
    (h : ∀ e ∈ log, e.event.call ≠ id) : about id log = [] := by
  rw [about, List.filter_eq_nil_iff]
  simpa using h

theorem alike_of_about (hstate : r.state = last.state)
    (hlog : ∀ id, about id r.log = about id last.log) : Alike r last := by
  refine ⟨hstate, fun id => ?_⟩
  simp only [callTrace, about, Observed.trace, List.filter_reverse] at hlog ⊢
  rw [hlog id]

/-- The calls have different numbers, and each tells what it tells under its own. -/
structure Apart (calls : List Session) : Prop where
  distinct : (calls.map (·.callId)).Nodup
  signed : ∀ call ∈ calls, Session.Signed call.callId [] ⟨call, []⟩

theorem Apart.tail {call : Session} (h : Apart (call :: calls)) : Apart calls :=
  ⟨(List.nodup_cons.mp h.distinct).2, fun c hc => h.signed c (.tail _ hc)⟩

private theorem signed_alone {call : CallId} {earlier : List TraceEvent} {r : Session.Run}
    (h : Session.Signed call earlier r) : Session.Signed call [] ⟨r.state, []⟩ :=
  ⟨h.callId, h.arbitrator, h.participants, [], rfl, by simp⟩

/-- What a call tells on its way is told of it. -/
private theorem told_advances {call call' : Session}
    (hsigned : Session.Signed call.callId [] ⟨call, []⟩)
    (h : Session.Advances t ⟨call, []⟩ ⟨call', told⟩) :
    call'.callId = call.callId ∧ Session.Signed call.callId [] ⟨call', []⟩ ∧
      ∀ e ∈ told, e.event.call = call.callId := by
  have hafter := hsigned.advances h
  obtain ⟨told', htold, hof⟩ := hafter.log
  obtain rfl : told = told' := by simpa using htold
  exact ⟨hafter.callId, signed_alone hafter, hof⟩

/-- What the calls are after the advance, and whom it was told of. -/
private theorem AdvancesEach.apart (h : AdvancesEach t calls calls' told)
    (hapart : Apart calls) : calls'.map (·.callId) = calls.map (·.callId) ∧
      (∀ call ∈ calls', Session.Signed call.callId [] ⟨call, []⟩) ∧
      ∀ e ∈ told, e.event.call ∈ calls.map (·.callId) := by
  induction h with
  | nil => simp
  | @cons call call' rest rest' told more hcall _ ih =>
    obtain ⟨hids, hsigned, hmore⟩ := ih hapart.tail
    obtain ⟨hid, hfirst, htold⟩ := told_advances (hapart.signed call (.head _)) hcall
    refine ⟨by rw [List.map_cons, List.map_cons, hids, hid], fun c hc => ?_, fun e he => ?_⟩
    · rcases List.mem_cons.mp hc with rfl | hc
      · rwa [hid]
      · exact hsigned c hc
    · rcases List.mem_append.mp he with he | he
      · exact .tail _ (hmore e he)
      · rw [htold e he]
        exact .head _

theorem Apart.advances (hapart : Apart calls) (h : AdvancesEach t calls calls' told) :
    Apart calls' := by
  obtain ⟨hids, hsigned, -⟩ := h.apart hapart
  exact ⟨hids ▸ hapart.distinct, hsigned⟩

/-- Of a call and others, only one is heard under a number. -/
private theorem about_comm {own : CallId} {others : List CallId} {told more : List TraceEvent}
    (hother : own ∉ others) (htold : ∀ e ∈ told, e.event.call = own)
    (hmore : ∀ e ∈ more, e.event.call ∈ others) (id : CallId) :
    about id told ++ about id more = about id more ++ about id told := by
  by_cases hid : own = id
  · have hnone : about id more = [] := about_eq_nil fun e he heq =>
      hother (hid ▸ heq ▸ hmore e he)
    rw [hnone, List.append_nil, List.nil_append]
  · have hnone : about id told = [] := about_eq_nil fun e he heq =>
      hid ((htold e he).symm.trans heq)
    rw [hnone, List.append_nil, List.nil_append]

/-- A call that is stopped on the way tells the same, in two parts. -/
private theorem stop_one {call mid call' : Session} {told₁ told₂ : List TraceEvent}
    (hmid : Session.Advances early ⟨call, []⟩ ⟨mid, told₁⟩)
    (hlast : Session.Advances late ⟨mid, []⟩ ⟨call', told₂⟩) (hle : early ≤ late) :
    Session.Advances late ⟨call, []⟩ ⟨call', told₂ ++ told₁⟩ :=
  (Session.advances_iff hle).mpr ⟨_, hmid, hlast.onto told₁⟩

private theorem exists_stop_one {call call' : Session} {told : List TraceEvent}
    (h : Session.Advances late ⟨call, []⟩ ⟨call', told⟩) (hle : early ≤ late) :
    ∃ mid told₁ told₂, Session.Advances early ⟨call, []⟩ ⟨mid, told₁⟩ ∧
      Session.Advances late ⟨mid, []⟩ ⟨call', told₂⟩ ∧ told = told₂ ++ told₁ := by
  obtain ⟨⟨mid, told₁⟩, hmid, hlast⟩ := (Session.advances_iff hle).mp h
  obtain ⟨steps, hsteps⟩ := hlast.exists_advance?
  have honto := Session.advance?_onto told₁ steps late ⟨mid, []⟩
  rw [show Observed.onto told₁ (⟨mid, []⟩ : Session.Run) = ⟨mid, told₁⟩ from rfl, hsteps] at honto
  obtain ⟨⟨call₂, told₂⟩, hends, heq⟩ := Option.map_eq_some_iff.mp honto.symm
  cases heq
  exact ⟨mid, told₁, told₂, hmid, .of_advance? hends, rfl⟩

/-- The calls all tell the same if they are stopped on the way, but for the order in which they are
heard. -/
theorem AdvancesEach.join {mid : List Session} {told₁ told₂ : List TraceEvent}
    (hmid : AdvancesEach early calls mid told₁) (hlast : AdvancesEach late mid calls' told₂)
    (hle : early ≤ late) (hapart : Apart calls) :
    ∃ told, AdvancesEach late calls calls' told ∧
      ∀ id, about id (told₂ ++ told₁) = about id told := by
  induction hmid generalizing calls' told₂ with
  | nil =>
    cases hlast
    exact ⟨[], .nil, fun _ => rfl⟩
  | @cons call mid rest rest' first more hcall hrest ih =>
    cases hlast with
    | @cons _ call' _ rest'' first' more' hcall' hrest' =>
      obtain ⟨told, htold, habout⟩ := ih hrest' hapart.tail
      have hone := stop_one hcall hcall' hle
      refine ⟨told ++ (first' ++ first), .cons hone htold, fun id => ?_⟩
      obtain ⟨-, -, hof⟩ := told_advances (hapart.signed call (.head _)) hone
      have hcomm := about_comm (List.nodup_cons.mp hapart.distinct).1
        (fun e he => hof e (List.mem_append_left _ he)) (hrest.apart hapart.tail).2.2 id
      simp only [about_append] at habout ⊢
      rw [← habout id, List.append_assoc, List.append_assoc, ← List.append_assoc (about id first'),
        hcomm, List.append_assoc]

theorem AdvancesEach.split {told : List TraceEvent} (h : AdvancesEach late calls calls' told)
    (hle : early ≤ late) (hapart : Apart calls) :
    ∃ mid told₁ told₂, AdvancesEach early calls mid told₁ ∧ AdvancesEach late mid calls' told₂ ∧
      ∀ id, about id (told₂ ++ told₁) = about id told := by
  have hexists : ∃ mid told₁ told₂, AdvancesEach early calls mid told₁ ∧
      AdvancesEach late mid calls' told₂ := by
    clear hapart
    induction h with
    | nil => exact ⟨[], [], [], .nil, .nil⟩
    | cons hcall _ ih =>
      obtain ⟨mid, told₁, told₂, hmid, hlast⟩ := ih
      obtain ⟨one, first, first', hone, hone', -⟩ := exists_stop_one hcall hle
      exact ⟨_, _, _, .cons hone hmid, .cons hone' hlast⟩
  obtain ⟨mid, told₁, told₂, hmid, hlast⟩ := hexists
  obtain ⟨told', htold', habout⟩ := hmid.join hlast hle hapart
  obtain ⟨-, rfl⟩ := htold'.unique h
  exact ⟨mid, told₁, told₂, hmid, hlast, habout⟩

/-- The calls of a server are kept apart, and their numbers have been handed out. -/
structure Tidy (s : Server) : Prop where
  apart : Apart s.calls
  known : ∀ call ∈ s.calls, call.callId.toNat < s.ids.first.toNat + s.ids.allocated

theorem toNat_ofNat_of_le {n : Nat} {bound : CallId} (h : n ≤ bound.toNat) :
    (UInt16.ofNat n).toNat = n :=
  UInt16.toNat_ofNat_of_lt' (Nat.lt_of_le_of_lt h bound.toNat_lt)

/-- A call has the number that comes next, which nobody has had. -/
private theorem tidy_createCall (callType : CallType) (h : Tidy r.state) :
    Tidy (createCall callType r).2.state := by
  simp only [createCall, CallIds.allocate]
  by_cases hnext : r.state.ids.first.toNat + r.state.ids.allocated ≤ r.state.ids.last.toNat
  · have hid := toNat_ofNat_of_le hnext
    simp only [if_pos hnext]
    refine ⟨⟨?_, fun call hcall => ?_⟩, fun call hcall => ?_⟩
    · rw [List.map_append, List.nodup_append]
      refine ⟨h.apart.distinct, by simp, fun id hold new hnew => ?_⟩
      obtain ⟨call, hcall, rfl⟩ := List.mem_map.mp hold
      obtain rfl := List.mem_singleton.mp hnew
      intro heq
      have hlt := h.known call hcall
      rw [heq] at hlt
      exact Nat.lt_irrefl _ (hid ▸ hlt)
    · rcases List.mem_append.mp hcall with hcall | hcall
      · exact h.apart.signed call hcall
      · obtain rfl := List.mem_singleton.mp hcall
        exact ⟨rfl, rfl, by simp [Session.create, Roster.get?, Roster.empty], [], rfl, by simp⟩
    · rcases List.mem_append.mp hcall with hcall | hcall
      · have hlt := h.known call hcall
        simp only
        omega
      · obtain rfl := List.mem_singleton.mp hcall
        simp only [Session.create, hid]
        omega
  · simp only [if_neg hnext]
    exact h

/-- A call that is put in the place of another of its number changes no number. -/
theorem callIds_replaceCall {id : CallId} {call : Session} (hid : call.callId = id) (s : Server) :
    (replaceCall id call s).callIds = s.callIds := by
  simp only [callIds, replaceCall, List.map_map]
  refine List.map_congr_left fun c _ => ?_
  simp only [Function.comp_apply]
  split
  · next heq => rw [hid, heq]
  · rfl

private theorem tidy_replaceCall {id : CallId} {call : Session} {s : Server} (h : Tidy s)
    (hsigned : Session.Signed id [] ⟨call, []⟩) : Tidy (replaceCall id call s) := by
  have hid : call.callId = id := hsigned.callId
  have hids : (replaceCall id call s).calls.map (·.callId) = s.calls.map (·.callId) :=
    callIds_replaceCall hid s
  have hmem : ∀ c ∈ (replaceCall id call s).calls, c = call ∧ id ∈ s.calls.map (·.callId) ∨
      c ∈ s.calls := by
    intro c hc
    obtain ⟨d, hd, rfl⟩ := List.mem_map.mp hc
    split
    · next heq => exact .inl ⟨rfl, heq ▸ List.mem_map_of_mem hd⟩
    · exact .inr hd
  refine ⟨⟨hids ▸ h.apart.distinct, fun c hc => ?_⟩, fun c hc => ?_⟩
  · rcases hmem c hc with ⟨rfl, -⟩ | hc
    · rwa [hid]
    · exact h.apart.signed c hc
  · rcases hmem c hc with ⟨rfl, hin⟩ | hc
    · obtain ⟨d, hd, heq⟩ := List.mem_map.mp hin
      rw [hid, ← heq]
      exact h.known d hd
    · exact h.known c hc

theorem find?_of_call? {id : CallId} {call : Session} {s : Server} (h : s.call? id = .ok call) :
    s.calls.find? (·.callId = id) = some call := by
  simp only [call?] at h
  split at h
  · split at h
    · next hfind =>
      cases h
      exact hfind
    · cases h
  · cases h

theorem callId_of_call? {id : CallId} {call : Session} {s : Server} (h : s.call? id = .ok call) :
    call.callId = id := by
  simpa using List.find?_some (find?_of_call? h)

/-- What is done with a call is done with the one of the number, which keeps its number, or the
server answers why there is none. -/
theorem withCall_cases {α : Type} (id : CallId) {f : Session.Run → α × Session.Run}
    (hf : ∀ call log r, Session.Signed call log r → Session.Signed call log (f r).2)
    (h : Tidy r.state) :
    (∃ e, r.state.call? id = .error e ∧ withCall id f r = (.error e, r)) ∨
      ∃ call, r.state.call? id = .ok call ∧ Session.Signed id r.log (f ⟨call, r.log⟩).2 ∧
        withCall id f r = (.ok (f ⟨call, r.log⟩).1,
          ⟨replaceCall id (f ⟨call, r.log⟩).2.state r.state, (f ⟨call, r.log⟩).2.log⟩) := by
  cases hcall : r.state.call? id with
  | error e => exact .inl ⟨e, rfl, by simp only [withCall, hcall]⟩
  | ok call =>
    have hsigned := h.apart.signed call (List.mem_of_find?_eq_some (find?_of_call? hcall))
    rw [callId_of_call? hcall] at hsigned
    have hlog : Session.Signed id r.log ⟨call, r.log⟩ :=
      ⟨hsigned.callId, hsigned.arbitrator, hsigned.participants, [], rfl, by simp⟩
    exact .inr ⟨call, rfl, hf _ _ _ hlog, by simp only [withCall, hcall]⟩

private theorem tidy_withCall {α : Type} (id : CallId) {f : Session.Run → α × Session.Run}
    (hf : ∀ call log r, Session.Signed call log r → Session.Signed call log (f r).2)
    (h : Tidy r.state) : Tidy (withCall id f r).2.state := by
  rcases withCall_cases id hf h with ⟨e, -, heq⟩ | ⟨call, -, hsigned, heq⟩ <;> rw [heq]
  · exact h
  · exact tidy_replaceCall h (signed_alone hsigned)

private theorem tidy_releaseCall {id : CallId} (h : Tidy r.state) :
    Tidy (releaseCall id r).2.state := by
  have hcall := tidy_withCall id (f := fun call => ((), Session.release call))
    (fun _ _ _ hsigned => hsigned.release) h
  simp only [releaseCall]
  split
  · next heq => rwa [heq] at hcall
  · next r' heq =>
    rw [heq] at hcall
    exact ⟨⟨hcall.apart.distinct.sublist (List.filter_sublist.map _),
      fun call hmem => hcall.apart.signed call (List.mem_filter.mp hmem).1⟩,
      fun call hmem => hcall.known call (List.mem_filter.mp hmem).1⟩

/-- Calls whose clocks are moved keep their numbers, and each tells what it tells under its own. -/
theorem apart_advanceEach (t : Nat) (log : List TraceEvent) (h : Apart calls) :
    (advanceEach t calls log).1.map (·.callId) = calls.map (·.callId) ∧
      ∀ call ∈ (advanceEach t calls log).1, Session.Signed call.callId [] ⟨call, []⟩ := by
  induction calls generalizing log with
  | nil => simp [advanceEach]
  | cons call rest ih =>
    obtain ⟨hids, hsigned⟩ := ih (Session.advanceTo t ⟨call, log⟩).log h.tail
    have hcall := h.signed call (.head _)
    have hafter : Session.Signed call.callId log (Session.advanceTo t ⟨call, log⟩) :=
      .advanceTo t ⟨hcall.callId, hcall.arbitrator, hcall.participants, [], rfl, by simp⟩
    have hid : (Session.advanceTo t ⟨call, log⟩).state.callId = call.callId := hafter.callId
    simp only [advanceEach, List.map_cons, hids, hid, true_and]
    intro c hc
    rcases List.mem_cons.mp hc with rfl | hc
    · rw [hid]
      exact signed_alone hafter
    · exact hsigned c hc

private theorem Tidy.moved {s s' : Server} (h : Tidy s) (hapart : Apart s'.calls)
    (hids : s'.calls.map (·.callId) = s.calls.map (·.callId)) (hallocated : s'.ids = s.ids) :
    Tidy s' := by
  refine ⟨hapart, fun call hcall => ?_⟩
  have hin : call.callId ∈ s.calls.map (·.callId) := hids ▸ List.mem_map_of_mem hcall
  obtain ⟨before, hbefore, heq⟩ := List.mem_map.mp hin
  rw [hallocated, ← heq]
  exact h.known before hbefore

theorem tidy_advanceTo (t : Nat) (h : Tidy r.state) : Tidy (advanceTo t r).state := by
  simp only [advanceTo]
  split
  · exact h
  · obtain ⟨hids, hsigned⟩ := apart_advanceEach t r.log h.apart
    exact h.moved ⟨hids ▸ h.apart.distinct, hsigned⟩ hids rfl

theorem Reached.tidy (h : Reached config r) : Tidy r.state := by
  induction h with
  | created ids => exact ⟨⟨.nil, by simp [create]⟩, by simp [create]⟩
  | subscribed _ ih => exact ⟨ih.apart, ih.known⟩
  | callCreated callType _ ih => exact tidy_createCall callType ih
  | called id op _ ih => exact tidy_withCall id (fun _ _ _ hsigned => hsigned.perform op) ih
  | callReleased id _ ih => exact tidy_releaseCall ih
  | advanced t _ ih => exact tidy_advanceTo t ih

theorem Tidy.advances (h : Tidy r.state) (hlast : Advances t r last) : Tidy last.state := by
  rw [Advances] at hlast
  split at hlast
  · exact hlast ▸ h
  · obtain ⟨calls, told, hcalls, rfl⟩ := hlast
    exact h.moved (h.apart.advances hcalls) (hcalls.apart h.apart).1 rfl

/-- A server that is stopped on the way is the same at the end. -/
theorem Advances.join (hmid : Advances early r mid) (hlast : Advances late mid last)
    (hle : early ≤ late) (h : Tidy r.state) :
    ∃ last', Advances late r last' ∧ Alike last last' := by
  rw [Advances] at hmid
  split at hmid
  · subst hmid
    exact ⟨last, hlast, rfl, fun _ => rfl⟩
  · next hpast =>
    obtain ⟨calls, told₁, hcalls, rfl⟩ := hmid
    rw [Advances, if_neg (Nat.not_lt.mpr hle)] at hlast
    obtain ⟨calls', told₂, hcalls', rfl⟩ := hlast
    obtain ⟨told, htold, habout⟩ := hcalls.join hcalls' hle h.apart
    refine ⟨⟨{ r.state with now := late, calls := calls' }, told ++ r.log⟩, ?_,
      alike_of_about rfl fun id => ?_⟩
    · rw [Advances, if_neg (by omega)]
      exact ⟨calls', told, htold, rfl⟩
    · simp only [← List.append_assoc]
      rw [about_append, habout id, about_append]

theorem Advances.split (hlast : Advances late r last) (hle : early ≤ late) (h : Tidy r.state) :
    ∃ mid last', Advances early r mid ∧ Advances late mid last' ∧ Alike last' last := by
  by_cases hpast : early < r.state.now
  · exact ⟨r, last, by rw [Advances, if_pos hpast], hlast, rfl, fun _ => rfl⟩
  · have hall := hlast
    rw [Advances, if_neg (by omega)] at hall
    obtain ⟨calls', told, hcalls, rfl⟩ := hall
    obtain ⟨calls, told₁, told₂, hmid, hend, -⟩ := hcalls.split hle h.apart
    have hfirst : Advances early r
        ⟨{ r.state with now := early, calls := calls }, told₁ ++ r.log⟩ := by
      rw [Advances, if_neg hpast]
      exact ⟨calls, told₁, hmid, rfl⟩
    have hsecond : Advances late ⟨{ r.state with now := early, calls := calls }, told₁ ++ r.log⟩
        ⟨{ r.state with now := late, calls := calls' }, told₂ ++ (told₁ ++ r.log)⟩ := by
      rw [Advances, if_neg (Nat.not_lt.mpr hle)]
      exact ⟨calls', told₂, hend, rfl⟩
    obtain ⟨last', hlast', halike⟩ := hfirst.join hsecond hle h
    rw [hlast'.unique hlast] at halike
    exact ⟨_, _, hfirst, hsecond, halike⟩

theorem AdvancesAlong.join {times : List Nat} (hlast : AdvancesAlong (times ++ [t]) r last)
    (hle : ∀ time ∈ times, time ≤ t) (h : Tidy r.state) :
    ∃ last', Advances t r last' ∧ Alike last last' := by
  induction times generalizing r with
  | nil =>
    cases hlast with
    | cons hadvances hnone =>
      cases hnone
      exact ⟨last, hadvances, rfl, fun _ => rfl⟩
  | cons first rest ih =>
    cases hlast with
    | cons hfirst hrest =>
      obtain ⟨last', hlast', halike⟩ :=
        ih hrest (fun time htime => hle time (.tail _ htime)) (h.advances hfirst)
      obtain ⟨last'', hlast'', halike'⟩ := hfirst.join hlast' (hle first (.head _)) h
      exact ⟨last'', hlast'', halike.trans halike'⟩

theorem AdvancesAlong.split {times : List Nat} (hlast : Advances t r last)
    (hle : ∀ time ∈ times, time ≤ t) (h : Tidy r.state) :
    ∃ last', AdvancesAlong (times ++ [t]) r last' ∧ Alike last' last := by
  induction times generalizing r last with
  | nil => exact ⟨last, .cons hlast .nil, rfl, fun _ => rfl⟩
  | cons first rest ih =>
    obtain ⟨mid, last', hfirst, hrest, halike⟩ := hlast.split (hle first (.head _)) h
    obtain ⟨last'', halong, halike'⟩ :=
      ih hrest (fun time htime => hle time (.tail _ htime)) (h.advances hfirst)
    exact ⟨last'', .cons hfirst halong, halike'.trans halike⟩

private theorem advanceEach_eq (log : List TraceEvent) (hends : Ends t calls) :
    ∃ told, AdvancesEach t calls (advanceEach t calls log).1 told ∧
      (advanceEach t calls log).2 = told ++ log := by
  induction calls generalizing log with
  | nil => exact ⟨[], .nil, rfl⟩
  | cons call rest ih =>
    obtain ⟨⟨call', told⟩, hcall⟩ := hends call (.head _)
    have hmoved : Session.advanceTo t ⟨call, log⟩ = ⟨call', told ++ log⟩ := by
      have honto := Session.advance?_onto log Session.stepLimit t ⟨call, []⟩
      rw [hcall] at honto
      exact Session.advanceTo_eq honto (Nat.le_refl _)
    obtain ⟨more, hrest, hlog⟩ := ih (told ++ log) fun c hc => hends c (.tail _ hc)
    simp only [advanceEach, hmoved]
    exact ⟨more ++ told, .cons (.of_advance? hcall) hrest, by rw [hlog, List.append_assoc]⟩

/-- As long as every call comes to a stop, the server does what a finished advance is. -/
theorem advances_advanceTo (hends : Ends t r.state.calls) : Advances t r (advanceTo t r) := by
  rw [Advances, advanceTo]
  split
  · rfl
  · obtain ⟨told, hcalls, hlog⟩ := advanceEach_eq r.log hends
    exact ⟨_, told, hcalls, by rw [← hlog]⟩

theorem Ends.mono (hends : Ends late calls) (hle : early ≤ late) : Ends early calls := by
  intro call hcall
  obtain ⟨last, hlast⟩ := hends call hcall
  obtain ⟨mid, hmid, -⟩ := Session.advance?_split hle hlast
  exact ⟨mid, hmid⟩

/-- Calls that come to a stop still do so when they have been stopped on the way. -/
theorem Ends.advances (hends : Ends late calls) (hle : early ≤ late)
    (h : AdvancesEach early calls calls' told) : Ends late calls' := by
  induction h with
  | nil => simp [Ends]
  | @cons call call' rest rest' told more hcall _ ih =>
    intro c hc
    rcases List.mem_cons.mp hc with rfl | hc
    · obtain ⟨last, hlast⟩ := hends call (.head _)
      obtain ⟨mid, hmid, hrest⟩ := Session.advance?_split hle hlast
      obtain rfl := hcall.unique (.of_advance? hmid)
      have honto := Session.advance?_onto told Session.stepLimit late ⟨c, []⟩
      rw [show Observed.onto told (⟨c, []⟩ : Session.Run) = ⟨c, told⟩ from rfl, hrest] at honto
      obtain ⟨alone, halone, -⟩ := Option.map_eq_some_iff.mp honto.symm
      exact ⟨alone, halone⟩
    · exact ih (fun d hd => hends d (.tail _ hd)) c hc

private theorem along_foldl {times : List Nat} (hends : Ends t r.state.calls)
    (hle : ∀ time ∈ times, time ≤ t) :
    AdvancesAlong (times ++ [t]) r ((times ++ [t]).foldl (fun r time => advanceTo time r) r) := by
  induction times generalizing r with
  | nil => exact .cons (advances_advanceTo hends) .nil
  | cons first rest ih =>
    have hfirst := advances_advanceTo (hends.mono (hle first (.head _)))
    refine .cons hfirst (ih ?_ fun time htime => hle time (.tail _ htime))
    rw [Advances] at hfirst
    split at hfirst
    · rwa [hfirst]
    · obtain ⟨calls, told, hcalls, heq⟩ := hfirst
      rw [heq]
      exact hends.advances (hle first (.head _)) hcalls

theorem alike_foldl_advanceTo {times : List Nat} (h : Tidy r.state)
    (hends : Ends t r.state.calls) (hle : ∀ time ∈ times, time ≤ t) :
    Alike ((times ++ [t]).foldl (fun r time => advanceTo time r) r) (advanceTo t r) := by
  obtain ⟨last, hlast, halike⟩ := (along_foldl hends hle).join hle h
  rwa [hlast.unique (advances_advanceTo hends)] at halike

/-- The size of the steps does not matter. A call whose clock is stopped on the way is at the end
the same in everything, and has told the same at the same times. The same server is reached by
whatever moments, in order or not, it is moved to before the last, and each of its calls has told
the same at the same times. -/
theorem advance_at_any_pace :
    (∀ {early late : Nat} (r last : Session.Run), early ≤ late →
      (Session.Advances late r last ↔
        ∃ mid, Session.Advances early r mid ∧ Session.Advances late mid last)) ∧
    (∀ {early late : Nat} (r last : Session.Run), early ≤ late →
      Session.advance? Session.stepLimit late r = some last →
      Session.advanceTo late (Session.advanceTo early r) = Session.advanceTo late r) ∧
    ∀ {config : SessionConfig} {r : Run}, Reached config r →
      ∀ (times : List Nat) (t : Nat), (∀ time ∈ times, time ≤ t) →
        (∀ last, Advances t r last →
          ∃ last', AdvancesAlong (times ++ [t]) r last' ∧ Alike last' last) ∧
        (∀ last', AdvancesAlong (times ++ [t]) r last' →
          ∃ last, Advances t r last ∧ Alike last' last) ∧
        (Ends t r.state.calls →
          Alike ((times ++ [t]).foldl (fun r time => advanceTo time r) r) (advanceTo t r)) :=
  ⟨fun _ _ hle => Session.advances_iff hle, fun _ _ hle h => Session.advanceTo_advanceTo hle h,
    fun hr _ _ hle => ⟨fun _ hlast => AdvancesAlong.split hlast hle hr.tidy,
      fun _ halong => halong.join hle hr.tidy, fun hends => alike_foldl_advanceTo hr.tidy hends hle⟩⟩

def work (id : CallId) (ops : List Session.Operation) (r : Run) : Run :=
  ops.foldl (fun r op => (withCall id (Session.perform op) r).2) r

theorem Reached.work {id : CallId} (ops : List Session.Operation) (hr : Reached config r) :
    Reached config (work id ops r) := by
  induction ops generalizing r with
  | nil => exact hr
  | cons op ops ih => exact ih (hr.called id op)

def distant : SessionConfig where
  linkDelay := 20

def busy : Run :=
  let opening : List Session.Operation := [.join 1 5 true, .join 2 5 false, .setUpAll, .push 1]
  let opened := (createCall .basic (createCall .basic ⟨create distant, []⟩).2).2
  work 2 opening (work 1 opening opened)

/-- The clock of a busy server goes on in steps and in one go: all is the same but for the order in
which the two calls are heard. -/
theorem busy_at_any_pace :
    Alike ([10, 25, 60].foldl (fun r time => advanceTo time r) busy) (advanceTo 60 busy) ∧
    ([10, 25, 60].foldl (fun r time => advanceTo time r) busy).log ≠ (advanceTo 60 busy).log ∧
    (∃ last last', Advances 60 busy last ∧ AdvancesAlong [10, 25, 60] busy last' ∧
      Alike last' last ∧ ∃ last'', Advances 60 busy last'' ∧ Alike last' last'') ∧
    busy.state.calls.length = 2 ∧ ∀ call ∈ busy.state.calls,
      ∃ last, Session.Advances 60 ⟨call, []⟩ last ∧
        (∃ mid, Session.Advances 25 ⟨call, []⟩ mid ∧ Session.Advances 60 mid last) ∧
        Session.advanceTo 60 (Session.advanceTo 25 ⟨call, []⟩) =
          Session.advanceTo 60 ⟨call, []⟩ := by
  obtain ⟨hcall, hadvance, hserver⟩ := advance_at_any_pace
  have hreached : Reached distant busy :=
    (((Reached.created {}).callCreated .basic).callCreated .basic).work _ |>.work _
  have hall : busy.state.calls.all (fun call =>
      (Session.advance? Session.stepLimit 60 ⟨call, []⟩).isSome) = true := by decide +kernel
  have hends : Ends 60 busy.state.calls := fun call hmem =>
    Option.isSome_iff_exists.mp (List.all_eq_true.mp hall call hmem)
  obtain ⟨hsplit, hjoin, halike⟩ := hserver hreached [10, 25] 60 (by decide)
  have hlast := advances_advanceTo hends
  obtain ⟨last', halong, halike'⟩ := hsplit _ hlast
  refine ⟨halike hends, by decide +kernel, ⟨_, last', hlast, halong, halike', hjoin _ halong⟩,
    by decide +kernel, fun call hmem => ?_⟩
  obtain ⟨last, hsteps⟩ := hends call hmem
  have hdone := Session.Advances.of_advance? hsteps
  exact ⟨last, hdone, (hcall _ last (by decide)).mp hdone, hadvance _ last (by decide) hsteps⟩

end Server

namespace TickClock

variable {c : TickClock} {r : Server.Run} {time : Nat}

/-- However long its ticks are, a clock leaves the server as if it had been moved at once to the
moment of the last tick. -/
theorem alike_sleep (h : Server.Tidy r.state) (hstruck : c.ticks < (c.sleep time r).1.ticks)
    (hlast : c.timeAt (c.sleep time r).1.ticks ≤ Time.last)
    (hends : Server.Ends (c.timeAt (c.sleep time r).1.ticks) r.state.calls) :
    Server.Alike (c.sleep time r).2
      (Server.advanceTo (c.timeAt (c.sleep time r).1.ticks) r) := by
  have hmono : ∀ {k l : Nat}, k ≤ l → c.timeAt k ≤ c.timeAt l := fun hle =>
    Nat.add_le_add_left (Nat.mul_le_mul_right _ hle) _
  simp only [sleep] at hstruck hlast hends ⊢
  generalize ({ c with elapsed := c.elapsed + time } : TickClock).ticks = final at *
  have htimes : ∀ (ks : List Nat) (r : Server.Run), (∀ k ∈ ks, k ≤ final) →
      ks.foldl c.strike r = (ks.map c.timeAt).foldl (fun r time => Server.advanceTo time r) r := by
    intro ks
    induction ks with
    | nil => exact fun _ _ => rfl
    | cons k ks ih =>
      intro r hks
      have hstrike : c.strike r k = Server.advanceTo (c.timeAt k) r :=
        if_pos (Nat.le_trans (hmono (hks k (.head _))) hlast)
      rw [List.foldl_cons, hstrike, ih _ fun k hk => hks k (.tail _ hk), List.map_cons,
        List.foldl_cons]
  obtain ⟨n, rfl⟩ : ∃ n, final = c.ticks + 1 + n := ⟨final - (c.ticks + 1), by omega⟩
  have hcount : c.ticks + 1 + n - c.ticks = n + 1 := by omega
  rw [hcount, htimes _ _ (fun k hk => by rw [List.mem_range'_1] at hk; omega),
    List.range'_1_concat, List.map_append]
  refine Server.alike_foldl_advanceTo h hends fun t ht => ?_
  obtain ⟨k, hk, rfl⟩ := List.mem_map.mp ht
  rw [List.mem_range'_1] at hk
  exact hmono (by omega)

end TickClock

end FloorControl
