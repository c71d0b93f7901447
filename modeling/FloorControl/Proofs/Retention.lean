import FloorControl.Proofs.Performance
import FloorControl.Simulator
import Mathlib.Data.List.Infix

/-!
# What is shown of a long run

The simulator reads the events of a run when the run is over, from a hub that keeps the latest ones
only. A reader that has fallen behind is told so once and could then go on with the oldest event
that is kept. The simulator stops at the first answer that is not an event. So of a run with more
events than the hub keeps it shows none, also none of those that are kept.
-/

namespace FloorControl

namespace TraceHub

variable {α : Type} {h h' : TraceHub α} {i most : Nat} {answer : Reception α}

/-- What a receiver can still get, in the order in which it was published. -/
def awaiting (i : Nat) (h : TraceHub α) : List α :=
  match (h.receivers[i]?).join with
  | none => []
  | some next => h.published.reverse.drop (max next h.oldest)

/-- Whether a receiver has missed something and was not told yet. -/
def lags (i : Nat) (h : TraceHub α) : Bool := (h.receivers[i]?).join.any (· < h.oldest)

/-- Receive until nothing comes any more, and go on where something was missed. -/
def gather : (most : Nat) → (i : Nat) → TraceHub α → List α
  | 0, _, _ => []
  | most + 1, i, h =>
    match h.receive i with
    | (.event e, h) => e :: gather most i h
    | (.lagged _, h) => gather most i h
    | _ => []

/-- What a receiver gets next, and what it can get after that. -/
inductive Receives (i : Nat) (h : TraceHub α) : Reception α → TraceHub α → Prop where
  | event {e : α} {h' : TraceHub α} : h.lags i = false → h'.lags i = false →
      h.awaiting i = e :: h'.awaiting i → Receives i h (.event e) h'
  | lagged {missed : Nat} {h' : TraceHub α} : h.lags i = true → h'.lags i = false →
      h'.awaiting i = h.awaiting i → Receives i h (.lagged missed) h'
  | empty : h.lags i = false → h.awaiting i = [] → Receives i h .empty h
  | dropped : h.lags i = false → h.awaiting i = [] → Receives i h .dropped h

private theorem event?_eq (h : TraceHub α) (n : Nat) : h.event? n = h.published.reverse[n]? := by
  rw [event?]
  split
  · next hlt => rw [List.getElem?_reverse hlt]
  · next hge => exact (List.getElem?_eq_none (by simpa using hge)).symm

private theorem join_set {receivers : List (Option Nat)} {next : Nat}
    (hi : (receivers[i]?).join = some next) (position : Nat) :
    ((receivers.set i (some position))[i]?).join = some position := by
  have hlt : i < receivers.length := by
    by_contra hge
    rw [List.getElem?_eq_none (Nat.le_of_not_lt hge)] at hi
    cases hi
  rw [List.getElem?_set_self hlt]
  rfl

private theorem awaiting_of {next : Nat} (hi : (h.receivers[i]?).join = some next) :
    h.awaiting i = h.published.reverse.drop (max next h.oldest) := by
  rw [awaiting, hi]

private theorem lags_of {next : Nat} (hi : (h.receivers[i]?).join = some next) :
    h.lags i = decide (next < h.oldest) := by
  rw [lags, hi, Option.any_some]

theorem receives (heq : h.receive i = (answer, h')) : Receives i h answer h' := by
  rw [receive] at heq
  cases hi : (h.receivers[i]?).join with
  | none =>
    rw [hi] at heq
    cases heq
    exact .dropped (by rw [lags, hi]; rfl) (by rw [awaiting, hi])
  | some next =>
    have hset (position : Nat) := join_set hi position
    simp only [hi, event?_eq] at heq
    split at heq
    · next hbehind =>
      cases heq
      refine .lagged ((lags_of hi).trans (decide_eq_true hbehind)) ?_ ?_
      · exact (lags_of (hset _)).trans (decide_eq_false (Nat.lt_irrefl h.oldest))
      · rw [awaiting_of hi, Nat.max_eq_right (Nat.le_of_lt hbehind), awaiting_of (hset _)]
        exact congrArg (h.published.reverse.drop ·) (Nat.max_self h.oldest)
    · next hbehind =>
      have hlags : h.lags i = false := (lags_of hi).trans (decide_eq_false hbehind)
      have hawaiting : h.awaiting i = h.published.reverse.drop next := by
        rw [awaiting_of hi, Nat.max_eq_left (Nat.le_of_not_lt hbehind)]
      split at heq
      · next hnone =>
        cases heq
        exact .empty hlags (hawaiting.trans
          (List.drop_eq_nil_of_le (List.getElem?_eq_none_iff.mp hnone)))
      · next e hsome =>
        cases heq
        obtain ⟨hlt, rfl⟩ := List.getElem?_eq_some_iff.mp hsome
        have hnext : h.oldest ≤ next + 1 := by omega
        refine .event hlags ?_ ?_
        · exact (lags_of (hset _)).trans (decide_eq_false (Nat.not_lt.mpr hnext))
        · rw [hawaiting, List.drop_eq_getElem_cons hlt, awaiting_of (hset _)]
          exact congrArg (_ :: h.published.reverse.drop ·) (Nat.max_eq_left hnext).symm

theorem drain_of_lags (hlags : h.lags i = true) : h.drain most i = [] := by
  cases most with
  | zero => rfl
  | succ most =>
    rw [drain]
    rcases heq : h.receive i with ⟨answer, h'⟩
    cases receives heq with
    | lagged => rfl
    | event hkeeps | empty hkeeps | dropped hkeeps => nomatch hlags.symm.trans hkeeps

theorem drain_of_not_lags (hlags : h.lags i = false) (hmost : (h.awaiting i).length ≤ most) :
    h.drain most i = h.awaiting i := by
  induction most generalizing h with
  | zero => exact (List.eq_nil_of_length_eq_zero (Nat.le_zero.mp hmost)).symm
  | succ most ih =>
    rw [drain]
    rcases heq : h.receive i with ⟨answer, h'⟩
    cases receives heq with
    | event _ hkeeps hawaiting =>
      rw [hawaiting] at hmost ⊢
      exact congrArg _ (ih hkeeps (Nat.le_of_succ_le_succ hmost))
    | lagged hmisses => nomatch hlags.symm.trans hmisses
    | empty _ hnothing | dropped _ hnothing => exact hnothing.symm

/-- As long as nothing was missed, there is nothing to go on after. -/
theorem gather_of_not_lags (hlags : h.lags i = false) : h.gather most i = h.drain most i := by
  induction most generalizing h with
  | zero => rfl
  | succ most ih =>
    rw [gather, drain]
    rcases heq : h.receive i with ⟨answer, h'⟩
    cases receives heq with
    | event _ hkeeps => exact congrArg _ (ih hkeeps)
    | lagged hmisses => nomatch hlags.symm.trans hmisses
    | empty | dropped => rfl

/-- Whoever goes on where something was missed gets everything that is kept. -/
theorem gather_eq (hmost : (h.awaiting i).length < most) : h.gather most i = h.awaiting i := by
  cases hlags : h.lags i with
  | false => rw [gather_of_not_lags hlags, drain_of_not_lags hlags (Nat.le_of_lt hmost)]
  | true =>
    obtain ⟨most, rfl⟩ : ∃ m, most = m + 1 := ⟨most - 1, by omega⟩
    rw [gather]
    rcases heq : h.receive i with ⟨answer, h'⟩
    cases receives heq with
    | lagged _ hkeeps hawaiting =>
      rw [← hawaiting] at hmost ⊢
      exact (gather_of_not_lags hkeeps).trans (drain_of_not_lags hkeeps (Nat.le_of_lt_succ hmost))
    | event hkeeps | empty hkeeps | dropped hkeeps => nomatch hlags.symm.trans hkeeps

/-- Everything that is published while somebody listens is published. -/
theorem foldl_publish (events : List α) (hheard : h.subscriberCount ≠ 0) :
    events.foldl (fun hub e => hub.publish e) h =
      { h with published := events.reverse ++ h.published } := by
  induction events generalizing h with
  | nil => rfl
  | cons e events ih =>
    rw [List.foldl_cons, publish, if_neg hheard, ih (by exact hheard)]
    simp

end TraceHub

namespace Report

variable {trace shown : List TraceEvent} {filter : Option String} {json : Bool} {s : Session}

def filled (trace : List TraceEvent) : TraceHub TraceEvent :=
  trace.foldl (fun hub e => hub.publish e) (TraceHub.subscribe {})

def retained (trace : List TraceEvent) : List TraceEvent :=
  (filled trace).gather (trace.length + 1) 0

private theorem filled_eq (trace : List TraceEvent) : filled trace = ⟨trace.reverse, [some 0]⟩ := by
  rw [filled, TraceHub.foldl_publish _ (by decide)]
  simp [TraceHub.subscribe]

private theorem awaiting_filled (trace : List TraceEvent) :
    (filled trace).awaiting 0 = trace.drop (trace.length - TraceHub.capacity) := by
  simp [filled_eq, TraceHub.awaiting, TraceHub.oldest]

/-- The latest events are kept, in order. -/
theorem retained_eq (trace : List TraceEvent) :
    retained trace = trace.drop (trace.length - TraceHub.capacity) := by
  rw [retained, TraceHub.gather_eq, awaiting_filled]
  rw [awaiting_filled, List.length_drop]
  omega

/-- Of a run with more events than are kept nothing is received. -/
theorem received_eq (trace : List TraceEvent) :
    received trace = if trace.length ≤ TraceHub.capacity then trace else [] := by
  have hlags : (filled trace).lags 0 = decide (TraceHub.capacity < trace.length) := by
    rw [filled_eq, Bool.eq_iff_iff, decide_eq_true_iff, ← Nat.sub_pos_iff_lt]
    simp [TraceHub.lags, TraceHub.oldest]
  change (filled trace).drain trace.length 0 = _
  split
  · next hshort =>
    rw [TraceHub.drain_of_not_lags (by simpa [hlags] using hshort), awaiting_filled,
      Nat.sub_eq_zero_of_le hshort, List.drop_zero]
    rw [awaiting_filled, List.length_drop]
    omega
  · next hlong =>
    exact TraceHub.drain_of_lags (by simpa [hlags] using hlong)

/-- Whether the name of an event contains the word that is looked for. Case does not matter. -/
def asked (filter : Option String) (e : TraceEvent) : Bool :=
  filter.all fun word => decide ((foldedText word).toList <:+: (foldedText e.event.kind).toList)

/-- Without a word to look for, all events are asked for. -/
theorem filter_asked_none (events : List TraceEvent) : events.filter (asked none) = events :=
  List.filter_eq_self.mpr fun _ _ => rfl

theorem occursIn_iff (word text : List Char) : occursIn word text = true ↔ word <:+: text := by
  induction text with
  | nil => simp [occursIn]
  | cons c rest ih =>
    rw [occursIn, Bool.or_eq_true, ih, List.isPrefixOf_iff_prefix, List.infix_cons_iff]

theorem passes_eq_asked (filter : Option String) : passes filter = asked filter := by
  funext e
  cases filter with
  | none => rfl
  | some word => exact Bool.eq_iff_iff.mpr ((occursIn_iff _ _).trans decide_eq_true_iff.symm)

def page (shown : List TraceEvent) (json : Bool) (s : Session) : List String :=
  let holder := orHyphen (s.holder?.map fun h => s!"{h}")
  shown.map (fun e => if json then e.toJson.text else eventLine e) ++
    ruler :: summary s ++ [s!"  {shown.length} events shown, holder={holder}"]

theorem length_page : (page shown json s).length = shown.length + (summary s).length + 2 := by
  simp [page, Nat.add_assoc]

theorem body_eq (trace : List TraceEvent) (filter : Option String) (json : Bool) (s : Session) :
    body trace filter json s = page
      (if trace.length ≤ TraceHub.capacity then trace.filter (asked filter) else []) json s := by
  have hreceived : body trace filter json s =
      page ((received trace).filter (passes filter)) json s := rfl
  rw [hreceived, received_eq, passes_eq_asked]
  split <;> rfl

/-- What is kept is shown unless the run was too long, and then it is not if there is anything to
show. -/
theorem body_eq_page_iff : body trace filter json s =
      page ((retained trace).filter (asked filter)) json s ↔
    trace.length ≤ TraceHub.capacity ∨ ∀ e ∈ retained trace, asked filter e = false := by
  rw [body_eq]
  split
  · next hshort =>
    rw [retained_eq, Nat.sub_eq_zero_of_le hshort, List.drop_zero]
    exact iff_of_true rfl (.inl hshort)
  · next hlong =>
    rw [or_iff_right hlong]
    constructor
    · intro hpage
      have hlength := congrArg List.length hpage
      rw [length_page, length_page] at hlength
      have hnone : ((retained trace).filter (asked filter)).length = 0 := by
        rw [List.length_nil] at hlength
        omega
      simpa using hnone
    · intro hnone
      rw [List.filter_eq_nil_iff.mpr (by simpa using hnone)]

end Report

namespace Simulator

variable {a : Arguments} {files : String → Except FileFault String} {c : SessionConfig}

/-- With a configuration that can be used, every scenario is played and reported. -/
theorem exists_run (hc : config a files = .ok c) :
    ∃ id r call transcript, (Scenario.ofName a.scenario c).play = .ok (id, r) ∧
      r.state.call? id = .ok call ∧ run a files = .ok transcript ∧
      transcript.body = Report.body r.trace a.filter a.json call := by
  obtain ⟨r, call, hplay, hcall, -⟩ := (Scenario.playable_ofName a.scenario c).exists_play
  let s := Scenario.ofName a.scenario c
  have hrun : run a files = .ok {
      heading := Report.heading 1 s.callType s.parties.length s.config.linkDelay a.realtime
      body := Report.body r.trace a.filter a.json call
      pause := if a.realtime then s.ending else 0 } := by
    simp only [run, hc, hplay, hcall, bind, Except.bind, pure, Except.pure, s]
  exact ⟨1, r, call, _, hplay, hcall, hrun, rfl⟩

/-- With a configuration that can be used, every scenario is played to its end, and of what its
observers were told the latest events are kept for the reader, as many as the hub keeps, in the
order in which they were told. Those of them that are asked for are shown, with their number,
exactly if the hub has kept everything or nothing that it has kept is asked for; of a longer run
nothing is shown. To the end means to its last scene: where the configuration is such that the
clock of a scene would never arrive, `Session.advanceTo` leaves the call as it is, and the next
scene goes on from there. -/
theorem shows_retained_iff (hc : config a files = .ok c) :
    ∃ id r call transcript, (Scenario.ofName a.scenario c).play = .ok (id, r) ∧
      r.state.call? id = .ok call ∧ run a files = .ok transcript ∧
      Report.retained r.trace = r.trace.drop (r.trace.length - TraceHub.capacity) ∧
      transcript.body = Report.page
        (if r.trace.length ≤ TraceHub.capacity then r.trace.filter (Report.asked a.filter) else [])
        a.json call ∧
      (transcript.body = Report.page
          ((Report.retained r.trace).filter (Report.asked a.filter)) a.json call ↔
        r.trace.length ≤ TraceHub.capacity ∨
          ∀ e ∈ Report.retained r.trace, Report.asked a.filter e = false) := by
  obtain ⟨id, r, call, transcript, hplay, hcall, hrun, hbody⟩ := exists_run hc
  refine ⟨id, r, call, transcript, hplay, hcall, hrun, Report.retained_eq _, ?_, ?_⟩
  · rw [hbody, Report.body_eq]
  · rw [hbody, Report.body_eq_page_iff]

/-- Without options the hub keeps everything, and everything is shown. -/
theorem shows_retained_iff_plain :
    ∃ id r call transcript, (Scenario.preempt {}).play = .ok (id, r) ∧
      r.state.call? id = .ok call ∧
      run ⟨.preempt, none, none, none, false, false⟩ (fun _ => .error .missing) = .ok transcript ∧
      r.trace ≠ [] ∧ transcript.body = Report.page r.trace false call := by
  have hc : config ⟨.preempt, none, none, none, false, false⟩ (fun _ => .error .missing) =
      .ok {} := rfl
  obtain ⟨id, r, call, transcript, hplay, hcall, hrun, -, hbody, -⟩ := shows_retained_iff hc
  have hcheck : ((Scenario.preempt {}).play.toOption.all fun p =>
      decide (0 < p.2.log.length ∧ p.2.log.length ≤ TraceHub.capacity)) = true := by
    decide +kernel
  have hplay' : (Scenario.preempt {}).play = .ok (id, r) := hplay
  rw [hplay'] at hcheck
  obtain ⟨hsome, hshort⟩ := of_decide_eq_true hcheck
  refine ⟨id, r, call, transcript, hplay, hcall, hrun, ?_, ?_⟩
  · simpa [Observed.trace, List.length_pos_iff] using hsome
  · have hlength : r.trace.length ≤ TraceHub.capacity := by simpa [Observed.trace] using hshort
    rw [hbody, if_pos hlength, Report.filter_asked_none]

private theorem exists_ok_of_any {ε α : Type} {x : Except ε α} {check : α → Bool}
    (h : x.toOption.any check = true) : ∃ value, x = .ok value ∧ check value = true := by
  cases x with
  | error e => cases h
  | ok value => exact ⟨value, rfl, h⟩

def remindedArguments : Arguments := ⟨.preempt, some "reminders.json", none, none, false, false⟩

/-- A configuration by which a free floor is announced again every three milliseconds. -/
def remindersFile : String → Except FileFault String :=
  fun _ => .ok "\x7b\"arbitrator\":\x7b\"t7_ms\":3,\"c7_limit\":1000\x7d\x7d"

/-- Nothing is shown of a run with many reminders, although the hub has kept as much of it as it can
and all of that is asked for. -/
theorem reminded_run_shows_nothing :
    ∃ c id r call transcript, config remindedArguments remindersFile = .ok c ∧
      (Scenario.preempt c).play = .ok (id, r) ∧ r.state.call? id = .ok call ∧
      run remindedArguments remindersFile = .ok transcript ∧
      ((Report.retained r.trace).filter (Report.asked none)).length = TraceHub.capacity ∧
      transcript.body = Report.page [] false call ∧
      transcript.body ≠ Report.page
        ((Report.retained r.trace).filter (Report.asked none)) false call := by
  have hcheck : ((config remindedArguments remindersFile).toOption.any fun c =>
      (Scenario.preempt c).play.toOption.all fun p =>
        decide (TraceHub.capacity < p.2.log.length)) = true := by
    decide +kernel
  obtain ⟨c, hc, hcheck⟩ := exists_ok_of_any hcheck
  obtain ⟨id, r, call, transcript, hplay, hcall, hrun, hbody⟩ := exists_run hc
  have hplay : (Scenario.preempt c).play = .ok (id, r) := hplay
  rw [hplay] at hcheck
  have hlong : TraceHub.capacity < r.trace.length := by
    simpa [Observed.trace] using of_decide_eq_true hcheck
  have hkept : ((Report.retained r.trace).filter (Report.asked none)).length =
      TraceHub.capacity := by
    rw [Report.filter_asked_none, Report.retained_eq, List.length_drop]
    omega
  have hnothing : transcript.body = Report.page [] false call := by
    rw [hbody, Report.body_eq, if_neg (Nat.not_le_of_lt hlong)]
    rfl
  refine ⟨c, id, r, call, transcript, hc, hplay, hcall, hrun, hkept, hnothing, fun hpage => ?_⟩
  have hlength := congrArg List.length (hnothing.symm.trans hpage)
  rw [Report.length_page, Report.length_page, hkept, List.length_nil] at hlength
  simp [TraceHub.capacity] at hlength

end Simulator
end FloorControl
