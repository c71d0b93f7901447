import FloorControl.Proofs.CallTimers
import Mathlib.Algebra.GroupWithZero.Nat
import Mathlib.Algebra.Order.BigOperators.Group.List
import Mathlib.Algebra.Order.Group.Nat

/-!
# Advances come to an end

Moving the clock hands over events, and what is handed over may put new events into the scheduler
that are due at the same moment: with no time on the way, messages are answered at once. It comes to
an end all the same, as long as no timer runs out at the moment at which it is started. Tickets that
are due become fewer at every moment, and so do requests; every party that gives a place back has
one place less, and all other messages are answered by lighter ones.
-/

namespace FloorControl

/-- How much can come of a message, when nobody loses a place by it. A grant or a revocation may be
acknowledged and answered by a release, which is answered by the state of the floor, which may be
acknowledged. -/
def Message.burden : Message → Nat
  | .request _ => 6
  | .granted .. | .revoke .. => 5
  | .release _ | .queuePositionRequest _ => 3
  | .denied .. | .idle _ | .taken .. | .queuePositionInfo .. => 2
  | .ack .. => 1

def load (letters : List Envelope) : Nat := (letters.map (·.message.burden)).sum

@[simp] theorem load_nil : load [] = 0 := rfl

@[simp] theorem load_append (letters later : List Envelope) :
    load (letters ++ later) = load letters + load later := by
  simp [load]

@[simp] theorem load_singleton (e : Envelope) : load [e] = e.message.burden := by
  simp [load]

theorem burden_le_load {letters : List Envelope} {e : Envelope} (he : e ∈ letters) :
    e.message.burden ≤ load letters := by
  obtain ⟨before, after, rfl⟩ := List.append_of_mem he
  rw [← List.singleton_append, load_append, load_append, load_singleton]
  omega

/-- No timer of the calls of a configuration runs out at the moment at which it is started. -/
structure SessionConfig.Patient (config : SessionConfig) : Prop where
  t1 : config.arbitrator.t1 ≠ 0
  t2 : config.arbitrator.t2 ≠ 0
  t3 : config.arbitrator.t3 ≠ 0
  t4 : config.arbitrator.t4 ≠ 0
  t7 : config.arbitrator.t7 ≠ 0
  t20 : config.arbitrator.t20 ≠ 0
  t100 : config.participant.t100 ≠ 0
  t101 : config.participant.t101 ≠ 0
  t104 : config.participant.t104 ≠ 0
  t132 : config.participant.t132 ≠ 0

private theorem toNat_pos {x : UInt64} (h : x ≠ 0) : 0 < x.toNat :=
  Nat.pos_of_ne_zero fun hzero => h (UInt64.toNat_inj.mp hzero)

theorem SessionConfig.Patient.delay_pos {config : SessionConfig} (h : config.Patient)
    {o : Endpoint} {make : Endpoint × TimerId × Nat} (hmake : make ∈ config.makes o) :
    0 < make.2.2 := by
  cases o with
  | arbitrator =>
    simp only [makes, Arbitrator.makes, List.map_cons, List.map_nil, List.mem_cons,
      List.not_mem_nil, or_false] at hmake
    rcases hmake with rfl | rfl | rfl | rfl | rfl | rfl
    exacts [toNat_pos h.t1, toNat_pos h.t2, toNat_pos h.t3, toNat_pos h.t4, toNat_pos h.t7,
      toNat_pos h.t20]
  | participant ssrc =>
    simp only [makes, Participant.makes, List.map_cons, List.map_nil, List.mem_cons,
      List.not_mem_nil, or_false] at hmake
    rcases hmake with rfl | rfl | rfl | rfl
    exacts [toNat_pos h.t100, toNat_pos h.t101, toNat_pos h.t104, toNat_pos h.t132]

namespace Participant

variable {t : Turn Participant}

private theorem load_acknowledge (message : Message) (t : Turn Participant) :
    load (acknowledge message t).out.messages ≤
      load t.out.messages + message.requiresAck.toNat := by
  simp only [acknowledge]
  split
  · next hasks =>
    rw [messages_send, load_append, load_singleton, hasks]
    exact Nat.le_refl _
  · exact Nat.le_add_right _ _

private def returned : Message → Nat
  | .granted .. | .revoke .. => 3
  | .request .. | .release .. | .queuePositionRequest .. | .denied .. | .idle .. | .taken ..
  | .queuePositionInfo .. | .ack .. => 0

private theorem returned_lt (message : Message) :
    message.requiresAck.toNat + returned message < message.burden := by
  have hasks := message.requiresAck.toNat_le
  cases message with
  | granted | revoke | denied | idle | taken =>
    simp only [returned, Message.burden]
    omega
  | request | release | queuePositionRequest | queuePositionInfo | ack =>
    simp [returned, Message.requiresAck, Message.burden]

private theorem load_receivePendingRequest (message : Message) (t : Turn Participant) :
    load (receivePendingRequest message t).out.messages ≤
      load t.out.messages + returned message := by
  cases message <;> simp [receivePendingRequest]

private theorem load_receiveQueued (message : Message) (t : Turn Participant) :
    load (receiveQueued message t).out.messages ≤ load t.out.messages + returned message := by
  cases message with
  | granted =>
    simp only [receiveQueued]
    split <;> simp
  | revoke =>
    simp only [receiveQueued]
    split
    · simp [returned, Message.burden]
    · exact Nat.le_add_right _ _
  | _ => simp [receiveQueued]

private theorem load_receiveHasPermission (message : Message) (t : Turn Participant) :
    load (receiveHasPermission message t).out.messages ≤
      load t.out.messages + returned message := by
  cases message with
  | revoke => simp [receiveHasPermission, returned, Message.burden]
  | taken =>
    simp only [receiveHasPermission]
    split
    · simp
    · split <;> simp
  | _ => simp [receiveHasPermission]

private theorem load_receivePendingRelease (message : Message) (t : Turn Participant) :
    load (receivePendingRelease message t).out.messages ≤
      load t.out.messages + returned message := by
  cases message <;> simp [receivePendingRelease]

private theorem load_receiveIdle (message : Message) (t : Turn Participant) :
    load (receiveIdle message t).out.messages ≤ load t.out.messages + returned message := by
  cases message with
  | granted =>
    simp only [receiveIdle]
    split
    · simp [returned, Message.burden]
    · exact Nat.le_add_right _ _
  | _ => simp [receiveIdle]

/-- What is sent in answer to a message weighs less than the message. -/
theorem load_receive_lt (message : Message) (hout : t.out.messages = []) :
    load (receive message t).out.messages < message.burden := by
  have hacked := load_acknowledge message t
  rw [hout, load_nil, Nat.zero_add] at hacked
  have hlighter := returned_lt message
  simp only [receive]
  split
  · rw [hout, load_nil]
    omega
  · have := load_receivePendingRequest message (acknowledge message t)
    omega
  · have := load_receiveQueued message (acknowledge message t)
    omega
  · have := load_receiveHasPermission message (acknowledge message t)
    omega
  · have := load_receivePendingRelease message (acknowledge message t)
    omega
  · have := load_receiveIdle message (acknowledge message t)
    omega

end Participant

namespace Arbitrator

variable {t : Turn Arbitrator}

private theorem load_sendTo_le (ssrc : Ssrc) (message : Message) (hout : t.out.messages = []) :
    load (sendTo ssrc message t).out.messages ≤ message.burden := by
  rw [messages_sendTo, hout, List.nil_append, lettersTo]
  split
  · rw [load_singleton]
    exact Nat.le_refl _
  · exact Nat.zero_le _

/-- A party without a place that gives the floor back is only told how the floor stands. -/
private theorem load_receiveRelease_le {ssrc : Ssrc} (hstranger : ssrc ∉ t.machine.places.placed)
    (hout : t.out.messages = []) : load (receiveRelease ssrc t).out.messages ≤ 2 := by
  have htalks := not_talks_of_not_placed hstranger
  simp only [receiveRelease, htalks.1, htalks.2, Bool.false_eq_true, if_false]
  have hquiet : load t.out.messages ≤ 2 := by simp [hout]
  split
  · split
    · exact load_sendTo_le ssrc _ hout
    · exact hquiet
  · rw [messages_refreshT4, sendTaken]
    split
    · exact load_sendTo_le ssrc _ hout
    · exact hquiet

/-- A party that gives its place back has one place less. -/
private theorem lightens_release (ssrc : Ssrc) (hsound : t.machine.places.Sound)
    (hout : t.out.messages = []) :
    (receiveRelease ssrc t).machine.places.placed.length < t.machine.places.placed.length ∨
      (receiveRelease ssrc t).machine.places.placed.length ≤ t.machine.places.placed.length ∧
        load (receiveRelease ssrc t).out.messages ≤ 2 := by
  obtain ⟨hleads, hgone⟩ := leads_receiveRelease (fun _ => False) ssrc hsound hout
  by_cases hstranger : ssrc ∈ t.machine.places.placed
  · left
    have hpromised : t.machine.places.implicitRequest = none :=
      hsound.implicit_eq_none fun hstate => by
        rw [hsound.placed_eq_nil (by rw [hstate]; rfl)] at hstranger
        cases hstranger
    have hless : (receiveRelease ssrc t).machine.places.placed ⊆
        t.machine.places.placed.erase ssrc := by
      intro other hother
      have hne : other ≠ ssrc := by
        rintro rfl
        exact hgone hother
      refine (List.mem_erase_of_ne hne).mpr ?_
      exact (hleads.placed other hother).resolve_right (by simp [hpromised])
    have hle := (hleads.sound.distinct.subperm hless).length_le
    rw [List.length_erase_of_mem hstranger] at hle
    have hpos := List.length_pos_of_mem hstranger
    omega
  · right
    refine ⟨?_, load_receiveRelease_le hstranger hout⟩
    cases hoccupied : t.machine.places.state.occupied with
    | true =>
      have hpromised : t.machine.places.implicitRequest = none :=
        hsound.implicit_eq_none fun hstate => by
          simp [hstate, ArbitratorState.occupied] at hoccupied
      refine (hleads.sound.distinct.subperm fun other hother => ?_).length_le
      exact (hleads.placed other hother).resolve_right (by simp [hpromised])
    | false =>
      have hvacant : t.machine.occupied = false := hoccupied
      simp only [receiveRelease, hvacant, Bool.not_false, if_true]
      split
      · rw [machine_sendTo]
      · exact Nat.le_refl _

/-- A message that is no request takes a place from its sender, or is answered by lighter
messages. -/
theorem lightens_receive {message : Message} (hsound : t.machine.places.Sound)
    (hout : t.out.messages = []) (hmessage : ∀ wish, message ≠ .request wish) :
    (receive message t).machine.places.placed.length < t.machine.places.placed.length ∨
      (receive message t).machine.places.placed.length ≤ t.machine.places.placed.length ∧
        load (receive message t).out.messages < message.burden := by
  cases message with
  | request wish => exact absurd rfl (hmessage wish)
  | release ssrc =>
    refine (lightens_release ssrc hsound hout).imp_right fun ⟨hplaced, hload⟩ => ⟨hplaced, ?_⟩
    exact Nat.lt_of_le_of_lt hload (by simp [Message.burden])
  | queuePositionRequest ssrc =>
    refine .inr ?_
    simp only [receive, receiveQueuePositionRequest]
    have hquiet : load t.out.messages < 3 := by simp [hout]
    split
    · rw [machine_sendPosition]
      exact ⟨Nat.le_refl _, Nat.lt_of_le_of_lt (load_sendTo_le _ _ hout) (by simp [Message.burden])⟩
    · split
      · rw [machine_sendPreemptorPosition]
        exact ⟨Nat.le_refl _,
          Nat.lt_of_le_of_lt (load_sendTo_le _ _ hout) (by simp [Message.burden])⟩
      · exact ⟨Nat.le_refl _, hquiet⟩
  | ack ssrc acked =>
    refine .inr ⟨?_, ?_⟩
    · simp only [receive, Turn.machine_update, places_receiveAck]
      exact Nat.le_refl _
    · simp [receive, hout, Message.burden]
  | granted | denied | idle | taken | revoke | queuePositionInfo =>
    exact .inr ⟨Nat.le_refl _, by simp [receive, hout, Message.burden]⟩

end Arbitrator

namespace SessionEvent

/-- How much can come of what waits. Tickets are counted apart. -/
def burden : SessionEvent → Nat
  | .expiry _ => 0
  | .toArbitrator message | .toParticipant _ message => message.burden

def isRequest : SessionEvent → Bool
  | .toArbitrator (.request _) => true
  | _ => false

theorem burden_pos {event : SessionEvent} (h : event.isLetter = true) : 0 < event.burden := by
  cases event with
  | expiry => cases h
  | toArbitrator message | toParticipant _ message =>
    cases message <;> simp [burden, Message.burden]

theorem burden_arrival (e : Envelope) : e.arrival.burden = e.message.burden := by
  simp only [Envelope.arrival]
  split <;> rfl

end SessionEvent

namespace Session

variable {m m' : Machines} {outs : List Outbox} {event : SessionEvent}

private theorem not_isRequest_of_load {letters : List Envelope} (h : load letters < 6) :
    ∀ e ∈ letters, e.arrival.isRequest = false := by
  intro e he
  have hle := burden_le_load he
  simp only [Envelope.arrival]
  split
  · cases hmessage : e.message with
    | request wish =>
      rw [hmessage] at hle
      simp only [Message.burden] at hle
      omega
    | _ => rfl
  · rfl

private theorem not_isRequest_of_leads {before after : Arbitrator.Places} {asked : Ssrc → Prop}
    {letters : List Envelope} (h : before.Leads asked letters after) :
    ∀ e ∈ letters, e.arrival.isRequest = false := by
  intro e he
  obtain ⟨ssrc, message, harrival, -⟩ := Scene.mem_arbitrator_letters h.faithful
    (List.mem_map_of_mem (f := Envelope.arrival) he)
  rw [harrival]
  rfl

/-- A message that is handed over leaves no new request. If it is no request itself, it takes a
place from somebody or leaves lighter messages. -/
theorem Delivers.lightens (h : Delivers m event outs m') (hletter : event.isLetter = true)
    (hsound : m.arbitrator.places.Sound) :
    (∀ e ∈ outs.flatMap (·.messages), e.arrival.isRequest = false) ∧
    (event.isRequest = true ∨
      m'.arbitrator.places.placed.length < m.arbitrator.places.placed.length ∨
      m'.arbitrator.places.placed.length ≤ m.arbitrator.places.placed.length ∧
        load (outs.flatMap (·.messages)) < event.burden) := by
  cases h with
  | arbitratorTicket | participantTicket => cases hletter
  | arbitratorLetter message =>
    rw [List.flatMap_singleton]
    refine ⟨not_isRequest_of_leads (Arbitrator.leads_receive message (t := ⟨m.arbitrator, {}⟩)
      hsound rfl), ?_⟩
    by_cases hrequest : ∃ wish, message = .request wish
    · obtain ⟨wish, rfl⟩ := hrequest
      exact .inl rfl
    · refine .inr ?_
      exact Arbitrator.lightens_receive (t := ⟨m.arbitrator, {}⟩) hsound rfl
        fun wish heq => hrequest ⟨wish, heq⟩
  | @participantLetter ssrc p message hget =>
    rw [List.flatMap_singleton]
    have hload := Participant.load_receive_lt message (t := ⟨p, {}⟩) rfl
    refine ⟨not_isRequest_of_load (Nat.lt_of_lt_of_le hload ?_), .inr (.inr ⟨Nat.le_refl _, hload⟩)⟩
    cases message <;> simp [Message.burden]
  | dropped => exact ⟨by simp, .inr (.inr ⟨Nat.le_refl _, SessionEvent.burden_pos hletter⟩)⟩

def due (s : Session) : List SessionEvent :=
  (s.scheduler.pending.filter (·.due ≤ s.now)).map (·.event)

variable {config : SessionConfig} {h : History} {s : Session} {r : Run} {t : Nat}

/-- No ticket is due at once. -/
theorem isLetter_of_due {delay now : Nat} {wish : Nat × SessionEvent}
    (hpatient : config.Patient) (hrightful : Rightful config outs) (hclock : now < Time.last)
    (hwish : wish ∈ outs.flatMap (wishes delay)) (hdue : Time.after now wish.1 ≤ now) :
    wish.2.isLetter = true := by
  obtain ⟨out, hout, hwish⟩ := List.mem_flatMap.mp hwish
  rcases List.mem_append.mp hwish with hwish | hwish
  · obtain ⟨armed, harmed, rfl⟩ := List.mem_map.mp hwish
    have hpos : 0 < armed.delay :=
      hpatient.delay_pos (hrightful armed (List.mem_flatMap.mpr ⟨out, hout, harmed⟩))
    simp only [Time.after] at hdue
    omega
  · obtain ⟨e, -, rfl⟩ := List.mem_map.mp hwish
    exact e.isLetter_arrival

/-- Of what a step puts into the scheduler, only messages can be due at once. -/
private theorem due_progressed (hpatient : config.Patient) (hrightful : Rightful config outs)
    (hclock : s.now < Time.last) :
    ∃ new, new.Sublist ((outs.flatMap (·.messages)).map (·.arrival)) ∧
      (s.progressed m outs).due.Perm (s.due ++ new) := by
  let wished := outs.flatMap (wishes s.config.linkDelay.toNat)
  have hentries := congrArg (List.map Prod.snd)
    (Scheduler.filter_entries (fun due _ => due ≤ s.now) wished s.scheduler)
  rw [List.map_map, List.map_map] at hentries
  refine ⟨(wished.filter (Time.after s.now ·.1 ≤ s.now)).map (·.2), ?_, ?_⟩
  · have hletters : wished.filter (Time.after s.now ·.1 ≤ s.now) =
        (wished.filter (·.2.isLetter)).filter (Time.after s.now ·.1 ≤ s.now) := by
      rw [List.filter_filter]
      refine List.filter_congr fun wish hwish => ?_
      rw [Bool.eq_iff_iff, Bool.and_eq_true, decide_eq_true_eq]
      exact ⟨fun hdue => ⟨hdue, isLetter_of_due hpatient hrightful hclock hwish hdue⟩, (·.1)⟩
    rw [hletters, filter_wishes]
    refine (List.filter_sublist.map _).trans ?_
    rw [List.map_map]
    exact List.Sublist.refl _
  · have hwaits := ((Scheduler.pending_scheduleEach wished s.scheduler).filter
      (·.due ≤ s.now)).map (·.event)
    rw [List.filter_append, List.map_append] at hwaits
    rw [due, now_progressed]
    exact hwaits.trans (.of_eq (congrArg (s.due ++ ·) hentries))

/-- What becomes less with every event that is handed over in an advance to `t`, from the most
important to the least: the time that is left, the tickets that are due, the requests that are due,
the places that are taken, and what can come of the messages that are due. -/
def weight (t : Nat) (s : Session) : Nat × Nat × Nat × Nat × Nat :=
  (t - s.now, s.due.countP (! ·.isLetter), s.due.countP (·.isRequest),
    s.arbitrator.places.placed.length, (s.due.map (·.burden)).sum)

def Lighter : Nat × Nat × Nat × Nat × Nat → Nat × Nat × Nat × Nat × Nat → Prop :=
  Prod.Lex (· < ·) (Prod.Lex (· < ·) (Prod.Lex (· < ·) (Prod.Lex (· < ·) (· < ·))))

theorem wellFounded_lighter : WellFounded Lighter :=
  (Prod.lex Nat.lt_wfRel (Prod.lex Nat.lt_wfRel (Prod.lex Nat.lt_wfRel
    (Prod.lex Nat.lt_wfRel Nat.lt_wfRel)))).wf

/-- What becomes of the numbers in a weight when something due now is handed over: a ticket leaves
one ticket less, and a message leaves none more. -/
private theorem lighter_due {x : SessionEvent} {rest new after : List SessionEvent}
    {letters : List Envelope} {left placed placed' : Nat} (hperm : after.Perm (rest ++ new))
    (hnew : new.Sublist (letters.map (·.arrival)))
    (hletter : x.isLetter = true → (∀ e ∈ letters, e.arrival.isRequest = false) ∧
      (x.isRequest = true ∨ placed' < placed ∨ placed' ≤ placed ∧ load letters < x.burden)) :
    Lighter
      (left, after.countP (! ·.isLetter), after.countP (·.isRequest), placed',
        (after.map (·.burden)).sum)
      (left, (x :: rest).countP (! ·.isLetter), (x :: rest).countP (·.isRequest), placed,
        ((x :: rest).map (·.burden)).sum) := by
  have harrived : ∀ event ∈ new, ∃ e ∈ letters, e.arrival = event := fun event hevent =>
    List.mem_map.mp (hnew.subset hevent)
  have htickets : new.countP (! ·.isLetter) = 0 := by
    rw [List.countP_eq_zero]
    intro event hevent
    obtain ⟨e, -, rfl⟩ := harrived event hevent
    simp [e.isLetter_arrival]
  rw [hperm.countP_eq, hperm.countP_eq, (hperm.map _).sum_nat, List.countP_append,
    List.countP_append, List.map_append, List.sum_append, htickets]
  cases hkind : x.isLetter with
  | false =>
    refine .right _ (.left _ _ ?_)
    simp [hkind]
  | true =>
    obtain ⟨hasked, hlightens⟩ := hletter hkind
    have hrequests : new.countP (·.isRequest) = 0 := by
      rw [List.countP_eq_zero]
      intro event hevent
      obtain ⟨e, he, rfl⟩ := harrived event hevent
      simp [hasked e he]
    have hload : (new.map (·.burden)).sum ≤ load letters := by
      refine Nat.le_trans ((hnew.map _).sum_le_sum fun _ _ => Nat.zero_le _) (Nat.le_of_eq ?_)
      rw [List.map_map, load]
      exact congrArg List.sum (List.map_congr_left fun e _ => SessionEvent.burden_arrival e)
    simp only [Lighter, Prod.lex_def, List.countP_cons, List.map_cons, List.sum_cons, hkind,
      hrequests, Bool.not_true, Bool.false_eq_true, if_false, Nat.lt_irrefl, true_and, false_or]
    rcases hlightens with hrequest | hplaced | ⟨hplaced, hlight⟩
    · rw [if_pos hrequest]
      omega
    · split <;> omega
    · split <;> omega

/-- The weight of what is due becomes less with every event that is handed over, as long as the
time is in range. -/
private theorem Stage.lighter_delivered {scheduler : Scheduler SessionEvent}
    (hs : Stage config h s) (hpatient : config.Patient) (hlimit : t < Time.last)
    (hpop : s.scheduler.popDue t = some (event, scheduler))
    (hdelivers : Delivers s.machines event outs m) :
    Lighter (weight t (progressed { s with scheduler := scheduler } m outs)) (weight t s) := by
  obtain ⟨x, rest, hpending, hdue, rfl, rfl⟩ := Scheduler.popDue_eq_some hpop
  have hahead := hs.timely.ahead x (by rw [hpending]; exact List.mem_cons_self)
  have hclock : s.now ≤ x.due := by
    simp only [now]
    omega
  let popped : Session :=
    { s with scheduler := { s.scheduler with now := max s.scheduler.now x.due, pending := rest } }
  have hpopped : popped.now = x.due := Nat.max_eq_right hclock
  have hnow : (popped.progressed m outs).now = x.due := now_progressed.trans hpopped
  rw [weight, weight, hnow]
  rcases Nat.lt_or_eq_of_le hclock with hlater | hsame
  · exact .left _ _ (by omega)
  have hfirst : s.due = x.event :: popped.due := by
    rw [due, due, hpopped, ← hsame, hpending, List.filter_cons, if_pos (by simp [hsame])]
    rfl
  obtain ⟨new, hnew, hperm⟩ := due_progressed (m := m) (s := popped) hpatient
    (winds_delivers hs.made hdelivers).2 (by omega)
  rw [hfirst, hsame]
  exact lighter_due hperm hnew fun hletter => hdelivers.lightens hletter hs.sound

/-- Every event that is handed over makes what is left to do lighter. -/
theorem Stage.advances (hpatient : config.Patient) (hlimit : t < Time.last)
    (hs : Stage config h r.state) :
    ∃ last, Advances t r last ∧ ∀ x ∈ last.state.scheduler.pending, t < x.due := by
  induction hweight : weight t r.state using wellFounded_lighter.induction generalizing h r with
  | h w ih =>
    subst hweight
    cases hpop : r.state.scheduler.popDue t with
    | none =>
      have hdone := Scheduler.lt_due_of_popDue_eq_none hs.timely.inOrder hpop
      exact ⟨settle t r, .settled (by simp [deliverNext?, hpop]), hdone⟩
    | some next =>
      obtain ⟨event, scheduler⟩ := next
      let popped : Run := { r with state := { r.state with scheduler := scheduler } }
      obtain ⟨⟨m, hdelivers, hstate⟩, -⟩ := delivers_deliver event popped
      have hless := hs.lighter_delivered hpatient hlimit hpop hdelivers
      obtain ⟨last, hlast, hdone⟩ :=
        ih _ (hstate ▸ hless) (hstate ▸ hs.delivered hpop hdelivers) rfl
      exact ⟨last, .delivered (by simp [deliverNext?, hpop, popped]) hlast, hdone⟩

/-- If no timer runs out at the moment at which it is started, every advance of every call comes to
an end, however long messages are on their way, and leaves nothing due. -/
theorem exists_advance?_of_patient {phase : Phase} (hr : Reached config phase h r)
    (hpatient : config.Patient) (hlimit : t < Time.last) :
    ∃ steps last, advance? steps t r = some last ∧
      ∀ x ∈ last.state.scheduler.pending, t < x.due := by
  obtain ⟨last, hadvances, hdone⟩ := hr.stage.advances hpatient hlimit
  obtain ⟨steps, hsteps⟩ := hadvances.exists_advance?
  exact ⟨steps, last, hsteps, hdone⟩

/-- The floor has been handed over to a party whose time to talk has begun. A minute later it is
over, and the floor was taken from it. -/
theorem exists_advance?_of_patient_handover :
    ∃ h r, play? handover ⟨Session.create 1 .basic {} 0, []⟩ = some r ∧
      Reached {} .resting h r ∧ SessionConfig.Patient {} ∧ 60000 < Time.last ∧
      ∃ steps last, advance? steps 60000 r = some last ∧
        ∀ x ∈ last.state.scheduler.pending, 60000 < x.due := by
  have hpatient : SessionConfig.Patient {} := by constructor <;> decide
  have hlimit : 60000 < Time.last := by decide
  obtain ⟨r, hr⟩ : ∃ r, play? handover ⟨Session.create 1 .basic {} 0, []⟩ = some r :=
    Option.isSome_iff_exists.mp (by decide +kernel)
  obtain ⟨h, hreached, -⟩ := (Reached.created 1 .basic 0).play? hr
  exact ⟨h, r, hr, hreached, hpatient, hlimit,
    exists_advance?_of_patient hreached hpatient hlimit⟩

end Session
end FloorControl
