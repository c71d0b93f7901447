import FloorControl.Proofs.Attendance
import FloorControl.Proofs.Delivery
import FloorControl.Proofs.Requests
import FloorControl.Proofs.Termination
import FloorControl.Proofs.Words

/-!
# The dialogue after the opening

When the floor is opened for a party that was promised it, everybody is told that the floor is idle,
and then the party is granted it. What the party and the arbitrator say to each other from there on
is laid down step by step. A party that waits for the answer to a request of its own does not mind
the announcement and takes the grant. Any other party is idle after the announcement, wherever it
was before, and gives back a grant that it has not asked for.
-/

namespace FloorControl

def SessionEvent.heard? (x : Ssrc) : SessionEvent → Option Message
  | .toParticipant receiver message => if receiver = x then some message else none
  | .expiry _ | .toArbitrator _ => none

/-- The message that an event brings to the arbitrator, unless it only acknowledges another. -/
def SessionEvent.plea? : SessionEvent → Option Message
  | .toArbitrator message => if message.kind = .ack then none else some message
  | .expiry _ | .toParticipant .. => none

def heard (x : Ssrc) (mail : List SessionEvent) : List Message := mail.filterMap (·.heard? x)

def pleas (mail : List SessionEvent) : List Message := mail.filterMap (·.plea?)

section Mail

variable {x : Ssrc} {mail later : List SessionEvent} {messages : List Envelope}

@[simp] theorem heard_append : heard x (mail ++ later) = heard x mail ++ heard x later :=
  List.filterMap_append

@[simp] theorem pleas_append : pleas (mail ++ later) = pleas mail ++ pleas later :=
  List.filterMap_append

theorem heard_cons_self {message : Message} :
    heard x (.toParticipant x message :: later) = message :: heard x later := by
  simp [heard, SessionEvent.heard?]

theorem heard_cons_of_ne {y : Ssrc} {message : Message} (hne : y ≠ x) :
    heard x (.toParticipant y message :: later) = heard x later := by
  simp [heard, SessionEvent.heard?, hne]

theorem heard?_arrival (e : Envelope) :
    e.arrival.heard? x = if e.receiver = .participant x then some e.message else none := by
  simp only [Envelope.arrival]
  split
  · next hreceiver => simp [SessionEvent.heard?, hreceiver]
  · next hreceiver => simp [SessionEvent.heard?, hreceiver]

/-- What a party will hear of letters is what they bring it. -/
theorem heard_letters (messages : List Envelope) :
    heard x (messages.map (·.arrival)) = Arbitrator.mailFor x messages := by
  simp only [heard, List.filterMap_map, Function.comp_def, heard?_arrival, Arbitrator.mailFor]
  induction messages with
  | nil => rfl
  | cons e rest ih => by_cases h : e.receiver = .participant x <;> simp [h, ih]

/-- What the arbitrator sends is for the parties. -/
theorem pleas_of_letterTo (h : ∀ e ∈ messages, ∃ y m, e = Arbitrator.letterTo y m) :
    pleas (messages.map (·.arrival)) = [] := by
  rw [pleas, List.filterMap_eq_nil_iff, List.forall_mem_map]
  intro e he
  obtain ⟨y, m, rfl⟩ := h e he
  rfl

end Mail

namespace Participant

variable {p : Participant} {t : Turn Participant} {message : Message} {ack : Bool}

def pleads (t : Turn Participant) : List Message := pleas (t.out.messages.map (·.arrival))

@[simp] theorem pleads_nil (p : Participant) : pleads ⟨p, {}⟩ = [] := rfl

@[simp] theorem pleads_update (f : Participant → Participant) :
    pleads (t.update f) = pleads t := rfl

@[simp] theorem pleads_moveTo (next : ParticipantState) : pleads (moveTo next t) = pleads t := by
  rw [pleads, messages_moveTo, pleads]

@[simp] theorem pleads_takeFloor : pleads (takeFloor t) = pleads t := by
  rw [pleads, messages_takeFloor, pleads]

@[simp] theorem pleads_loseFloor (talker : Option Ssrc) :
    pleads (loseFloor talker t) = pleads t := by
  rw [pleads, messages_loseFloor, pleads]

@[simp] theorem pleads_startRelease :
    pleads (startRelease t) = pleads t ++ [.release t.machine.ssrc] := by
  rw [pleads, messages_startRelease, List.map_append, pleas_append, pleads]
  rfl

@[simp] theorem pleads_acknowledge (message : Message) :
    pleads (acknowledge message t) = pleads t := by
  simp only [acknowledge]
  split
  · rw [pleads, messages_send, List.map_append, pleas_append, pleads]
    exact List.append_nil _
  · rfl

/-- Word of the floor is acknowledged at most. -/
theorem pleads_receive_of_isWord (hword : message.isWord = true) :
    pleads (receive message ⟨p, {}⟩) = [] := by
  cases message with
  | idle =>
    cases hstate : p.state
    all_goals simp [receive, hstate, receivePendingRequest, receiveQueued, receiveHasPermission,
      receivePendingRelease, receiveIdle]
  | taken ssrc dual =>
    cases hstate : p.state with
    | hasPermission =>
      simp only [receive, hstate, receiveHasPermission]
      split
      · simp
      · split
        all_goals simp
    | _ =>
      simp [receive, hstate, receivePendingRequest, receiveQueued, receivePendingRelease,
        receiveIdle]
  | _ => cases hword

/-- That the floor is idle matters to everybody but a party that waits for an answer. -/
theorem state_receive_idle (hset : p.state ≠ .startStop) :
    (receive (.idle ack) ⟨p, {}⟩).machine.state =
      if p.state = .pendingRequest then .pendingRequest else .idle := by
  cases hstate : p.state with
  | startStop => exact absurd hstate hset
  | pendingRequest => simp [receive, hstate, receivePendingRequest]
  | queued => simp [receive, hstate, receiveQueued]
  | hasPermission => simp [receive, hstate, receiveHasPermission]
  | pendingRelease => simp [receive, hstate, receivePendingRelease]
  | idle => simp [receive, hstate, receiveIdle]

/-- The grant is the answer to a request. -/
theorem receive_granted_of_pendingRequest {named : Ssrc} {priority : Priority} {duration : UInt64}
    {dual : Bool} (hstate : p.state = .pendingRequest) :
    (receive (.granted named priority duration dual ack) ⟨p, {}⟩).machine.state = .hasPermission ∧
      pleads (receive (.granted named priority duration dual ack) ⟨p, {}⟩) = [] := by
  simp [receive, hstate, receivePendingRequest]

/-- A grant that was not asked for is given back. -/
theorem receive_granted_of_idle {priority : Priority} {duration : UInt64} {dual : Bool}
    (hstate : p.state = .idle) :
    (receive (.granted p.ssrc priority duration dual ack) ⟨p, {}⟩).machine.state =
        .pendingRelease ∧
      pleads (receive (.granted p.ssrc priority duration dual ack) ⟨p, {}⟩) =
        [.release p.ssrc] := by
  simp [receive, hstate, receiveIdle]

end Participant

namespace Arbitrator

variable {x : Ssrc} {t : Turn Arbitrator} {p : Places}

/-- Whoever is not excepted is sent the message once. -/
theorem mailFor_lettersExcept_of_ne {roster : Roster Proxy} {except : Option Ssrc}
    {message : Message} (hknown : roster.contains x = true) (hne : some x ≠ except) :
    mailFor x (lettersExcept roster except message) = [message] := by
  have hdistinct : roster.ssrcs.Nodup := roster.ascending.imp UInt32.ne_of_lt
  have hmem : x ∈ roster.ssrcs := (roster.contains_iff_mem x).mp hknown
  have hreceivers : roster.ssrcs.filter (fun y => y = x) = [x] := by
    rw [List.filter_eq, List.count_eq_one_of_mem hdistinct hmem, List.replicate_one]
  have hkept : (roster.ssrcs.filter fun y => some y ≠ except).filter (fun y => y = x) = [x] := by
    rw [List.filter_filter, ← hreceivers]
    refine List.filter_congr fun y _ => ?_
    by_cases heq : y = x
    · subst heq
      simpa using hne
    · simp [heq]
  simp only [mailFor, lettersExcept, List.filter_map, Function.comp_def, letterTo,
    Endpoint.participant.injEq, hkept, List.map_cons, List.map_nil]

structure Places.Alone (p : Places) (x : Ssrc) : Prop where
  state : p.state = .taken
  holder : ∃ who, p.holder = some who ∧ who.ssrc = x
  second : p.second = none
  preemptor : p.preemptor = none
  queue : p.queue.entries = []

/-- When the only one that has a place gives the floor back, everybody is told that it is idle. -/
theorem receive_release_of_alone (halone : t.machine.places.Alone x)
    (horderly : t.machine.places.Orderly) (hout : t.out.messages = []) :
    (receive (.release x) t).out.messages = lettersExcept t.machine.places.roster none
        (.idle t.machine.places.config.ackRequired) ∧
      (receive (.release x) t).machine.places =
        { t.machine.places with holder := none, state := .idle } := by
  obtain ⟨who, hholder, rfl⟩ := halone.holder
  have hoccupied : t.machine.occupied = true := congrArg ArbitratorState.occupied halone.state
  have hholds : t.machine.isHolder who.ssrc = true := by
    have hholder : t.machine.holder = some who := hholder
    simp [isHolder, hholder]
  have heq : receive (.release who.ssrc) t = endHolder t := by
    simp [receive, receiveRelease, hoccupied, hholds]
  rw [heq]
  have hsuccession := succession_endHolder horderly hholder hout
  generalize (endHolder t).out.messages = messages at hsuccession ⊢
  generalize (endHolder t).machine.places = q at hsuccession ⊢
  cases hsuccession with
  | second hsecond => cases halone.second.symm.trans hsecond
  | preemptor _ hpreemptor => cases halone.preemptor.symm.trans hpreemptor
  | first _ _ hentries => cases halone.queue.symm.trans hentries
  | nobody => exact ⟨rfl, rfl⟩

end Arbitrator

open Arbitrator (Places)

def waitingFor (asked : Bool) : ParticipantState := if asked then .pendingRequest else .idle

/-- How far a party and the arbitrator have come with what they say to each other after the floor
was opened for the party: who has which place, what state the party is in, what it will hear, and
what the arbitrator will hear. The flag tells whether the party has asked for the floor. -/
inductive Dialogue (x : Ssrc) : (asked : Bool) → Places → ParticipantState → List Message →
    List Message → Prop
  | announced {asked : Bool} {p : Places} {state : ParticipantState} {priority : Priority}
      {duration : UInt64} {ack ack' : Bool} : p.Alone x → state ≠ .startStop →
      (state = .pendingRequest ↔ asked = true) →
      Dialogue x asked p state [.idle ack, .granted x priority duration false ack'] []
  | offered {asked : Bool} {p : Places} {priority : Priority} {duration : UInt64} {ack : Bool} :
      p.Alone x →
      Dialogue x asked p (waitingFor asked) [.granted x priority duration false ack] []
  | taken {p : Places} : p.Alone x → Dialogue x true p .hasPermission [] []
  | returned {p : Places} : p.Alone x → Dialogue x false p .pendingRelease [] [.release x]
  | confirmed {p : Places} {ack : Bool} : p.state = .idle → p.holder = none →
      Dialogue x false p .pendingRelease [.idle ack] []
  | finished {p : Places} : p.state = .idle → p.holder = none → Dialogue x false p .idle [] []

/-- The party hears what comes next. -/
theorem Dialogue.receive {x : Ssrc} {asked : Bool} {places : Places} {p : Participant}
    {message : Message} {later sent : List Message} (hssrc : p.ssrc = x)
    (h : Dialogue x asked places p.state (message :: later) sent) :
    Dialogue x asked places (Participant.receive message ⟨p, {}⟩).machine.state later
      (sent ++ Participant.pleads (Participant.receive message ⟨p, {}⟩)) := by
  subst hssrc
  generalize hbefore : p.state = before at h
  cases h with
  | announced halone hset hasked =>
    have hnext : (if p.state = .pendingRequest then ParticipantState.pendingRequest else .idle) =
        waitingFor asked := by
      rw [waitingFor, hbefore]
      exact if_congr hasked rfl rfl
    rw [Participant.pleads_receive_of_isWord rfl, Participant.state_receive_idle (hbefore ▸ hset),
      hnext]
    exact .offered halone
  | offered halone =>
    cases asked with
    | true =>
      obtain ⟨hstate, hquiet⟩ := Participant.receive_granted_of_pendingRequest hbefore
      rw [hstate, hquiet]
      exact .taken halone
    | false =>
      obtain ⟨hstate, hreturns⟩ := Participant.receive_granted_of_idle hbefore
      rw [hstate, hreturns]
      exact .returned halone
  | confirmed hidle hholder =>
    rw [Participant.pleads_receive_of_isWord rfl,
      Participant.state_receive_idle (by simp [hbefore]), if_neg (by simp [hbefore])]
    exact .finished hidle hholder

/-- All that the arbitrator hears is that the party gives the floor back, and it confirms this. -/
theorem Dialogue.plea {x : Ssrc} {asked : Bool} {places : Places} {state : ParticipantState}
    {message : Message} {later sent : List Message}
    (h : Dialogue x asked places state later (message :: sent)) :
    message = .release x ∧ places.Alone x ∧ ∀ ack,
      Dialogue x asked { places with holder := none, state := .idle } state
        (later ++ [.idle ack]) sent := by
  cases h with
  | returned halone => exact ⟨rfl, halone, fun _ => .confirmed rfl rfl⟩

namespace Session

variable {config : SessionConfig} {x : Ssrc} {asked : Bool} {m m' : Machines}
  {event : SessionEvent} {rest : List SessionEvent} {outs : List Outbox} {y : Ssrc}

/-- A call in which the floor was opened for a party. All others will hear only how it stands. -/
structure Converses (x : Ssrc) (asked : Bool) (m : Machines) (mail : List SessionEvent) : Prop where
  party : ∃ p, m.participants.get? x = some p ∧
    Dialogue x asked m.arbitrator.places p.state (heard x mail) (pleas mail)
  others : ∀ y message, .toParticipant y message ∈ mail → y ≠ x → message.isWord = true

/-- What a party sends in answer to a message is for the arbitrator. -/
private theorem arrival_ne_toParticipant {p : Participant} (hmember : Member config.participant y p)
    {message : Message} {e : Envelope} (he : e ∈ (Participant.receive message ⟨p, {}⟩).out.messages)
    (z : Ssrc) (other : Message) : e.arrival ≠ .toParticipant z other := by
  obtain ⟨_, rfl, -⟩ :=
    (Participant.conduct_receive message hmember.waits.pending).letters e he
  nofun

private theorem heard_of_party {p : Participant} (hmember : Member config.participant y p)
    (message : Message) :
    heard x ((Participant.receive message ⟨p, {}⟩).out.messages.map (·.arrival)) = [] := by
  rw [heard_letters]
  refine Arbitrator.mailFor_eq_nil fun e he => ?_
  obtain ⟨_, rfl, -⟩ :=
    (Participant.conduct_receive message hmember.waits.pending).letters e he
  simp [Participant.letterFrom]

/-- A party hears a message: the party of the dialogue the next one, and every other only how the
floor stands. -/
private theorem Converses.received {p : Participant} {message : Message}
    (h : Converses x asked m (.toParticipant y message :: rest))
    (hmember : Member config.participant y p) (hreceiver : m.participants.get? y = some p) :
    Converses x asked
      { m with participants := m.participants.modify y fun _ =>
          (Participant.receive message ⟨p, {}⟩).machine }
      (rest ++ (Participant.receive message ⟨p, {}⟩).out.messages.map (·.arrival)) where
  party := by
    obtain ⟨q, hget, hdialogue⟩ := h.party
    rw [heard_append, heard_of_party hmember, List.append_nil, pleas_append, Roster.get?_modify]
    by_cases heq : x = y
    · subst heq
      cases hget.symm.trans hreceiver
      rw [if_pos rfl, hget]
      rw [heard_cons_self] at hdialogue
      exact ⟨_, rfl, hdialogue.receive hmember.ssrc⟩
    · have hne : y ≠ x := Ne.symm heq
      have hsilent := Participant.pleads_receive_of_isWord (p := p)
        (h.others y message List.mem_cons_self hne)
      rw [heard_cons_of_ne hne] at hdialogue
      refine ⟨q, by rw [if_neg heq, hget], ?_⟩
      change Dialogue x asked m.arbitrator.places q.state _ (pleas rest ++ Participant.pleads _)
      rw [hsilent, List.append_nil]
      exact hdialogue
  others z other hmem hne := by
    rcases List.mem_append.mp hmem with hmem | hmem
    · exact h.others z other (List.mem_cons_of_mem _ hmem) hne
    · obtain ⟨e, he, heq⟩ := List.mem_map.mp hmem
      exact absurd heq (arrival_ne_toParticipant hmember he z other)

/-- A message for a party that is gone is lost on everybody. -/
private theorem Converses.lost {message : Message}
    (h : Converses x asked m (.toParticipant y message :: rest))
    (hgone : m.participants.get? y = none) : Converses x asked m rest where
  party := by
    obtain ⟨p, hget, hdialogue⟩ := h.party
    have hne : y ≠ x := by
      rintro rfl
      cases hget.symm.trans hgone
    exact ⟨p, hget, heard_cons_of_ne hne ▸ hdialogue⟩
  others z other hmem := h.others z other (List.mem_cons_of_mem _ hmem)

/-- The arbitrator hears a message, and announces that the floor is idle if it is no
acknowledgement. -/
private theorem Converses.answered {message : Message}
    (h : Converses x asked m (.toArbitrator message :: rest)) (hfit : m.Fit config) :
    Converses x asked
      { m with arbitrator := (Arbitrator.receive message ⟨m.arbitrator, {}⟩).machine }
      (rest ++ (Arbitrator.receive message ⟨m.arbitrator, {}⟩).out.messages.map (·.arrival)) := by
  obtain ⟨p, hget, hdialogue⟩ := h.party
  have hothers : ∀ z other, .toParticipant z other ∈ rest → z ≠ x → other.isWord = true :=
    fun z other hmem => h.others z other (List.mem_cons_of_mem _ hmem)
  by_cases hack : message.kind = .ack
  · obtain ⟨ssrc, acked, rfl⟩ : ∃ ssrc acked, message = .ack ssrc acked := by
      cases message with
      | ack ssrc acked => exact ⟨ssrc, acked, rfl⟩
      | _ => cases hack
    have hplaces : (Arbitrator.receive (.ack ssrc acked) ⟨m.arbitrator, {}⟩).machine.places =
        m.arbitrator.places := Arbitrator.places_receiveAck ssrc acked m.arbitrator
    have hmail : rest ++ ((Arbitrator.receive (.ack ssrc acked)
        ⟨m.arbitrator, {}⟩).out.messages.map (·.arrival)) = rest := List.append_nil _
    rw [hmail]
    refine ⟨⟨p, hget, ?_⟩, hothers⟩
    rw [hplaces]
    exact hdialogue
  · have hfirst : pleas (.toArbitrator message :: rest) = message :: pleas rest := by
      simp [pleas, SessionEvent.plea?, hack]
    rw [hfirst] at hdialogue
    obtain ⟨rfl, halone, hnext⟩ := hdialogue.plea
    obtain ⟨hmessages, hplaces⟩ := Arbitrator.receive_release_of_alone
      (t := ⟨m.arbitrator, {}⟩) halone hfit.sound.toOrderly rfl
    have hknown : m.arbitrator.places.roster.contains x = true :=
      (hfit.known x).trans (Roster.contains_of_get? hget)
    have hannounced : ∀ e ∈ (Arbitrator.receive (.release x) ⟨m.arbitrator, {}⟩).out.messages,
        ∃ y, e = Arbitrator.letterTo y (.idle m.arbitrator.places.config.ackRequired) := by
      intro e he
      rw [hmessages] at he
      obtain ⟨y, -, -, rfl⟩ := Arbitrator.mem_lettersExcept.mp he
      exact ⟨y, rfl⟩
    refine ⟨⟨p, hget, ?_⟩, fun z other hmem hne => ?_⟩
    · rw [heard_append, pleas_append, heard_letters,
        pleas_of_letterTo fun e he => (hannounced e he).imp fun _ heq => ⟨_, heq⟩, hmessages,
        hplaces, Arbitrator.mailFor_lettersExcept_of_ne hknown (by simp), List.append_nil]
      exact hnext _
    · rcases List.mem_append.mp hmem with hmem | hmem
      · exact hothers z other hmem hne
      · obtain ⟨e, he, heq⟩ := List.mem_map.mp hmem
        obtain ⟨y, rfl⟩ := hannounced e he
        cases heq
        rfl

/-- What is handed over to somebody is the next step of the dialogue, or leaves it as it is. -/
theorem Converses.delivers (h : Converses x asked m (event :: rest)) (hfit : m.Fit config)
    (hdelivers : Delivers m event outs m') (hletter : event.isLetter = true) :
    Converses x asked m' (rest ++ (outs.flatMap (·.messages)).map (·.arrival)) := by
  cases hdelivers with
  | arbitratorTicket | participantTicket => cases hletter
  | @participantLetter y q message hreceiver =>
    rw [List.flatMap_singleton]
    exact h.received (hfit.member y q hreceiver) hreceiver
  | @dropped _ y input hinput hgone =>
    obtain ⟨message, rfl⟩ : ∃ message, event = .toParticipant y message := by
      cases event with
      | expiry => cases hletter
      | toArbitrator => cases hinput
      | toParticipant receiver message =>
        simp only [SessionEvent.input?, Option.ite_none_right_eq_some] at hinput
        exact ⟨message, by rw [hinput.1]⟩
    rw [List.flatMap_nil, List.map_nil, List.append_nil]
    exact h.lost hgone
  | arbitratorLetter message =>
    rw [List.flatMap_singleton]
    exact h.answered hfit

variable {h : History} {r last : Run} {s : Session} {t : Nat}

def Unhurried (s : Session) : Prop :=
  ∀ y ∈ s.scheduler.pending, y.due ≤ s.now → y.event.isLetter = true

theorem Unhurried.progressed (hunhurried : s.Unhurried) (hpatient : config.Patient)
    (hrightful : Rightful config outs) (hclock : s.now < Time.last) :
    (s.progressed m outs).Unhurried := by
  intro y hy hdue
  rw [now_progressed] at hdue
  rcases mem_pending_progressed hy with hy | ⟨wish, hwish, hwished, hevent⟩
  · exact hunhurried y hy hdue
  · rw [hevent]
    exact isLetter_of_due hpatient hrightful hclock hwish (hwished ▸ hdue)

/-- With no time on the way, an advance to the present moment hands over all messages, one after the
other. What every event that is handed over keeps is so in the end. -/
theorem Advances.at_once {P : Session → Prop} (hadvances : Advances t r last)
    (hs : Stage config h r.state) (hlink : config.linkDelay = 0) (hnow : r.state.now = t)
    (hstep : ∀ h s event scheduler m, Stage config h s → s.now = t → P s →
      s.scheduler.popDue t = some (event, scheduler) →
      Delivers s.machines event (s.machines.eventOutboxes event) m →
      s.mail = [event].filter (·.isLetter) ++ mail { s with scheduler := scheduler } →
      P (progressed { s with scheduler := scheduler } m (s.machines.eventOutboxes event)))
    (hbefore : P r.state) :
    ∃ s, P s ∧ s.mail = [] ∧ last.state.machines = s.machines := by
  induction hadvances generalizing h with
  | @settled r hnone =>
    refine ⟨r.state, hbefore, ?_, rfl⟩
    have hlate := Scheduler.lt_due_of_popDue_eq_none hs.timely.inOrder
      (Option.map_eq_none_iff.mp hnone)
    rw [mail, List.map_eq_nil_iff, List.filter_eq_nil_iff]
    intro y hy hletter
    have hdue := hs.punctual.letters y hy hletter
    rw [hs.config_eq, hlink] at hdue
    have hlate := hlate y hy
    simp only [Time.after, UInt64.toNat_zero] at hdue
    omega
  | @delivered r next last hnext _ ih =>
    simp only [deliverNext?, Option.map_eq_some_iff] at hnext
    obtain ⟨⟨event, scheduler⟩, hpop, rfl⟩ := hnext
    obtain ⟨⟨m, hdelivers, hstate⟩, -⟩ :=
      delivers_deliver event { r with state := { r.state with scheduler := scheduler } }
    have hmail := (mail_popDue hs.punctual hpop).2
    have hafter := hs.delivered hpop hdelivers
    have hsame : scheduler.now = t := by
      obtain ⟨x, rest, -, hdue, -, rfl⟩ := Scheduler.popDue_eq_some hpop
      have hnow : r.state.scheduler.now = t := hnow
      simp only
      omega
    refine ih (hstate ▸ hafter) ?_ (hstate ▸ hstep _ _ _ _ _ hs hnow hbefore hpop hdelivers hmail)
    rw [hstate, now_progressed]
    exact hsame

/-- When everything has been said, the party has the floor if it had asked for it; otherwise nobody
has it. -/
theorem Advances.converses (hadvances : Advances t r last) (hs : Stage config h r.state)
    (hlink : config.linkDelay = 0) (hnow : r.state.now = t) (hpatient : config.Patient)
    (hclock : t < Time.last) (hunhurried : r.state.Unhurried)
    (hconverses : Converses x asked r.state.machines r.state.mail) :
    Converses x asked last.state.machines [] := by
  suffices hend : ∃ s : Session, (s.Unhurried ∧ Converses x asked s.machines s.mail) ∧
      s.mail = [] ∧ last.state.machines = s.machines by
    obtain ⟨s, ⟨-, hafter⟩, hmail, hmachines⟩ := hend
    rw [hmachines]
    rwa [hmail] at hafter
  refine hadvances.at_once hs hlink hnow (fun h s event scheduler m hs hnow hbefore hpop hdelivers
    hmail => ?_) ⟨hunhurried, hconverses⟩
  obtain ⟨hunhurried, hconverses⟩ := hbefore
  have hpunctual := (mail_popDue hs.punctual hpop).1
  obtain ⟨first, later, hpending, hdue, rfl, rfl⟩ := Scheduler.popDue_eq_some hpop
  have hletter := hunhurried first (hpending ▸ List.mem_cons_self) (hnow ▸ hdue)
  have hsame : max s.scheduler.now first.due = t := by
    have hnow : s.scheduler.now = t := hnow
    omega
  constructor
  · refine Unhurried.progressed (fun y hy hdue => ?_) hpatient
      (winds_delivers hs.made hdelivers).2 (by rwa [now, hsame])
    refine hunhurried y (hpending ▸ List.mem_cons_of_mem _ hy) ?_
    rw [hnow]
    exact hsame ▸ hdue
  · rw [List.filter_cons_of_pos hletter, List.filter_nil, List.singleton_append] at hmail
    rw [mail_progressed _ _ hpunctual]
    exact (hmail ▸ hconverses).delivers (hs.fit (hs.active_of_popDue hpop)) hdelivers hletter

end Session
end FloorControl
