import FloorControl.Proofs.Complaints
import FloorControl.Proofs.Passage

/-!
# Second talkers that acknowledge

T20 runs while the arbitrator waits for the second talker to acknowledge its grant. All that time
the acknowledgement is on its way, or the grant is, which the talker acknowledges at once; so when
T20 waits longer than two messages are on their way, it never runs out. No second talker is dropped,
and nobody has to give way for want of an acknowledgement.
-/

namespace FloorControl

theorem DualFloor.isTalker_of_eq_some {d : DualFloor} {who : Talker} (h : d.talker = some who) :
    d.isTalker who.ssrc = true := by
  simp [isTalker, h]

namespace Arbitrator

variable {t u : Turn Arbitrator}

/-- Unless the second place is filled, an arbitrator that still waits for an acknowledgement waits
for the same one. -/
theorem upheld_dual (d : DualFloor) :
    Upheld fun t => t.machine.dual.t20.running = true → t.machine.dual = d where
  update _ hmild h hruns := by
    rcases hmild.dual with hsame | hstopped
    · have hruns : _ = true := hruns
      rw [Turn.machine_update, hsame] at hruns ⊢
      exact h hruns
    · rw [Turn.machine_update, hstopped] at hruns
      cases hruns
  post _ _ h := h
  moved _ _ h := h
  arm _ h := h

theorem Admits.dual (h : Admits t u) (hruns : u.machine.dual.t20.running = true) :
    u.machine.dual = t.machine.dual := by
  have hupheld := upheld_dual t.machine.dual
  cases h with
  | initialized h => exact hupheld.callInitialized (fun _ => rfl) h hruns
  | implicitRequest h => exact hupheld.implicitFloorRequest (fun _ => rfl) h hruns

/-- When a party has left, the arbitrator does not wait for its acknowledgement. -/
theorem dual_clientRelease {ssrc : Ssrc} (h : clientRelease ssrc t = .ok u)
    (hruns : u.machine.dual.t20.running = true) :
    u.machine.dual = t.machine.dual ∧ t.machine.dual.isTalker ssrc = false := by
  have hforgotten := (upheld_dual _).clientRelease (fun _ => rfl) h hruns
  rw [hforgotten] at hruns ⊢
  simp only [Turn.machine_update, forget] at hruns ⊢
  split at hruns
  · simp [DualFloor.vacate] at hruns
  · next hother => exact ⟨if_neg hother, Bool.not_eq_true _ ▸ hother⟩

theorem t20_beginRelease (t : Turn Arbitrator) :
    (beginRelease t).machine.dual.t20.running = false := by
  obtain ⟨u, heq, hu⟩ := exists_moveTo_releasing t
  rw [heq, Bool.eq_false_iff]
  intro hruns
  have hkept := (upheld_dual u.machine.dual).moveTo .releasing (t := u) (fun _ => rfl) hruns
  rw [hkept, hu] at hruns
  simp [DualFloor.vacate] at hruns

/-- An acknowledgement of its grant by the second talker is what the arbitrator waits for. -/
theorem t20_receive_ack {ssrc : Ssrc} (hsecond : t.machine.dual.isTalker ssrc = true) :
    (receive (.ack ssrc .granted) t).machine.dual.t20.running = false := by
  simp [receive, receiveAck, DualFloor.acknowledge, hsecond]

theorem Admits.releasing (h : Admits t u) (hstate : t.machine.state = .releasing) :
    u.machine.state = .releasing := by
  cases h with
  | initialized h =>
    simp only [callInitialized] at h
    split at h
    · cases h
    · cases h
      simp [hstate]
  | implicitRequest h =>
    simp only [implicitFloorRequest] at h
    split at h
    · cases h
    · cases h
      simp [hstate]

theorem releasing_clientRelease {ssrc : Ssrc} (h : clientRelease ssrc t = .ok u)
    (hstate : t.machine.state = .releasing) : u.machine.state = .releasing := by
  simp only [clientRelease] at h
  split at h
  · cases h
  · cases h
    have hrefreshed (v : Turn Arbitrator) (hv : v.machine.state = .releasing) :
        (refreshT4 v).machine.state = .releasing :=
      (congrArg Places.state places_refreshT4).trans hv
    have hvacant : (forget ssrc { t.machine with roster := t.machine.roster.erase ssrc }).occupied =
        false := by
      simp [occupied, forget, hstate, ArbitratorState.occupied]
    have hstays := hrefreshed
      (t.update fun a => forget ssrc { a with roster := a.roster.erase ssrc }) hstate
    simp [hvacant, hstays]

/-- Unless the ticket of T20 comes back, an arbitrator that still waits for an acknowledgement waits
for the same one. -/
theorem dual_expire {ticket : Ticket} (hother : t.machine.dual.t20.accepts ticket = false)
    (hruns : (expire ticket t).machine.dual.t20.running = true) :
    (expire ticket t).machine.dual = t.machine.dual := by
  rcases (upheld_dual t.machine.dual).expire ticket (t := t) (fun _ => rfl) with h | ⟨h, -⟩
  · exact h hruns
  · rw [hother] at h
    cases h

end Arbitrator

namespace Participant

/-- What is posted once is posted. -/
theorem upheld_posted (e : Envelope) : Upheld fun t => e ∈ t.out.messages where
  update _ _ h := h
  post _ _ h := List.mem_append_left _ h
  tell _ _ _ h := h
  arm _ h := h

/-- Where the call is set up, a message that asks for it is acknowledged. -/
theorem ack_mem_receive {p : Participant} {message : Message} (hset : p.state ≠ .startStop)
    (hasks : message.requiresAck = true) :
    letterFrom p.ssrc (.ack p.ssrc message.kind) ∈ (receive message ⟨p, {}⟩).out.messages := by
  apply (upheld_posted _).receive_of_acknowledge message hset
  simp [acknowledge, hasks, letterFrom]

end Participant

namespace Session

variable {config : SessionConfig} {h : History} {s s' : Session} {m m' : Machines}
  {op : Operation} {what : Occurrence} {outs : List Outbox} {event : SessionEvent} {x y : Ssrc}
  {p q : Participant} {i : Participant.Input}

def Machines.Ready (m : Machines) (x : Ssrc) : Prop :=
  ∃ p, m.participants.get? x = some p ∧ p.state ≠ .startStop

/-- A request of the party would not come too early: the party is ready, or it has left, or the call
is taken down. -/
def Machines.Entitled (m : Machines) (x : Ssrc) : Prop :=
  m.arbitrator.state = .releasing ∨
    ∀ p, m.participants.get? x = some p → p.state ≠ .startStop

private theorem starts_handle (hfit : m.Fit config) (hget : m.participants.get? y = some p)
    (hbegin : i ≠ .beginRelease) (hset : p.state ≠ .startStop) :
    (p.handle i).machine.state ≠ .startStop := by
  have hwaits := (hfit.member y p hget).waits
  exact fun hstate =>
    hset ((Participant.conduct_handle i hbegin hwaits.pending).starts hstate)

private theorem ready_turn (hfit : m.Fit config) (hget : m.participants.get? y = some p)
    (hbegin : i ≠ .beginRelease) (h : m.Ready x) :
    Machines.Ready ⟨m.arbitrator, m.participants.modify y fun _ => (p.handle i).machine⟩ x := by
  obtain ⟨q, hq, hset⟩ := h
  by_cases heq : x = y
  · subst heq
    cases hget.symm.trans hq
    refine ⟨(p.handle i).machine, ?_, starts_handle hfit hget hbegin hset⟩
    simp [Roster.get?_modify, hget]
  · refine ⟨q, ?_, hset⟩
    simp [Roster.get?_modify, heq, hq]

private theorem entitled_turn (hfit : m.Fit config) (hget : m.participants.get? y = some p)
    (hbegin : i ≠ .beginRelease) (h : m.Entitled x) :
    Machines.Entitled
      ⟨m.arbitrator, m.participants.modify y fun _ => (p.handle i).machine⟩ x := by
  refine h.imp_right fun hset q hq => ?_
  rw [Roster.get?_modify] at hq
  split at hq
  · next heq =>
    subst heq
    obtain ⟨-, -, rfl⟩ := Option.map_eq_some_iff.mp hq
    exact starts_handle hfit hget hbegin (hset p hget)
  · exact hset q hq

/-- A party that sends a request is ready. -/
private theorem entitled_asking {r : Request} {e : Envelope} (hfit : m.Fit config)
    (hget : m.participants.get? y = some p) (hbegin : i ≠ .beginRelease)
    (he : e ∈ (p.handle i).out.messages) (hrequest : e.arrival = .toArbitrator (.request r)) :
    Machines.Entitled
      ⟨m.arbitrator, m.participants.modify y fun _ => (p.handle i).machine⟩ r.ssrc := by
  have hmember := hfit.member y p hget
  have hconduct := Participant.conduct_handle i hbegin hmember.waits.pending
  obtain ⟨message, rfl, hssrc⟩ := hconduct.letters e he
  have hmessage : message = .request r := SessionEvent.toArbitrator.inj hrequest
  subst hmessage
  have hsender : r.ssrc = y := (Option.some.inj hssrc).trans hmember.ssrc
  refine .inr fun q hq => ?_
  rw [hsender, Roster.get?_modify, if_pos rfl] at hq
  obtain ⟨-, -, rfl⟩ := Option.map_eq_some_iff.mp hq
  rw [hconduct.asks r he]
  decide

/-- The arbitrator sends no requests. -/
private theorem not_asking {messages : List Envelope} {e : Envelope} {r : Request}
    (hletters : ∀ e ∈ messages, ∃ ssrc message, e = Arbitrator.letterTo ssrc message)
    (he : e ∈ messages) : e.arrival ≠ .toArbitrator (.request r) := by
  obtain ⟨ssrc, message, rfl⟩ := hletters e he
  simp [Arbitrator.letterTo, Envelope.arrival]

theorem entitled_part (hpart : Part op m outs m') (hfit : m.Fit config) (h : m.Entitled x) :
    m'.Entitled x := by
  cases hpart with
  | arbitrator hmachine _ _ hadmits =>
    exact h.imp_left fun hstate => hadmits.releasing (hmachine ▸ hstate)
  | participant hget hprompts | quiet hget hprompts =>
    exact entitled_turn hfit hget hprompts.ne_beginRelease h
  | left _ hleaves =>
    apply h.imp (Arbitrator.releasing_clientRelease hleaves)
    intro hset q hq
    rw [Roster.get?_erase] at hq
    split at hq
    · cases hq
    · exact hset q hq
  | closed =>
    obtain ⟨u, heq, -⟩ := Arbitrator.exists_moveTo_releasing ⟨m.arbitrator, {}⟩
    exact .inl (by rw [heq, Arbitrator.state_moveTo])

theorem entitled_part_of_request {e : Envelope} {r : Request} (hpart : Part op m outs m')
    (hfit : m.Fit config) (he : e ∈ outs.flatMap (·.messages))
    (hrequest : e.arrival = .toArbitrator (.request r)) : m'.Entitled r.ssrc := by
  cases hpart with
  | arbitrator hmachine hmessages _ hadmits =>
    rw [List.flatMap_singleton] at he
    obtain ⟨input, p, -, -, -, hdeed⟩ := hadmits.exists_deed (hmachine ▸ hfit.sound) hmessages
    exact absurd hrequest (not_asking hdeed.letters he)
  | participant hget hprompts =>
    rw [List.flatMap_singleton] at he
    exact entitled_asking hfit hget hprompts.ne_beginRelease he hrequest
  | quiet => cases he
  | left _ hleaves hmessages =>
    rw [List.flatMap_singleton, hmessages] at he
    obtain ⟨-, -, hdeed⟩ :=
      Arbitrator.exists_deed_of_clientRelease (t := ⟨m.arbitrator, {}⟩) hleaves hfit.sound rfl
    exact absurd hrequest (not_asking hdeed.letters he)
  | closed _ _ hmessages =>
    rw [List.flatMap_singleton, hmessages] at he
    have hdeed := Arbitrator.deed_beginRelease (t := ⟨m.arbitrator, {}⟩) rfl
    exact absurd hrequest (not_asking hdeed.letters he)

theorem entitled_delivers (hdelivers : Delivers m event outs m') (hfit : m.Fit config)
    (h : m.Entitled x) : m'.Entitled x := by
  cases hdelivers with
  | @arbitratorTicket ticket =>
    refine h.imp_left fun hstate => ?_
    have hsame := Arbitrator.places_expire_of_releasing ticket (t := ⟨m.arbitrator, {}⟩)
      hfit.sound hstate
    exact (congrArg Arbitrator.Places.state hsame).trans hstate
  | arbitratorLetter message =>
    refine h.imp_left fun hstate => ?_
    have hsame := Arbitrator.places_receive_of_releasing message (t := ⟨m.arbitrator, {}⟩)
      hfit.sound hstate
    exact (congrArg Arbitrator.Places.state hsame).trans hstate
  | @participantTicket ticket _ _ _ hget =>
    exact entitled_turn (i := .expire ticket) hfit hget (by simp) h
  | participantLetter message hget =>
    exact entitled_turn (i := .receive message) hfit hget (by simp) h
  | dropped => exact h

theorem entitled_delivers_of_request {e : Envelope} {r : Request}
    (hdelivers : Delivers m event outs m') (hfit : m.Fit config)
    (he : e ∈ outs.flatMap (·.messages)) (hrequest : e.arrival = .toArbitrator (.request r)) :
    m'.Entitled r.ssrc := by
  cases hdelivers with
  | @arbitratorTicket ticket =>
    rw [List.flatMap_singleton] at he
    have hdeed := Arbitrator.deed_expire ticket (t := ⟨m.arbitrator, {}⟩) hfit.sound hfit.roomy rfl
    exact absurd hrequest (not_asking hdeed.letters he)
  | arbitratorLetter message =>
    rw [List.flatMap_singleton] at he
    have hdeed :=
      Arbitrator.deed_receive message (t := ⟨m.arbitrator, {}⟩) hfit.sound hfit.roomy rfl
    exact absurd hrequest (not_asking hdeed.letters he)
  | @participantTicket ticket _ _ _ hget =>
    rw [List.flatMap_singleton] at he
    exact entitled_asking (i := .expire ticket) hfit hget (by simp) he hrequest
  | participantLetter message hget =>
    rw [List.flatMap_singleton] at he
    exact entitled_asking (i := .receive message) hfit hget (by simp) he hrequest
  | dropped => cases he

theorem second_part (hpart : Part op m outs m') (hfit : m.Fit config)
    (hruns : m'.arbitrator.dual.t20.running = true) :
    m'.arbitrator.dual = m.arbitrator.dual ∧
      ∀ x, m.arbitrator.dual.isTalker x = true → m.Ready x → m'.Ready x := by
  cases hpart with
  | arbitrator hmachine _ _ hadmits =>
    exact ⟨hmachine ▸ hadmits.dual hruns, fun _ _ h => h⟩
  | participant hget hprompts | quiet hget hprompts =>
    exact ⟨rfl, fun _ _ => ready_turn hfit hget hprompts.ne_beginRelease⟩
  | @left ssrc _ _ _ hleaves =>
    obtain ⟨hdual, hother⟩ := Arbitrator.dual_clientRelease hleaves hruns
    refine ⟨hdual, fun x hsecond ⟨p, hget, hset⟩ => ⟨p, ?_, hset⟩⟩
    have hne : x ≠ ssrc := by
      rintro rfl
      exact absurd hsecond (Bool.eq_false_iff.mp hother)
    rw [Roster.get?_erase, if_neg hne]
    exact hget
  | closed =>
    rw [Arbitrator.t20_beginRelease] at hruns
    cases hruns

structure Fills (m : Machines) (r : Request) (outs : List Outbox) (m' : Machines) : Prop where
  known : m.participants.contains r.ssrc = true
  state : m.arbitrator.state = .taken
  participants : m'.participants = m.participants
  talker : m'.arbitrator.dual.talker = some r.talker
  t20 : m'.arbitrator.dual.t20 = m.arbitrator.dual.t20.start
  granted : ∃ message : Message, message.kind = .granted ∧ message.requiresAck = true ∧
    Arbitrator.letterTo r.ssrc message ∈ outs.flatMap (·.messages)

/-- When the second place is filled, its talker has to acknowledge the grant if the arbitrator waits
for that afterwards. -/
private theorem fills_of_grant {r : Request} (hfit : m.Fit config)
    (hknown : m.arbitrator.roster.contains r.ssrc = true) (hstate : m.arbitrator.state = .taken)
    (hvacant : m.arbitrator.dual.talker = none)
    (heq : Arbitrator.receive (.request r) ⟨m.arbitrator, {}⟩ =
      Arbitrator.onDual (DualFloor.grant r.talker m.arbitrator.roster.ssrcs) ⟨m.arbitrator, {}⟩)
    (hruns : (Arbitrator.receive (.request r) ⟨m.arbitrator, {}⟩).machine.dual.t20.running = true) :
    Fills m r [(Arbitrator.receive (.request r) ⟨m.arbitrator, {}⟩).out]
      { m with arbitrator := (Arbitrator.receive (.request r) ⟨m.arbitrator, {}⟩).machine } := by
  have hrests : m.arbitrator.dual.t20.running = false := by
    rw [Bool.eq_false_iff]
    intro hruns
    obtain ⟨hsecond, -⟩ := hfit.inStep.t20 hruns
    simp [Arbitrator.gears, DualFloor.started, hvacant] at hsecond
  have hack : m.arbitrator.dual.ackRequired = true := by
    rw [heq] at hruns
    by_contra hack
    simp [Arbitrator.onDual, DualFloor.grant, hack, Turn.post, Turn.update, hrests] at hruns
  refine ⟨(hfit.known r.ssrc).symm.trans hknown, hstate, rfl, ?_, ?_, ?_⟩
  · rw [heq]
    rfl
  · rw [heq]
    simp [Arbitrator.onDual, DualFloor.grant, hack, DualFloor.startT20, Turn.start]
  · refine ⟨(m.arbitrator.dual.grantMessage r.talker).message, rfl, hack, ?_⟩
    rw [heq, List.flatMap_singleton, Arbitrator.messages_onDual_grant]
    exact List.mem_append_right _ List.mem_cons_self

theorem second_delivers (hdelivers : Delivers m event outs m') (hfit : m.Fit config)
    (hother : ∀ ticket, event = .expiry ticket → m.arbitrator.dual.t20.accepts ticket = false)
    (hruns : m'.arbitrator.dual.t20.running = true) :
    (m'.arbitrator.dual = m.arbitrator.dual ∧ ∀ x, m.Ready x → m'.Ready x) ∨
      ∃ r, event = .toArbitrator (.request r) ∧ Fills m r outs m' := by
  cases hdelivers with
  | arbitratorTicket =>
    exact .inl ⟨Arbitrator.dual_expire (t := ⟨m.arbitrator, {}⟩) (hother _ rfl) hruns,
      fun _ h => h⟩
  | arbitratorLetter message =>
    rcases (Arbitrator.upheld_dual m.arbitrator.dual).receive message (t := ⟨m.arbitrator, {}⟩)
      (fun _ => rfl) with hkept | ⟨r, rfl, hknown, hstate, hvacant, heq⟩
    · exact .inl ⟨hkept hruns, fun _ h => h⟩
    · exact .inr ⟨r, rfl, fills_of_grant hfit hknown hstate hvacant heq hruns⟩
  | @participantTicket ticket _ _ _ hget =>
    exact .inl ⟨rfl, fun _ => ready_turn (i := .expire ticket) hfit hget (by simp)⟩
  | participantLetter message hget =>
    exact .inl ⟨rfl, fun _ => ready_turn (i := .receive message) hfit hget (by simp)⟩
  | dropped => exact .inl ⟨rfl, fun _ h => h⟩

/-- The letter is an acknowledgement of a grant by the party, or a grant that makes the party send
one, and the acknowledgement arrives at the given time. -/
inductive BringsAck (delay : Nat) (x : Ssrc) : Nat → Nat × SessionEvent → Prop
  | ack (due : Nat) : BringsAck delay x due (due, .toArbitrator (.ack x .granted))
  | grant (due : Nat) {message : Message} : message.kind = .granted →
      message.requiresAck = true → BringsAck delay x (due + delay) (due, .toParticipant x message)

theorem BringsAck.le {delay arrival : Nat} {letter : Nat × SessionEvent}
    (h : BringsAck delay x arrival letter) : letter.1 ≤ arrival := by
  cases h with
  | ack => exact Nat.le_refl _
  | grant => exact Nat.le_add_right _ _

def ComesAfter (s : Session) (arrival : Nat) (ticket : Ticket) : Prop :=
  ∀ y ∈ s.scheduler.pending, y.event = .expiry ticket → arrival < y.due

/-- The party is there to acknowledge its grant, and the acknowledgement comes before T20 runs
out. -/
def Answers (config : SessionConfig) (s : Session) (x : Ssrc) : Prop :=
  s.machines.Ready x ∧ ∃ arrival, ∃ letter ∈ s.letters,
    BringsAck config.linkDelay.toNat x arrival letter ∧
      s.ComesAfter arrival s.arbitrator.dual.t20.ticket

/-- While the arbitrator waits for an acknowledgement, the second talker answers. -/
structure Assured (config : SessionConfig) (s : Session) : Prop where
  entitled : ∀ due r, (due, .toArbitrator (.request r)) ∈ s.letters → s.machines.Entitled r.ssrc
  second : s.arbitrator.dual.t20.running = true →
    ∃ who, s.arbitrator.dual.talker = some who ∧ s.Answers config who.ssrc

theorem mem_clocks_t20 (m : Machines) : m.arbitrator.dual.t20 ∈ m.clocks .arbitrator := by
  simp [Machines.clocks, Arbitrator.timers]

/-- When the letter that brings the acknowledgement is handed over, the acknowledgement is sent, or
has come. -/
private theorem exists_ack {now arrival : Nat} (hfit : m.Fit config) (hset : m.Ready x)
    (hsecond : m.arbitrator.dual.isTalker x = true) (hdelivers : Delivers m event outs m')
    (hruns : m'.arbitrator.dual.t20.running = true)
    (hbrings : BringsAck config.linkDelay.toNat x arrival (now, event)) :
    arrival = now + config.linkDelay.toNat ∧
      Participant.letterFrom x (.ack x .granted) ∈ outs.flatMap (·.messages) := by
  cases hbrings with
  | ack =>
    cases hdelivers with
    | arbitratorLetter =>
      have hstopped := Arbitrator.t20_receive_ack (t := ⟨m.arbitrator, {}⟩) hsecond
      rw [hstopped] at hruns
      cases hruns
    | dropped hinput => simp [SessionEvent.input?] at hinput
  | @grant _ message hkind hasks =>
    refine ⟨rfl, ?_⟩
    obtain ⟨q, hq, hset⟩ := hset
    cases hdelivers with
    | participantLetter _ hget =>
      cases hget.symm.trans hq
      have hack := Participant.ack_mem_receive hset hasks
      rw [hkind, (hfit.member x q hget).ssrc] at hack
      rw [List.flatMap_singleton]
      exact hack
    | dropped hinput hget =>
      simp only [SessionEvent.input?, Option.ite_none_right_eq_some] at hinput
      rw [hinput.1] at hq
      cases hget.symm.trans hq

private theorem delay_t20 (hmade : Made config m.clocks) :
    m.arbitrator.dual.t20.delay = config.arbitrator.t20.toNat := by
  have hmake := hmade.arbitrator
  simp only [Arbitrator.timers, Arbitrator.makes, List.map_cons, List.map_nil, List.cons.injEq,
    Timer.make, Prod.mk.injEq] at hmake
  exact hmake.2.2.2.2.2.1.2.2

/-- While an acknowledgement is on its way, T20 does not run out. -/
theorem Assured.refuses {ticket : Ticket} (hassured : Assured config s)
    (hpassage : Passage config s (Occurrence.delivery (.expiry ticket)).event? outs s') :
    s.arbitrator.dual.t20.accepts ticket = false := by
  rw [Bool.eq_false_iff]
  intro haccepts
  obtain ⟨hruns, rfl⟩ := (Timer.accepts_iff _ _).mp haccepts
  obtain ⟨who, -, -, arrival, letter, hletter, hbrings, hafter⟩ := hassured.second hruns
  obtain ⟨y, hy, hevent, hdue⟩ := hpassage.due _ rfl
  have hlate := hafter y hy hevent
  have hnow := hpassage.now_le hletter
  have hbefore := hbrings.le
  omega

section Turn

variable (hsteady : Steady config s) (hturn : Turns config s what outs s')

include hsteady hturn

private theorem entitled_turn_of_letter {due : Nat} {r : Request} (hassured : Assured config s)
    (hletter : (due, .toArbitrator (.request r)) ∈ s'.letters) : s'.machines.Entitled r.ssrc := by
  rcases (hsteady.passage hturn).mem_letters hletter with hletter | ⟨e, he, heq⟩
  · have hbefore := hassured.entitled due r hletter
    cases hturn with
    | part hpart _ => exact entitled_part hpart hsteady.fit hbefore
    | delivers _ hdelivers _ => exact entitled_delivers hdelivers hsteady.fit hbefore
  · have hrequest : e.arrival = .toArbitrator (.request r) := (congrArg Prod.snd heq).symm
    cases hturn with
    | part hpart _ => exact entitled_part_of_request hpart hsteady.fit he hrequest
    | delivers _ hdelivers _ => exact entitled_delivers_of_request hdelivers hsteady.fit he hrequest

/-- An acknowledgement that is still waited for was so before, or the second place is filled. -/
private theorem second_turn
    (hrefuses : ∀ ticket, what = .delivery (.expiry ticket) →
      s.arbitrator.dual.t20.accepts ticket = false)
    (hruns : s'.arbitrator.dual.t20.running = true) :
    (s'.arbitrator.dual = s.arbitrator.dual ∧ ∀ x, s.arbitrator.dual.isTalker x = true →
        s.machines.Ready x → s'.machines.Ready x) ∨
      ∃ r, what = .delivery (.toArbitrator (.request r)) ∧
        Fills s.machines r outs s'.machines := by
  cases hturn with
  | part hpart _ => exact .inl (second_part hpart hsteady.fit hruns)
  | delivers _ hdelivers _ =>
    rcases second_delivers hdelivers hsteady.fit (fun ticket hevent => hrefuses ticket
      (congrArg _ hevent)) hruns with ⟨hdual, hready⟩ | ⟨r, rfl, hfills⟩
    · exact .inl ⟨hdual, fun x _ => hready x⟩
    · exact .inr ⟨r, rfl, hfills⟩

/-- A second talker that has answered, or is about to, answers as long as it is waited for. -/
private theorem answers_kept (hdual : s'.arbitrator.dual = s.arbitrator.dual)
    (hready : s.machines.Ready x → s'.machines.Ready x)
    (hsecond : s.arbitrator.dual.isTalker x = true)
    (hruns : s'.arbitrator.dual.t20.running = true) (h : s.Answers config x) :
    s'.Answers config x := by
  have hpassage := hsteady.passage hturn
  obtain ⟨hset, arrival, letter, hletter, hbrings, hafter⟩ := h
  -- As long as the same acknowledgement is waited for, the ticket of T20 comes no earlier.
  have hlater : s'.ComesAfter arrival s'.arbitrator.dual.t20.ticket := by
    have hkept : s.arbitrator.dual.t20 ∈ s'.machines.clocks .arbitrator := by
      rw [← hdual]
      exact mem_clocks_t20 s'.machines
    rw [hdual]
    intro y hy hevent
    exact hafter y (hpassage.still _ _ (mem_clocks_t20 s.machines) hkept y hy hevent) hevent
  refine ⟨hready hset, arrival, ?_⟩
  rcases hpassage.letter hletter with ⟨event, rfl, rfl⟩ | hletter
  · cases hturn with
    | delivers _ hdelivers _ =>
      obtain ⟨harrival, hack⟩ :=
        exists_ack hsteady.fit hset hsecond hdelivers hruns hbrings
      subst harrival
      exact ⟨_, hpassage.sent hack, .ack _, hlater⟩
  · exact ⟨letter, hletter, hbrings, hlater⟩

/-- A new second talker answers: its grant and the acknowledgement are on their way for less than
T20. -/
private theorem answers_filled {r : Request}
    (hspare : 2 * config.linkDelay.toNat < config.arbitrator.t20.toNat)
    (hentitled : s.machines.Entitled r.ssrc) (hfills : Fills s.machines r outs s'.machines) :
    s'.Answers config r.ssrc := by
  have hpassage := hsteady.passage hturn
  have hdue := (hpassage.started .arbitrator _ (mem_clocks_t20 s.machines) _
    (mem_clocks_t20 s'.machines) (by rw [hfills.t20, Timer.make_start])
    (by rw [hfills.t20]; exact Nat.lt_succ_self _) (by rw [hfills.t20]; rfl)).due_eq
  obtain ⟨message, hkind, hasks, hgrant⟩ := hfills.granted
  refine ⟨?_, _, _, hpassage.sent hgrant, .grant _ hkind hasks, ?_⟩
  · have hset := hentitled.resolve_left (by rw [hfills.state]; decide)
    have hknown := hfills.known
    obtain ⟨p, hget⟩ := Roster.exists_get?_of_contains hknown
    exact ⟨p, hfills.participants ▸ hget, hset p hget⟩
  · intro y hy hevent
    have hdelay := delay_t20 (hsteady.turn hturn).fit.made
    rw [hdue y hy hevent, hdelay]
    omega

theorem Assured.turn (hassured : Assured config s)
    (hspare : 2 * config.linkDelay.toNat < config.arbitrator.t20.toNat) : Assured config s' := by
  have hpassage := hsteady.passage hturn
  constructor
  · exact fun due r hletter => entitled_turn_of_letter hsteady hturn hassured hletter
  · intro hruns
    have hrefuses : ∀ ticket, what = .delivery (.expiry ticket) →
        s.arbitrator.dual.t20.accepts ticket = false := by
      rintro ticket rfl
      exact hassured.refuses hpassage
    rcases second_turn hsteady hturn hrefuses hruns with ⟨hdual, hready⟩ | ⟨r, rfl, hfills⟩
    · obtain ⟨who, htalker, hanswers⟩ := hassured.second (hdual ▸ hruns)
      have hsecond := DualFloor.isTalker_of_eq_some htalker
      exact ⟨who, (congrArg _ hdual).trans htalker,
        answers_kept hsteady hturn hdual (hready _ hsecond) hsecond hruns hanswers⟩
    · have hletter : (s'.now, .toArbitrator (.request r)) ∈ s.letters := by
        obtain ⟨rest, hletters, -⟩ := hpassage.letters
        rw [hletters]
        exact List.mem_append_left _ (by simp [Occurrence.event?, Scene.arriving,
          SessionEvent.isLetter])
      exact ⟨r.talker, hfills.talker,
        answers_filled hsteady hturn hspare (hassured.entitled _ r hletter) hfills⟩

end Turn

private theorem Assured.joined {priority : Priority} {originator : Bool} {a : Arbitrator}
    (hassured : Assured config s) (hs : Stage config h s) (hactive : s.active = true)
    (hadded : s.arbitrator.addParticipant x priority originator = .ok a)
    (hjoin : History.NoRejoin (⟨s, .operation (.join x priority originator)⟩ :: h)) :
    Assured config { s with
      arbitrator := a
      participants := s.participants.insert x
        (.create s.callId x s.callType priority originator s.config.participant) } := by
  obtain ⟨hstranger, proxy, rfl⟩ := Arbitrator.exists_insert_of_addParticipant hadded
  constructor
  · intro due r hletter
    refine (hassured.entitled due r hletter).imp_right fun hset p hget => ?_
    rw [machines, Roster.get?_insert] at hget
    split at hget
    · next heq =>
      -- No request of the party that has just joined is on its way.
      obtain ⟨y, hy, hevent⟩ := List.mem_map.mp hletter
      have hevent : y.event = .toArbitrator (.request r) := congrArg Prod.snd hevent
      refine absurd ?_ (hs.fresh hactive hadded hjoin y (List.mem_filter.mp hy).1)
      rw [hevent, SessionEvent.source?, Message.ssrc?, heq]
    · exact hset p hget
  · intro hruns
    obtain ⟨who, htalker, ⟨p, hget, hset⟩, hcoming⟩ := hassured.second hruns
    have hne : who.ssrc ≠ x := by
      rintro rfl
      have hknown := ((hs.fit hactive).known _).trans (Roster.contains_of_get? hget)
      exact absurd hknown (Bool.eq_false_iff.mp hstranger)
    refine ⟨who, htalker, ⟨p, ?_, hset⟩, hcoming⟩
    rw [machines, Roster.get?_insert, if_neg hne]
    exact hget

theorem Stage.assured (hs : Stage config h s) (hactive : s.active = true) (hjoin : h.NoRejoin)
    (hspare : h.Unsaturated)
    (hdelay : 2 * config.linkDelay.toNat < config.arbitrator.t20.toNat) : Assured config s := by
  induction hs with
  | created =>
    constructor
    · exact fun _ _ hletter => by cases hletter
    · exact fun hruns => by cases hruns
  | @acted h s m op hs _ hparts ih =>
    have hsteady := hs.steady hactive hjoin.2 hspare.tail
    exact (hsteady.parts (P := Assured config)
      (fun _ _ _ hsteady hpart hin hassured => hassured.turn hsteady (.part hpart hin) hdelay)
      hparts (hs.inTime_acted hspare) (ih hactive hjoin.2 hspare.tail)).2
  | joined hs hrunning hadded ih =>
    exact (ih hrunning hjoin.2 hspare.tail).joined hs hrunning hadded hjoin
  | @delivered h s m t event scheduler hs hpop hdelivers ih =>
    exact (ih hactive hjoin.2 hspare.tail).turn (hs.steady hactive hjoin.2 hspare.tail)
      (.delivers hpop hdelivers (hs.inTime_delivered hpop hspare)) hdelay
  | settled _ _ ih =>
    have hbefore := ih hactive hjoin hspare
    exact ⟨hbefore.entitled, hbefore.second⟩
  | ended _ hdowned _ =>
    rw [hdowned.active] at hactive
    cases hactive

/-- What is told of in an ordinary step, or of a party that gives up, is no message, and no second
talker that is not waited for any longer. -/
theorem spares_of_tells {P : FailureKind → Prop} {event : FloorEvent}
    (hreason : ¬ P .dualGrantUnacknowledged)
    (h : event.ordinary = true ∨ ∃ call kind, event = .failure call x kind ∧ P kind) :
    event.message? = none ∧ ∀ call ssrc, event ≠ .failure call ssrc .dualGrantUnacknowledged := by
  rcases h with hordinary | ⟨call, kind, rfl, hkind⟩
  · cases event with
    | messageSent | failure => cases hordinary
    | _ => simp [FloorEvent.message?]
  · refine ⟨rfl, fun _ _ heq => ?_⟩
    cases heq
    exact hreason hkind

/-- Nobody is told to give way for want of an acknowledgement, or of a second talker that had to. -/
structure Blameless (out : Outbox) : Prop where
  letters : ∀ e ∈ out.messages, e.message.blames = false
  events : ∀ event ∈ out.events, event.message? = none ∧
    ∀ call ssrc, event ≠ .failure call ssrc .dualGrantUnacknowledged

theorem blameless_of_calm {out : Outbox} (h : out.Calm) : Blameless out :=
  ⟨h.letters, fun event hevent =>
    spares_of_tells (x := 0) (P := fun _ => False) id (.inl (h.events event hevent))⟩

private theorem blameless_delivers (hdelivers : Delivers m event outs m')
    (hcause : m.arbitrator.revokeCause ≠ .noResources)
    (hother : ∀ ticket, event = .expiry ticket → m.arbitrator.dual.t20.accepts ticket = false) :
    ∀ out ∈ outs, Blameless out := by
  intro out hout
  cases hdelivers with
  | @arbitratorTicket ticket =>
    rw [List.mem_singleton.mp hout]
    rcases Arbitrator.calm_expire ticket hcause with hcalm | haccepts
    · exact blameless_of_calm hcalm
    · rw [hother ticket rfl] at haccepts
      cases haccepts
  | arbitratorLetter message =>
    rw [List.mem_singleton.mp hout]
    exact blameless_of_calm (Arbitrator.calm_receive message hcause)
  | @participantTicket ticket _ p =>
    rw [List.mem_singleton.mp hout]
    have htells := Participant.tells_expire (p := p) ticket
    exact ⟨htells.letters, fun event hevent => spares_of_tells id (htells.events event hevent)⟩
  | participantLetter message =>
    rw [List.mem_singleton.mp hout]
    exact blameless_of_calm (Participant.calm_handle (.receive message) (by simp))
  | dropped => cases hout

theorem Stage.blameless (hs : Stage config h s) (hjoin : h.NoRejoin) (hspare : h.Unsaturated)
    (hdelay : 2 * config.linkDelay.toNat < config.arbitrator.t20.toNat) :
    ∀ e ∈ h, ∀ out ∈ e.outboxes, Blameless out := by
  have hacted {h : History} {s : Session} (op : Operation) (hs : Stage config h s) :
      ∀ out ∈ Happening.outboxes ⟨s, .operation op⟩, Blameless out := fun out hout =>
    blameless_of_calm (op.calm hs.cause out hout)
  induction hs with
  | created => simp
  | acted op hs _ _ ih =>
    exact List.forall_mem_cons.mpr ⟨hacted op hs, ih hjoin.2 hspare.tail⟩
  | joined hs _ _ ih => exact List.forall_mem_cons.mpr ⟨hacted _ hs, ih hjoin.2 hspare.tail⟩
  | @delivered h s m t event scheduler hs hpop hdelivers ih =>
    refine List.forall_mem_cons.mpr ⟨?_, ih hjoin.2 hspare.tail⟩
    have hactive := hs.active_of_popDue hpop
    apply blameless_delivers hdelivers hs.cause
    rintro ticket rfl
    have hturn : Turns config s _ _ _ :=
      .delivers hpop hdelivers (hs.inTime_delivered hpop hspare)
    exact (hs.assured hactive hjoin.2 hspare.tail hdelay).refuses
      ((hs.steady hactive hjoin.2 hspare.tail).passage hturn)
  | settled _ _ ih => exact ih hjoin hspare
  | ended _ _ ih => exact ih hjoin hspare

/-- When T20 is longer than two messages are on their way, the observers of a call are never told
that a second talker has not acknowledged its grant, and nobody is told to give way for that. -/
theorem never_unacknowledged {phase : Phase} {r : Run} (hr : Reached config phase h r)
    (hjoin : h.NoRejoin) (hspare : h.Unsaturated)
    (hdelay : 2 * config.linkDelay.toNat < config.arbitrator.t20.toNat) :
    ∀ entry ∈ r.log,
      (∀ call ssrc, entry.event ≠ .failure call ssrc .dualGrantUnacknowledged) ∧
      ∀ call sender receiver ssrc ack,
        entry.event ≠ .messageSent call sender receiver (.revoke ssrc .noResources ack) := by
  intro entry hentry
  rcases hr.told entry hentry with ⟨e, he, -, out, hout, htold⟩ | ⟨_, hevent⟩ | ⟨_, _, _, _, hevent⟩
  · have hblameless := hr.stage.blameless hjoin hspare hdelay e he out hout
    rcases htold with hevent | ⟨letter, hletter, hsent⟩
    · obtain ⟨hmessage, hfailure⟩ := hblameless.events _ hevent
      refine ⟨hfailure, fun call sender receiver ssrc ack heq => ?_⟩
      rw [heq] at hmessage
      cases hmessage
    · refine ⟨by simp [hsent], fun call sender receiver ssrc ack heq => ?_⟩
      have hmild := hblameless.letters letter hletter
      rw [hsent, FloorEvent.messageSent.injEq] at heq
      rw [heq.2.2.2] at hmild
      cases hmild
  · rw [hevent]
    simp
  · rw [hevent]
    simp

/-- A second talker is granted its place, and T20 is only just longer than the grant and the
acknowledgement are on their way. -/
def narrow : SessionConfig where
  arbitrator := { t20 := 21, c20Limit := 1, dualFloorSupported := true, ackRequired := true }
  linkDelay := 10

theorem never_unacknowledged_narrow :
    ∃ h r, Reached narrow .resting h r ∧ h.NoRejoin ∧ h.Unsaturated ∧
      2 * narrow.linkDelay.toNat < narrow.arbitrator.t20.toNat ∧
      r.log.any (·.event = .floorGranted 1 2) = true ∧
      ∀ entry ∈ r.log,
        (∀ call ssrc, entry.event ≠ .failure call ssrc .dualGrantUnacknowledged) ∧
        ∀ call sender receiver ssrc ack,
          entry.event ≠ .messageSent call sender receiver (.revoke ssrc .noResources ack) := by
  have hplayed : ∃ r, play? [.join 1 5 true, .join 2 5 false, .setUpAll, .push 1, .advanceTo 20,
      .setDual 2 true, .setIndicator 2 (some .emergency), .push 2, .advanceTo 100]
        ⟨Session.create 1 .basic narrow 0, []⟩ = some r ∧
      (r.state.now = 100 && r.log.any (·.event = .floorGranted 1 2)) = true :=
    (Option.any_eq_true _ _).mp (by decide +kernel)
  obtain ⟨r, hr, hcheck⟩ := hplayed
  simp only [Bool.and_eq_true, decide_eq_true_eq] at hcheck
  obtain ⟨hnow, hgranted⟩ := hcheck
  obtain ⟨h, hreached, hjoin, -⟩ := Reached.of_play? hr (by simp) (by simp)
  have hspare : h.Unsaturated := by
    apply hreached.stage.unsaturated
    · rw [hnow]
      decide
    · rw [hnow]
      intro o
      cases o <;> simp [SessionConfig.makes, Arbitrator.makes, Participant.makes, narrow, Time.last,
        UInt64.size]
  have hdelay : 2 * narrow.linkDelay.toNat < narrow.arbitrator.t20.toNat := by decide
  exact ⟨h, r, hreached, hjoin, hspare, hdelay, hgranted,
    never_unacknowledged hreached hjoin hspare hdelay⟩

end Session
end FloorControl
