import FloorControl.Proofs.StepDeeds

/-!
# Every request is answered or parked

While the floor is open, the sender of a request is sent one message, its answer, or it is sent
nothing and has become the preemptor. A party that has a place keeps it as it is, and at most one
party enters the queue: the sender, or the preemptor that it has displaced.
-/

namespace FloorControl

namespace FloorQueue

variable {q queue : FloorQueue} {who : Talker} {position : Nat}

def Gains (q : FloorQueue) (who : Talker) (queue : FloorQueue) : Prop :=
  ∃ before entry after, q.entries = before ++ after ∧ queue.entries = before ++ entry :: after ∧
    entry.talker = who

theorem gains_of_enqueue (h : q.enqueue who = .ok (queue, position)) : q.Gains who queue := by
  obtain ⟨-, -, rfl, -⟩ := enqueue_eq_ok h
  exact ⟨_, _, _, (ahead_append_behind who.priority q.entries).symm, rfl, rfl⟩

end FloorQueue

namespace Arbitrator

variable {p q : Places} {x : Ssrc} {r : Request} {who : Talker} {willing : Bool}
  {messages : List Envelope} {message : Message}

def mailFor (x : Ssrc) (messages : List Envelope) : List Message :=
  (messages.filter (·.receiver = .participant x)).map (·.message)

@[simp] theorem mailFor_nil : mailFor x [] = [] := rfl

@[simp] theorem mailFor_append (more : List Envelope) :
    mailFor x (messages ++ more) = mailFor x messages ++ mailFor x more := by
  simp [mailFor]

@[simp] theorem mailFor_cons_self :
    mailFor x (letterTo x message :: messages) = message :: mailFor x messages := by
  simp [mailFor, letterTo]

theorem mailFor_lettersTo {roster : Roster Proxy} (hknown : roster.contains x = true) :
    mailFor x (lettersTo roster x message) = [message] := by
  simp [lettersTo, hknown]

/-- Letters to others are not for the party. -/
theorem mailFor_eq_nil (h : ∀ e ∈ messages, e.receiver ≠ .participant x) :
    mailFor x messages = [] := by
  rw [mailFor, List.map_eq_nil_iff, List.filter_eq_nil_iff]
  exact fun e he heq => h e he (of_decide_eq_true heq)

theorem mailFor_lettersTo_of_ne {roster : Roster Proxy} {y : Ssrc} (hne : y ≠ x) :
    mailFor x (lettersTo roster y message) = [] := by
  apply mailFor_eq_nil
  intro e he
  rw [(mem_lettersTo.mp he).2]
  simpa [letterTo] using hne

theorem mailFor_lettersExcept {roster : Roster Proxy} :
    mailFor x (lettersExcept roster (some x) message) = [] := by
  apply mailFor_eq_nil
  intro e he
  obtain ⟨y, -, hne, rfl⟩ := mem_lettersExcept.mp he
  simpa [letterTo] using hne

/-- The messages by which a request of the party is answered. -/
def Answers (x : Ssrc) : Message → Prop
  | .granted named .. | .queuePositionInfo named .. | .denied named .. => named = x
  | _ => False

/-- What a request has come to: its sender was sent one answer or is parked, keeps the place that it
had, and the queue has gained at most the sender or the preemptor that it has displaced. -/
structure Places.Heeds (p : Places) (r : Request) (mail : List Message) (q : Places) : Prop where
  answered : (∃ message, mail = [message] ∧ Answers r.ssrc message) ∨
    mail = [] ∧ r.ssrc ∉ p.placed ∧ q.preemptor = some r.talker
  kept : r.ssrc ∈ p.placed → q = p
  queue : q.queue = p.queue ∨ ∃ who, p.queue.Gains who q.queue ∧
    (who = r.talker ∨ p.preemptor = some who ∧ q.preemptor = some r.talker)

namespace Places

theorem Enlists.queue (h : p.Enlists who willing messages q) :
    q.queue = p.queue ∨ p.queue.Gains who q.queue := by
  cases h with
  | waits _ _ hqueue => exact .inr (FloorQueue.gains_of_enqueue hqueue)
  | full _ _ _ | unwanted _ => exact .inl rfl

theorem Enlists.answers (h : p.Enlists who willing messages q)
    (hknown : p.roster.contains who.ssrc = true) :
    ∃ message, mailFor who.ssrc messages = [message] ∧ Answers who.ssrc message := by
  cases h with
  | waits _ _ _ => exact ⟨_, mailFor_lettersTo hknown, rfl⟩
  | full _ _ _ | unwanted _ => exact ⟨_, mailFor_lettersTo hknown, rfl⟩

theorem Enlists.mailFor_of_ne (h : p.Enlists who willing messages q) (hne : who.ssrc ≠ x) :
    mailFor x messages = [] := by
  cases h with
  | waits _ _ _ | full _ _ _ | unwanted _ => exact mailFor_lettersTo_of_ne hne

/-- The sender of the request becomes the preemptor, and hears nothing for now. -/
private theorem heeds_of_parked {mail : List Message} (hnew : Newcomer p r.talker)
    (hsilent : mail = []) (hpreemptor : q.preemptor = some r.talker)
    (hqueue : q.queue = p.queue ∨ ∃ former, p.preemptor = some former ∧
      p.queue.Gains former q.queue) : p.Heeds r mail q where
  answered := .inr ⟨hsilent, hnew.unplaced, hpreemptor⟩
  kept hplaced := absurd hplaced hnew.unplaced
  queue := hqueue.imp_right fun ⟨former, hformer, hgains⟩ =>
    ⟨former, hgains, .inr ⟨hformer, hpreemptor⟩⟩

/-- The sender of the request gets an answer. -/
private theorem heeds_of_answered {mail : List Message} (hunplaced : r.ssrc ∉ p.placed)
    (hanswer : ∃ message, mail = [message] ∧ Answers r.ssrc message)
    (hqueue : q.queue = p.queue ∨ p.queue.Gains r.talker q.queue) : p.Heeds r mail q where
  answered := .inl hanswer
  kept hplaced := absurd hplaced hunplaced
  queue := hqueue.imp_right fun hgains => ⟨r.talker, hgains, .inl rfl⟩

theorem Response.heeds (h : p.Response r messages q) (hknown : p.roster.contains r.ssrc = true) :
    p.Heeds r (mailFor r.ssrc messages) q := by
  have hother {who : Talker} (hnew : Newcomer p r.talker) (hplaced : who.ssrc ∈ p.placed) :
      who.ssrc ≠ r.ssrc :=
    fun heq => hnew.unplaced (show r.ssrc ∈ p.placed from heq ▸ hplaced)
  cases h with
  | @again message _ hattests hkind =>
    refine ⟨.inl ⟨message, by simp, ?_⟩, fun _ => rfl, .inl rfl⟩
    cases message with
    | granted | queuePositionInfo => exact hattests.1
    | _ => simp [Message.kind] at hkind
  | listens hunplaced _ =>
    exact heeds_of_answered hunplaced ⟨_, mailFor_cons_self, rfl⟩ (.inl rfl)
  | granted _ hnew =>
    have hmail : mailFor r.ssrc (p.grantLetters r.talker) =
        [.granted r.ssrc r.priority p.config.t2 false p.config.ackRequired] := by
      rw [grantLetters, mailFor_append]
      exact congrArg₂ (· ++ ·) (mailFor_lettersTo hknown) mailFor_lettersExcept
    exact heeds_of_answered hnew.unplaced ⟨_, hmail, rfl⟩ (.inl rfl)
  | @seconded _ duration ack _ hnew =>
    have hmail : mailFor r.ssrc
        (letterTo r.ssrc (.granted r.ssrc r.priority duration true ack) ::
          lettersExcept p.roster (some r.ssrc) (.taken r.ssrc true ack)) =
        [.granted r.ssrc r.priority duration true ack] := by
      rw [mailFor_cons_self, mailFor_lettersExcept]
    exact heeds_of_answered hnew.unplaced ⟨_, hmail, rfl⟩ (.inl rfl)
  | preempted _ hnew hholder =>
    have hplaced := talkers_subset_placed (holder_mem_talkers hholder)
    exact heeds_of_parked hnew (mailFor_lettersTo_of_ne (hother hnew hplaced)) rfl (.inl rfl)
  | parked _ hnew => exact heeds_of_parked hnew rfl rfl (.inl rfl)
  | @displaced _ former _ _ _ hnew _ _ hformer _ henlists =>
    have hplaced : former.ssrc ∈ p.placed :=
      mem_placed.mpr (.inr (mem_awaiting.mpr (.inl ⟨former, hformer, rfl⟩)))
    have hqueue := henlists.queue
    obtain ⟨queue, rfl, -⟩ := henlists.lines.exists_queue
    exact heeds_of_parked hnew (henlists.mailFor_of_ne (hother hnew hplaced)) rfl
      (hqueue.imp_right fun hgains => ⟨former, hformer, hgains⟩)
  | enlisted _ hnew _ _ henlists =>
    exact heeds_of_answered hnew.unplaced (henlists.answers hknown) henlists.queue

end Places

/-- However an arbitrator is configured and whatever happened to it: while the floor is open, the
sender of a request is answered or parked. -/
theorem request_heeded (callId : CallId) (callType : CallType) (config : ArbitratorConfig)
    (inputs : List Input) (r : Request) {a : Arbitrator}
    (ha : a = (create callId callType config).run inputs)
    (hopen : a.state = .idle ∨ a.state = .taken ∨ a.state = .pendingRevoke)
    (hknown : a.roster.contains r.ssrc = true) :
    ∃ t, a.handle (.receive (.request r)) = .ok t ∧
      a.places.Heeds r (t.out.messagesTo (.participant r.ssrc)) t.machine.places := by
  have hsound : a.places.Sound := ha ▸ sound_run callId callType config inputs
  have hroomy : a.places.queue.Roomy := ha ▸ roomy_run callId callType config inputs
  have hopen : a.places.state = .idle ∨ a.places.state.occupied = true := by
    refine hopen.imp_right fun hheld => ?_
    change a.state.occupied = true
    rcases hheld with hheld | hheld <;> rw [hheld] <;> rfl
  have hresponse := response_receiveRequest (t := ⟨a, {}⟩) (r := r) hsound hroomy rfl hopen hknown
  exact ⟨_, rfl, hresponse.heeds hknown⟩

private def pressed : List Input :=
  [.add 1 1 true, .add 2 2 false, .add 3 3 false, .add 4 4 false, .initialized 1, .initialized 2,
    .initialized 3, .initialized 4, .receive (.request ⟨1, 9, .normal, false, true⟩),
    .receive (.request ⟨2, 2, .normal, false, true⟩),
    .receive (.request ⟨3, 3, .imminentPeril, false, true⟩)]

/-- The fourth party becomes the preemptor without a word, and the third waits before the second. -/
theorem request_heeded_pressed :
    let a := (create 1 .basic {}).run pressed
    let r : Request := ⟨4, 4, .emergency, false, true⟩
    (a.after (.receive (.request r))).queue.waiting = [3, 2] ∧
      ∃ t, a.handle (.receive (.request r)) = .ok t ∧
        a.places.Heeds r (t.out.messagesTo (.participant r.ssrc)) t.machine.places :=
  ⟨by decide +kernel,
    request_heeded 1 .basic {} pressed _ rfl (by decide +kernel) (by decide +kernel)⟩

end Arbitrator
end FloorControl
