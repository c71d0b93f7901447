import FloorControl.Proofs.Deeds

/-!
# Who comes next

What the arbitrator does when a party is to wait, and when a hold has ended, with the conditions
under which it does it: the second talker comes before the preemptor, the preemptor before the
queue, and a preemptor that meets a new holder has to preempt it as well.
-/

namespace FloorControl.Arbitrator

variable {t : Turn Arbitrator} {input : Input}

namespace Places

/-- A party is put into the queue if waiting is supported, it is willing to wait and there is room,
and turned down otherwise. -/
inductive Enlists (p : Places) (who : Talker) (willing : Bool) : List Envelope → Places → Prop
  | waits {queue : FloorQueue} {position : Nat} : p.config.queueingSupported = true →
      willing = true → p.queue.enqueue who = .ok (queue, position) →
      Enlists p who willing (lettersTo p.roster who.ssrc
        (.queuePositionInfo who.ssrc (UInt64.ofNat position) who.priority)) { p with queue := queue }
  | full {e : FloorError} : p.config.queueingSupported = true → willing = true →
      p.queue.enqueue who = .error e →
      Enlists p who willing (lettersTo p.roster who.ssrc
        (.denied who.ssrc .noResources p.config.ackRequired)) p
  | unwanted : (p.config.queueingSupported && willing) = false →
      Enlists p who willing (lettersTo p.roster who.ssrc
        (.denied who.ssrc .anotherUserHasPermission p.config.ackRequired)) p

/-- A preemptor that preempts the new holder too stays, and the new holder is told to give way; any
other waits like everybody else, or is turned down. -/
inductive Rejudges (p : Places) (holder : Talker) : List Envelope → Places → Prop
  | nobody : p.preemptor = none → Rejudges p holder [] p
  | again {who : Talker} : p.preemptor = some who → who.preempts holder = true →
      Rejudges p holder
        (lettersTo p.roster holder.ssrc (.revoke holder.ssrc .preempted p.config.ackRequired))
        { p with state := .pendingRevoke }
  | yields {who : Talker} {messages : List Envelope} {q : Places} : p.preemptor = some who →
      who.preempts holder = false → Enlists { p with preemptor := none } who true messages q →
      Rejudges p holder messages q

/-- A hold has ended, and the floor goes to the second talker, else to the preemptor, else to the
first in the queue, else to nobody. -/
inductive Succession (p : Places) (holder : Talker) : List Envelope → Places → Prop
  | second {second : Talker} {messages : List Envelope} {q : Places} : p.second = some second →
      (p.promoted second).Rejudges second messages q →
      Succession p holder (p.promotionLetters holder second ++ messages) q
  | preemptor {who : Talker} : p.second = none → p.preemptor = some who →
      Succession p holder
        (lettersTo p.roster holder.ssrc (.idle p.config.ackRequired) ++ p.grantLetters who)
        { p with holder := some who, preemptor := none, state := .taken }
  | first {entry : QueueEntry} {rest : List QueueEntry} : p.second = none → p.preemptor = none →
      p.queue.entries = entry :: rest →
      Succession p holder
        (lettersTo p.roster holder.ssrc (.idle p.config.ackRequired) ++
          p.grantLetters entry.talker)
        { p with
          holder := some entry.talker, queue := { p.queue with entries := rest }, state := .taken }
  | nobody : p.second = none → p.preemptor = none → p.queue.entries = [] →
      Succession p holder (lettersExcept p.roster none (.idle p.config.ackRequired))
        { p with holder := none, state := .idle }

variable {p q : Places} {who holder : Talker} {willing : Bool} {messages : List Envelope}

theorem Enlists.lines (h : p.Enlists who willing messages q) : p.Lines who messages q := by
  cases h with
  | waits _ _ hqueue => exact .waits hqueue
  | full _ _ _ => exact .denied _
  | unwanted _ => exact .denied _

theorem Rejudges.judges (h : p.Rejudges holder messages q) : p.Judges holder messages q := by
  cases h with
  | nobody hnone => exact .nobody hnone
  | again hpreemptor hpreempts => exact .again hpreemptor hpreempts
  | yields hpreemptor _ henlists => exact .yields hpreemptor henlists.lines

variable (input) in
theorem Succession.deed (h : p.Succession holder messages q) (hholder : p.holder = some holder) :
    Deed input p messages q := by
  cases h with
  | second hsecond hrejudges => exact .promoted hholder hsecond hrejudges.judges
  | preemptor hsecond hpreemptor => exact .succeeded hholder hsecond (.preemptor hpreemptor)
  | first hsecond hpreemptor hentries =>
    have hdeed : Deed input p _ _ := .succeeded hholder hsecond (.first hpreemptor hentries)
    rwa [← hpreemptor] at hdeed
  | nobody hsecond hpreemptor hentries => exact .ended hholder hsecond hpreemptor hentries

end Places

theorem enlists_queueOrDeny (who : Talker) (willing : Bool) (t : Turn Arbitrator) :
    ∃ messages, (queueOrDeny who willing t).out.messages = t.out.messages ++ messages ∧
      t.machine.places.Enlists who willing messages (queueOrDeny who willing t).machine.places := by
  simp only [queueOrDeny]
  split
  · next hsupported =>
    obtain ⟨hconfig, hwilling⟩ := Bool.and_eq_true_iff.mp hsupported
    split
    · next queue position hqueue =>
      have hpriority : (queue.get? who.ssrc).map (·.priority) = some who.priority :=
        (FloorQueue.position?_enqueue hqueue).2
      refine ⟨lettersTo t.machine.places.roster who.ssrc
        (.queuePositionInfo who.ssrc (UInt64.ofNat position) who.priority), ?_, ?_⟩
      · rw [messages_refreshT4, sendPosition, messages_sendTo]
        simp only [Turn.machine_update, Turn.out_update, hpriority, Option.getD_some]
        rfl
      · rw [places_refreshT4, machine_sendPosition]
        exact .waits hconfig hwilling hqueue
    · next e hqueue =>
      refine ⟨_, messages_sendTo _ _, ?_⟩
      rw [machine_deny]
      exact .full hconfig hwilling hqueue
  · next hunwanted =>
    refine ⟨_, messages_sendTo _ _, ?_⟩
    rw [machine_deny]
    exact .unwanted (Bool.not_eq_true _ ▸ hunwanted)

private theorem rejudges_promote (former second : Talker) (t : Turn Arbitrator)
    (hsecond : t.machine.places.second = none) :
    ∃ messages, (promote (some former) second t).out.messages = t.out.messages ++
        (t.machine.places.promotionLetters former second ++ messages) ∧
      (t.machine.places.promoted second).Rejudges second messages
        (promote (some former) second t).machine.places := by
  obtain ⟨u, hplaces, hmessages, heq⟩ := promote_eq former second t
  have hu : u.machine.places = t.machine.places.promoted second := by
    rw [hplaces, Places.promoted, ← hsecond]
  have hletters : u.out.messages =
      t.out.messages ++ t.machine.places.promotionLetters former second := hmessages
  have hpreemptor : (t.machine.places.promoted second).preemptor = t.machine.places.preemptor := rfl
  rw [heq]
  cases hp : t.machine.places.preemptor with
  | none =>
    refine ⟨[], by simpa using hletters, ?_⟩
    rw [hu]
    exact .nobody (hpreemptor.trans hp)
  | some p =>
    simp only
    split
    · next hpreempts =>
      have hheld : u.machine.places.holder = some second := by rw [hu]; rfl
      refine ⟨_, by rw [messages_revokeHolder _ hheld, hletters, List.append_assoc], ?_⟩
      rw [places_revokeHolder _ hheld, revokeMessage]
      have hconfig : u.machine.config = (t.machine.places.promoted second).config :=
        congrArg Places.config hu
      rw [hconfig, hu]
      exact .again (hpreemptor.trans hp) hpreempts
    · next hyields =>
      obtain ⟨messages, hlined, henlists⟩ :=
        enlists_queueOrDeny p true (u.update fun a => { a with preemptor := none })
      have hv : (u.update fun a => { a with preemptor := none }).machine.places =
          { t.machine.places.promoted second with preemptor := none } := by
        rw [← hu]
        rfl
      rw [hv] at henlists
      refine ⟨messages, ?_, .yields (hpreemptor.trans hp) (Bool.not_eq_true _ ▸ hyields) henlists⟩
      rw [hlined, Turn.out_update, hletters, List.append_assoc]

/-- The floor goes from its holder to a party that has waited. -/
private theorem dismissed_granted {p : Places} (holder : Talker) {who : Talker} {queue : FloorQueue}
    (hsecond : p.second = none)
    (hplaces : t.machine.places = { p with
      holder := none, second := none, preemptor := none, queue := queue })
    (hwaits : who.ssrc ∉ queue.waiting) (hout : t.out.messages = []) :
    (grant who (dismiss (some holder) t)).out.messages =
        lettersTo p.roster holder.ssrc (.idle p.config.ackRequired) ++ p.grantLetters who ∧
      (grant who (dismiss (some holder) t)).machine.places =
        { p with holder := some who, preemptor := none, queue := queue, state := .taken } := by
  constructor
  · have hconfig : t.machine.config = p.config := congrArg Places.config hplaces
    rw [messages_grant, messages_dismiss, machine_dismiss, hout, hplaces, List.nil_append,
      List.append_assoc]
    simp only [Places.grantLetters, grantedMessage, takenMessage, idleMessage, hconfig]
  · simp [hplaces, hsecond, FloorQueue.remove_of_not_mem hwaits]

/-- The end of a hold. The holder may have left. -/
theorem succession_endHolder {holder : Talker} (horderly : t.machine.places.Orderly)
    (hholder : t.machine.places.holder = some holder) (hout : t.out.messages = []) :
    t.machine.places.Succession holder (endHolder t).out.messages
      (endHolder t).machine.places := by
  have hdistinct := horderly.distinct
  cases hsecond : t.machine.places.second with
  | some second =>
    rw [endHolder_of_second hsecond, hholder]
    obtain ⟨messages, hmessages, hrejudges⟩ := rejudges_promote holder second (vacated t) rfl
    rw [hmessages, messages_vacated, hout, List.nil_append]
    exact .second hsecond hrejudges
  | none =>
    simp only [Places.placed, Places.talkers, hholder, hsecond] at hdistinct
    cases hpreemptor : t.machine.places.preemptor with
    | some who =>
      rw [endHolder_of_preemptor hsecond hpreemptor, hholder]
      have hwaits : who.ssrc ∉ t.machine.places.queue.waiting := by
        intro hmem
        simp [hpreemptor, hmem] at hdistinct
      obtain ⟨hmessages, hplaces⟩ := dismissed_granted holder hsecond
        (t := (vacated t).update fun a => { a with preemptor := none }) rfl hwaits hout
      rw [hmessages, hplaces]
      exact .preemptor hsecond hpreemptor
    | none =>
      cases hqueue : t.machine.places.queue.entries with
      | cons entry rest =>
        rw [endHolder_of_queue hsecond hpreemptor hqueue, hholder]
        set queue : FloorQueue := { t.machine.places.queue with entries := rest }
        have hwaits : entry.talker.ssrc ∉ queue.waiting := by
          intro hmem
          simp only [FloorQueue.waiting, hqueue, List.map_cons] at hdistinct
          have hwaiting := (List.nodup_append.mp hdistinct).2.1
          exact (List.nodup_cons.mp hwaiting).1 hmem
        obtain ⟨hmessages, hplaces⟩ := dismissed_granted holder hsecond
          (t := (vacated t).update fun a => { a with queue := { a.queue with entries := rest } })
          (congrArg (fun preemptor => { t.machine.places with
            holder := none, second := none, preemptor := preemptor, queue := queue }) hpreemptor)
          hwaits hout
        rw [hmessages, hplaces, ← hpreemptor]
        exact .first hsecond hpreemptor hqueue
      | nil =>
        rw [endHolder_of_nobody hsecond hpreemptor hqueue]
        have himplicit : t.machine.places.implicitRequest = none := by
          apply horderly.implicit_eq_none
          intro hstate
          have hoccupied := horderly.holder_occupied
          simp [hholder, hstate, ArbitratorState.occupied] at hoccupied
        have hstate : t.machine.places.state ≠ .idle := by
          intro hstate
          have hoccupied := horderly.holder_occupied
          simp [hholder, hstate, ArbitratorState.occupied] at hoccupied
        have hafter : ({ t.machine.places with holder := none, second := none, state := .idle } :
            Places) = { t.machine.places with holder := none, state := .idle } :=
          congrArg (fun second => { t.machine.places with
            holder := none, second := second, state := .idle }) hsecond.symm
        rw [becomeIdle_of_none (t := broadcast _ (vacated t)) hstate himplicit, messages_moveTo,
          messages_broadcast, places_moveTo, machine_broadcast, messages_vacated, hout,
          places_vacated, hafter]
        exact .nobody hsecond hpreemptor hqueue

/-- An unoccupied floor is given to a party. -/
theorem granted_of_vacant (who : Talker) {p : Places} {letters : List Envelope} (horderly : p.Orderly)
    (hvacant : p.state.occupied = false) (state : ArbitratorState)
    (hplaces : t.machine.places = { p with state := state, implicitRequest := none })
    (hout : t.out.messages = letters) :
    (grant who t).out.messages = letters ++ p.grantLetters who ∧
      (grant who t).machine.places =
        { p with holder := some who, state := .taken, implicitRequest := none } := by
  have hqueue : p.queue.remove who.ssrc = p.queue :=
    FloorQueue.remove_of_not_mem (by simp [horderly.waiting_eq_nil hvacant])
  have hconfig : t.machine.config = p.config := congrArg Places.config hplaces
  constructor
  · rw [messages_grant, hout, hplaces, List.append_assoc]
    simp only [Places.grantLetters, grantedMessage, takenMessage, hconfig]
  · simp [hplaces, hqueue]

end FloorControl.Arbitrator
