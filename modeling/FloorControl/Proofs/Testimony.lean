import FloorControl.Proofs.StepDeeds

/-!
# The arbitrator says what is so

Every message of the arbitrator goes to a party of the call and is true when the step is over, even
where it was put together in the middle of the step, before somebody else was moved.
-/

namespace FloorControl.Arbitrator

namespace Places

variable {p q : Places} {messages : List Envelope} {e : Envelope}

/-- A letter to a party of the roster whose message is true of the places. -/
def Vouches (p : Places) (e : Envelope) : Prop :=
  ∃ ssrc message, e = letterTo ssrc message ∧ p.roster.contains ssrc = true ∧
    p.Attests ssrc message

theorem vouches_of_lettersTo {ssrc : Ssrc} {message : Message}
    (he : e ∈ lettersTo p.roster ssrc message) (hattests : p.Attests ssrc message) :
    p.Vouches e := by
  obtain ⟨hknown, rfl⟩ := mem_lettersTo.mp he
  exact ⟨ssrc, message, rfl, hknown, hattests⟩

theorem vouches_of_lettersExcept {except : Option Ssrc} {message : Message}
    (he : e ∈ lettersExcept p.roster except message)
    (hattests : ∀ ssrc, p.Attests ssrc message) : p.Vouches e := by
  obtain ⟨ssrc, hknown, -, rfl⟩ := mem_lettersExcept.mp he
  exact ⟨ssrc, message, rfl, hknown, hattests ssrc⟩

/-- A grant and the news of it are true where the party that they name has the floor. -/
theorem vouches_of_grantLetters {who : Talker} (he : e ∈ p.grantLetters who)
    (hroster : q.roster = p.roster) (hholder : q.holder = some who) : q.Vouches e := by
  simp only [grantLetters, ← hroster] at he
  rcases List.mem_append.mp he with he | he
  · exact vouches_of_lettersTo he ⟨rfl, who, hholder, rfl, rfl⟩
  · exact vouches_of_lettersExcept he fun _ => ⟨who, hholder, rfl⟩

/-- A party that is to wait is told where it stands, and one that is turned down is nowhere. -/
theorem Lines.vouches {who : Talker} (h : p.Lines who messages q) (hroomy : p.queue.Roomy)
    (hunplaced : who.ssrc ∉ p.placed) : ∀ e ∈ messages, q.Vouches e := by
  intro e he
  cases h with
  | @waits queue position hqueue =>
    obtain ⟨hposition, hpriority⟩ := FloorQueue.position?_enqueue hqueue
    have htells := FloorQueue.tells_of_position? (hroomy.enqueue hqueue) hposition
    rw [hpriority, Option.getD_some] at htells
    exact vouches_of_lettersTo he ⟨rfl, .inl htells⟩
  | denied _ => exact vouches_of_lettersTo he ⟨rfl, hunplaced⟩

/-- When the preemptor is given up for another, or for nobody, it is in no place. -/
theorem not_placed_of_preemptor {who : Talker} {preemptor : Option Talker}
    (hdistinct : p.placed.Nodup) (hpreemptor : p.preemptor = some who)
    (hother : ∀ w ∈ preemptor, w.ssrc ∉ p.placed) :
    who.ssrc ∉ ({ p with preemptor := preemptor } : Places).placed := by
  obtain ⟨hsilent, hunqueued⟩ := preemptor_only hdistinct hpreemptor
  rw [mem_placed, mem_awaiting]
  rintro (htalks | ⟨w, hw, hsame⟩ | hqueued)
  · exact hsilent htalks
  · refine hother w hw ?_
    rw [hsame]
    exact mem_placed.mpr (.inr (mem_awaiting.mpr (.inl ⟨who, hpreemptor, rfl⟩)))
  · exact hunqueued hqueued

theorem Judges.vouches {holder : Talker} (h : p.Judges holder messages q)
    (hholder : p.holder = some holder) (hroomy : p.queue.Roomy) (hdistinct : p.placed.Nodup) :
    ∀ e ∈ messages, q.Vouches e := by
  intro e he
  cases h with
  | nobody _ => cases he
  | again _ _ => exact vouches_of_lettersTo he ⟨rfl, .inl ⟨⟨holder, hholder, rfl⟩, rfl⟩⟩
  | yields hpreemptor hlines =>
    exact hlines.vouches hroomy (not_placed_of_preemptor hdistinct hpreemptor (by simp)) e he

end Places

open Places

variable {p q : Places} {input : Input} {messages : List Envelope} {e : Envelope}

/-- Whatever the arbitrator does, what it says of it is true afterwards. -/
theorem Deed.vouches (h : Deed input p messages q) (horderly : p.Orderly)
    (hroomy : p.queue.Roomy) : ∀ e ∈ messages, q.Vouches e := by
  have hdistinct := horderly.distinct
  intro e he
  cases h with
  | still hnotes =>
    obtain ⟨ssrc, message, rfl, hknown, hattests, -⟩ := hnotes e he
    exact ⟨ssrc, message, rfl, hknown, hattests⟩
  | promised _ | gathering _ | parked _ _ _ | closed _ _ => cases he
  | opened _ _ => exact vouches_of_lettersExcept he fun _ => trivial
  | openedFor _ _ _ _ =>
    rcases List.mem_append.mp he with he | he
    · exact vouches_of_lettersExcept he fun _ => trivial
    · exact vouches_of_grantLetters he rfl rfl
  | granted _ _ => exact vouches_of_grantLetters he rfl rfl
  | @seconded who _ _ _ _ _ hknown =>
    rcases List.mem_cons.mp he with rfl | he
    · exact ⟨_, _, rfl, hknown, rfl, who, rfl, rfl, rfl⟩
    · exact vouches_of_lettersExcept he fun _ => ⟨who, rfl, rfl⟩
  | @preempted holder _ _ hholder _ _ | @overdue holder _ hholder =>
    exact vouches_of_lettersTo he ⟨rfl, .inl ⟨⟨holder, hholder, rfl⟩, rfl⟩⟩
  | displaced _ hpreemptor hnew hlines =>
    refine hlines.vouches hroomy (not_placed_of_preemptor hdistinct hpreemptor ?_) e he
    rintro _ ⟨⟩
    exact hnew
  | lined _ hnew hlines => exact hlines.vouches hroomy hnew e he
  | @promoted holder second _ _ hholder hsecond hjudges =>
    have hpromoted : (p.promoted second).placed.Nodup := by
      refine hdistinct.sublist ?_
      simp [placed, talkers, Places.promoted, hsecond]
    rcases List.mem_append.mp he with he | he
    · obtain ⟨state, queue, preemptor, rfl, -⟩ := hjudges.exists_places
      rcases List.mem_append.mp he with he | he
      · exact vouches_of_lettersTo he trivial
      · exact vouches_of_lettersExcept he fun _ => ⟨second, rfl, rfl⟩
    · exact hjudges.vouches rfl hroomy hpromoted e he
  | succeeded _ _ _ =>
    rcases List.mem_append.mp he with he | he
    · exact vouches_of_lettersTo he trivial
    · exact vouches_of_grantLetters he rfl rfl
  | ended _ _ _ _ => exact vouches_of_lettersExcept he fun _ => trivial
  | @relieved holder _ _ hholder _ =>
    exact vouches_of_lettersExcept he fun _ => ⟨holder, hholder, rfl⟩
  | @withdrawn _ holder _ hholder _ => exact vouches_of_lettersTo he ⟨holder, hholder, rfl⟩
  | exhausted _ hsecond =>
    exact vouches_of_lettersTo he ⟨rfl, .inr (second_only hdistinct hsecond)⟩
  | closing _ =>
    have hempty : p.emptied.placed = [] := rfl
    rcases List.mem_append.mp he with he | he
    · obtain ⟨who, -, he⟩ := List.mem_flatMap.mp he
      exact vouches_of_lettersTo he ⟨rfl, .inr (by simp [hempty])⟩
    · obtain ⟨ssrc, -, he⟩ := List.mem_flatMap.mp he
      exact vouches_of_lettersTo he ⟨rfl, by simp [hempty]⟩

/-- However an arbitrator is configured and whatever happened to it: every message of one more step
goes to a party of the call, and is true when the step is over. -/
theorem sent_true (callId : CallId) (callType : CallType) (config : ArbitratorConfig)
    (inputs : List Input) (input : Input) {a : Arbitrator} {e : Envelope}
    (ha : a = (create callId callType config).run inputs) (he : e ∈ a.sent input) :
    (a.after input).places.Vouches e := by
  rcases deed_run callId callType config inputs input ha with
    ⟨hsent, -⟩ | ⟨p, -, horderly, hroomy, hdeed⟩
  · rw [hsent] at he
    cases he
  · exact hdeed.vouches horderly hroomy e he

private def overheard : List Input :=
  [.add 1 1 true, .add 2 2 false, .add 3 3 false, .initialized 1, .initialized 2, .initialized 3,
    .receive (.request ⟨1, 1, .normal, false, true⟩),
    .receive (.request ⟨2, 2, .imminentPeril, true, true⟩),
    .receive (.request ⟨3, 3, .normal, false, true⟩)]

/-- A preemptor that does not preempt the second talker, who has the floor now, is told the place
that it waits at. -/
theorem judged_again_true :
    let a := (create 1 .basic { dualFloorSupported := true }).run overheard
    let input := Input.receive (.release 1)
    let letter := letterTo 3 (.queuePositionInfo 3 1 3)
    letter ∈ a.sent input ∧ (a.after input).places.Vouches letter :=
  ⟨by decide +kernel,
    sent_true 1 .basic { dualFloorSupported := true } overheard _ rfl (by decide +kernel)⟩

end FloorControl.Arbitrator
