import FloorControl.Proofs.StepDeeds
import Mathlib.Data.List.Induction

/-!
# Consent to wait

A party that wants the floor says whether it is willing to wait in the queue. A party gets into the
queue in one of two ways. Either its request puts it there, and then the request was willing and the
call lets parties wait. Or it was the preemptor, and it is put there because another party preempts
it or because the second talker has been promoted; then the request is not looked at again. So
everybody in the queue has agreed to wait there unless a preemptor that has not agreed is put there.
-/

namespace FloorControl.Arbitrator

variable {a : Arbitrator} {t u : Turn Arbitrator} {p q s : Places} {input : Input} {x : Ssrc}
  {who holder : Talker} {r : Request} {messages : List Envelope} {inputs : List Input}

namespace Places

/-- Nobody comes to wait, and nobody enters the queue but the preemptor, if the call lets parties
wait at all. -/
structure Sifts (p q : Places) : Prop where
  config : q.config = p.config
  preemptor : ∀ who ∈ q.preemptor, who ∈ p.preemptor
  queue : ∀ x ∈ q.queue.waiting, x ∈ p.queue.waiting ∨
    p.config.queueingSupported = true ∧ ∃ who ∈ p.preemptor, who.ssrc = x

namespace Sifts

/-- Parties that wait may go. -/
theorem of_subset (hconfig : q.config = p.config)
    (hpreemptor : ∀ who ∈ q.preemptor, who ∈ p.preemptor)
    (hqueue : q.queue.waiting ⊆ p.queue.waiting) : p.Sifts q :=
  ⟨hconfig, hpreemptor, fun _ hwaits => .inl (hqueue hwaits)⟩

theorem refl (p : Places) : p.Sifts p :=
  .of_subset rfl (fun _ h => h) (List.Subset.refl _)

theorem trans (h : p.Sifts q) (h' : q.Sifts s) : p.Sifts s where
  config := h'.config.trans h.config
  preemptor who hwho := h.preemptor who (h'.preemptor who hwho)
  queue x hwaits := by
    rcases h'.queue x hwaits with hwaited | ⟨hsupported, who, hwho, rfl⟩
    · exact h.queue x hwaited
    · exact .inr ⟨h.config ▸ hsupported, who, h.preemptor who hwho, rfl⟩

theorem awaiting (h : p.Sifts q) : q.awaiting ⊆ p.awaiting := by
  intro x hwaits
  rcases mem_awaiting.mp hwaits with ⟨who, hwho, hsame⟩ | hqueued
  · exact mem_awaiting.mpr (.inl ⟨who, h.preemptor who hwho, hsame⟩)
  · exact mem_awaiting.mpr ((h.queue x hqueued).symm.imp_left And.right)

end Sifts

theorem waiting_remove_subset (queue : FloorQueue) (ssrc : Ssrc) :
    (queue.remove ssrc).waiting ⊆ queue.waiting := by
  rw [FloorQueue.waiting_remove]
  exact List.filter_sublist.subset

theorem sifts_without (p : Places) (ssrc : Ssrc) : p.Sifts (p.without ssrc) :=
  .of_subset rfl (fun _ hwho => (Option.mem_filter_iff.mp hwho).1) (waiting_remove_subset _ _)

/-- Where somebody is made to wait, it was willing and the call lets parties wait. -/
theorem Enlists.queue_waiting {willing : Bool} (h : p.Enlists who willing messages q) :
    q = { p with queue := q.queue } ∧ ∀ x ∈ q.queue.waiting, x ∈ p.queue.waiting ∨
      p.config.queueingSupported = true ∧ willing = true ∧ who.ssrc = x := by
  cases h with
  | waits hsupported hwilling hqueue =>
    refine ⟨rfl, fun x hwaits => ?_⟩
    rcases List.mem_cons.mp ((FloorQueue.waiting_enqueue hqueue).subset hwaits) with rfl | hwaited
    · exact .inr ⟨hsupported, hwilling, rfl⟩
    · exact .inl hwaited
  | full | unwanted => exact ⟨rfl, fun _ => .inl⟩

/-- A preemptor may be put into the queue when it is judged again. -/
theorem Rejudges.sifts (h : p.Rejudges holder messages q) : p.Sifts q := by
  cases h with
  | nobody => exact .refl p
  | again => exact .of_subset rfl (fun _ h => h) (List.Subset.refl _)
  | @yields who _ _ hpreemptor _ henlists =>
    obtain ⟨heq, hqueue⟩ := henlists.queue_waiting
    rw [heq]
    refine ⟨rfl, by simp, fun x hwaits => (hqueue x hwaits).imp_right ?_⟩
    rintro ⟨hsupported, -, hsame⟩
    exact ⟨hsupported, who, hpreemptor, hsame⟩

/-- When a hold ends, those that wait move up. -/
theorem Succession.sifts (h : p.Succession holder messages q) : p.Sifts q := by
  cases h with
  | @second second _ _ _ hrejudges =>
    have hpromoted : p.Sifts (p.promoted second) :=
      .of_subset rfl (fun _ h => h) (List.Subset.refl _)
    exact hpromoted.trans hrejudges.sifts
  | preemptor => exact .of_subset rfl (by simp) (List.Subset.refl _)
  | @first entry rest _ _ hentries =>
    refine .of_subset rfl (fun _ h => h) ?_
    simp only [FloorQueue.waiting, hentries, List.map_cons]
    exact List.subset_cons_self _ _
  | nobody => exact .of_subset rfl (by simp) (by simp [FloorQueue.waiting])

end Places

private theorem sifts_of_places (h : u.machine.places = t.machine.places) :
    t.machine.places.Sifts u.machine.places := by
  rw [h]
  exact .refl _

private theorem sifts_moveTo (next : ArbitratorState) (t : Turn Arbitrator) :
    t.machine.places.Sifts (moveTo next t).machine.places := by
  rw [places_moveTo]
  exact .of_subset rfl (fun _ h => h) (List.Subset.refl _)

private theorem sifts_grantImplicit (ssrc : Ssrc) (t : Turn Arbitrator) :
    t.machine.places.Sifts (grantImplicit ssrc t).machine.places := by
  rcases grantImplicit_cases ssrc t with ⟨-, heq⟩ | ⟨who, -, -, heq⟩
  · rw [heq]
    exact .refl _
  · rw [heq, places_grant]
    exact .of_subset rfl (fun _ h => h) (Places.waiting_remove_subset _ _)

private theorem sifts_checkReady (t : Turn Arbitrator) :
    t.machine.places.Sifts (checkReady t).machine.places := by
  simp only [checkReady, becomeIdle]
  split
  · split
    · exact .refl _
    · split
      · exact sifts_moveTo .idle (broadcast t.machine.idleMessage t)
      · refine (sifts_moveTo .idle (broadcast t.machine.idleMessage t)).trans ?_
        refine .trans ?_ (sifts_grantImplicit _ _)
        exact .of_subset rfl (fun _ h => h) (List.Subset.refl _)
  · exact .refl _

private theorem sifts_revokeHolder (cause : RevokeCause) (t : Turn Arbitrator) :
    t.machine.places.Sifts (revokeHolder cause t).machine.places := by
  cases hholder : t.machine.places.holder with
  | none => exact sifts_of_places (congrArg (·.machine.places) (revokeHolder_none cause hholder))
  | some who =>
    rw [places_revokeHolder cause hholder]
    exact .of_subset rfl (fun _ h => h) (List.Subset.refl _)

private theorem sifts_endHolder (horderly : t.machine.places.Orderly)
    (hholder : t.machine.places.holder = some holder) (hout : t.out.messages = []) :
    t.machine.places.Sifts (endHolder t).machine.places :=
  (succession_endHolder horderly hholder hout).sifts

private theorem sifts_receiveRelease (ssrc : Ssrc) (hsound : a.places.Sound) :
    a.places.Sifts (receiveRelease ssrc ⟨a, {}⟩).machine.places := by
  simp only [receiveRelease]
  split
  · split
    · exact sifts_of_places (t := ⟨a, {}⟩) (by rw [machine_sendTo])
    · exact .refl _
  split
  · next hheld =>
    simp only [isHolder, Option.any_eq_true_iff_get, decide_eq_true_eq] at hheld
    obtain ⟨hsome, -⟩ := hheld
    have hholder : a.places.holder = some (a.holder.get hsome) := (Option.some_get hsome).symm
    exact sifts_endHolder (t := ⟨a, {}⟩) hsound.toOrderly hholder rfl
  split
  · split <;> exact .of_subset rfl (fun _ h => h) (List.Subset.refl _)
  · have hplaces (v : Turn Arbitrator) : (sendTaken ssrc v).machine.places = v.machine.places := by
      simp only [sendTaken]
      split
      · rw [machine_sendTo]
      · rfl
    rw [places_refreshT4, hplaces]
    exact .of_subset rfl (fun _ hwho => (Option.mem_filter_iff.mp hwho).1)
      (Places.waiting_remove_subset _ _)

private theorem sifts_receive (message : Message) (hsound : a.places.Sound)
    (hother : ∀ r, message ≠ .request r) :
    a.places.Sifts (receive message ⟨a, {}⟩).machine.places := by
  have hsame {v : Turn Arbitrator} (h : v.machine.places = a.places) :
      a.places.Sifts v.machine.places := sifts_of_places (t := ⟨a, {}⟩) h
  cases message with
  | request r => exact absurd rfl (hother r)
  | release ssrc => exact sifts_receiveRelease ssrc hsound
  | queuePositionRequest ssrc =>
    simp only [receive, receiveQueuePositionRequest]
    split
    · exact hsame (by rw [machine_sendPosition])
    · split
      · exact hsame (by rw [machine_sendPreemptorPosition])
      · exact hsame rfl
  | ack ssrc acked => exact hsame (places_receiveAck ssrc acked a)
  | granted | denied | idle | taken | revoke | queuePositionInfo => exact hsame rfl

private theorem sifts_expire (ticket : Ticket) (hsound : a.places.Sound) :
    a.places.Sifts (expire ticket ⟨a, {}⟩).machine.places := by
  have hsame {v : Turn Arbitrator} (h : v.machine.places = a.places) :
      a.places.Sifts v.machine.places := sifts_of_places (t := ⟨a, {}⟩) h
  simp only [expire]
  split
  · split
    · simp only [expireT1]
      split
      · refine hsame ?_
        change (sendTo _ _ _).machine.places = _
        rw [machine_sendTo]
        rfl
      · exact hsame rfl
    · exact hsame rfl
  · split
    · simp only [expireT2]
      split
      · exact sifts_revokeHolder .maxDuration
          ((⟨a, {}⟩ : Turn Arbitrator).update fun a => { a with t2 := a.t2.rest })
      · exact hsame rfl
    · exact hsame rfl
  · split
    · simp only [expireT3]
      split
      · next hstate =>
        have hoccupied : a.places.state.occupied = true := by
          change a.state.occupied = true
          have hstate : a.state = .pendingRevoke := hstate
          rw [hstate]
          rfl
        obtain ⟨holder, hholder⟩ := hsound.exists_holder hoccupied
        exact sifts_endHolder
          (t := (⟨a, {}⟩ : Turn Arbitrator).update fun a => { a with t3 := a.t3.rest })
          hsound.toOrderly hholder rfl
      · exact hsame rfl
    · exact hsame rfl
  · split
    · refine hsame ?_
      rw [expireT4, places_refreshT4, machine_sendPositions]
      rfl
    · exact hsame rfl
  · split
    · simp only [expireT7]
      split
      · split
        · exact hsame rfl
        · exact hsame rfl
      · exact hsame rfl
    · exact hsame rfl
  · simp only [expireT20]
    have hdual (dual : DualFloor) : a.places.Sifts ({ a with dual := dual } : Arbitrator).places :=
      .of_subset rfl (fun _ h => h) (List.Subset.refl _)
    split
    · rw [Turn.machine_tell, machine_sendTo]
      exact hdual _
    all_goals exact hdual _
  all_goals exact hsame rfl

private theorem sifts_callInitialized (ssrc : Ssrc) (h : callInitialized ssrc ⟨a, {}⟩ = .ok t) :
    a.places.Sifts t.machine.places := by
  simp only [callInitialized] at h
  split at h
  · cases h
  cases h
  set v := (⟨a, {}⟩ : Turn Arbitrator).update fun a =>
    { a with roster := a.roster.modify ssrc fun proxy => { proxy with ready := true } } with hv
  have hready : a.places.Sifts v.machine.places :=
    .of_subset rfl (fun _ h => h) (List.Subset.refl _)
  have htold (message : Message) : a.places.Sifts (sendTo ssrc message v).machine.places := by
    rw [machine_sendTo]
    exact hready
  split
  · exact hready.trans ((sifts_moveTo _ _).trans (sifts_checkReady _))
  · exact hready.trans (sifts_checkReady _)
  · exact htold _
  · split
    · exact htold _
    · exact hready
  · split
    · exact htold _
    · exact hready
  · exact hready

private theorem sifts_implicitFloorRequest (ssrc : Ssrc)
    (h : implicitFloorRequest ssrc ⟨a, {}⟩ = .ok t) : a.places.Sifts t.machine.places := by
  simp only [implicitFloorRequest] at h
  split at h
  · cases h
  cases h
  split
  · exact sifts_grantImplicit ssrc ⟨a, {}⟩
  · exact .of_subset rfl (fun _ h => h) (List.Subset.refl _)
  all_goals exact .refl _

private theorem sifts_clientRelease (ssrc : Ssrc) (hsound : a.places.Sound)
    (h : clientRelease ssrc ⟨a, {}⟩ = .ok t) : a.places.Sifts t.machine.places := by
  rw [eq_of_clientRelease h]
  have hforgotten : a.places.Sifts (forgotten ssrc ⟨a, {}⟩).machine.places := by
    rw [places_forgotten]
    exact Places.sifts_without _ ssrc
  have horderly : (forgotten ssrc ⟨a, {}⟩).machine.places.Orderly :=
    places_forgotten ssrc ⟨a, {}⟩ ▸ orderly_without ssrc hsound.toOrderly
  set v := forgotten ssrc ⟨a, {}⟩
  have hrelieved : a.places.Sifts (relieved ssrc v).machine.places := by
    simp only [relieved]
    split
    · next hheld =>
      simp only [isHolder, Bool.and_eq_true, Option.any_eq_true_iff_get, decide_eq_true_eq] at hheld
      obtain ⟨⟨hsome, -⟩, -⟩ := hheld
      have hholder : v.machine.places.holder = some (v.machine.holder.get hsome) :=
        (Option.some_get hsome).symm
      exact hforgotten.trans (sifts_endHolder horderly hholder rfl)
    · rw [places_refreshT4]
      exact hforgotten
  split
  · exact hrelieved.trans (sifts_checkReady _)
  · exact hrelieved

/-- Nobody comes to wait but with a request. -/
theorem sifts_handle (hsound : a.places.Sound) (hother : ∀ r, input ≠ .receive (.request r))
    (ht : a.handle input = .ok t) : a.places.Sifts t.machine.places := by
  cases input with
  | add ssrc priority originator =>
    simp only [handle, addParticipant] at ht
    split at ht
    · cases ht
    · cases ht
      exact .of_subset rfl (fun _ h => h) (List.Subset.refl _)
  | initialized ssrc => exact sifts_callInitialized ssrc ht
  | implicitRequest ssrc => exact sifts_implicitFloorRequest ssrc ht
  | leave ssrc => exact sifts_clientRelease ssrc hsound ht
  | receive message =>
    cases ht
    exact sifts_receive message hsound fun r heq => hother r (heq ▸ rfl)
  | expire ticket =>
    cases ht
    exact sifts_expire ticket hsound
  | beginRelease =>
    cases ht
    rw [places_beginRelease]
    exact .of_subset rfl (by simp [Places.emptied]) (by simp [Places.emptied])
  | finishRelease =>
    cases ht
    simp only [finishRelease]
    split
    · rw [places_moveTo]
      exact .of_subset rfl (fun _ h => h) (List.Subset.refl _)
    · exact .refl _
  | stopTimers =>
    cases ht
    exact .of_subset rfl (fun _ h => h) (List.Subset.refl _)

structure Places.Admits (p : Places) (r : Request) (q : Places) : Prop where
  config : q.config = p.config
  comes : ∀ x ∈ q.awaiting, x ∈ p.awaiting ∨ r.ssrc = x
  /-- The queue is entered by the preemptor, or by the sender of the request if it is willing. -/
  enters : ∀ x ∈ q.queue.waiting, x ∈ p.queue.waiting ∨
    p.config.queueingSupported = true ∧
      ((∃ who ∈ p.preemptor, who.ssrc = x) ∨ r.ssrc = x ∧ r.queueing = true)

namespace Places

theorem Sifts.admits (h : p.Sifts q) : p.Admits r q where
  config := h.config
  comes _ hwaits := .inl (h.awaiting hwaits)
  enters x hwaits := (h.queue x hwaits).imp_right fun ⟨hsupported, hwho⟩ => ⟨hsupported, .inl hwho⟩

/-- The queue stays as it is. -/
private theorem admits_of_queue (hconfig : q.config = p.config) (hqueue : q.queue = p.queue)
    (hpreemptor : ∀ who ∈ q.preemptor, who ∈ p.preemptor ∨ who.ssrc = r.ssrc) : p.Admits r q where
  config := hconfig
  comes x hwaits := by
    rcases mem_awaiting.mp hwaits with ⟨who, hwho, rfl⟩ | hqueued
    · exact (hpreemptor who hwho).imp (fun h => mem_awaiting.mpr (.inl ⟨who, h, rfl⟩)) Eq.symm
    · exact .inl (mem_awaiting.mpr (.inr (hqueue ▸ hqueued)))
  enters x hwaits := .inl (hqueue ▸ hwaits)

theorem Response.admits (h : p.Response r messages q) : p.Admits r q := by
  cases h with
  | again | listens => exact (Sifts.refl p).admits
  | granted | seconded => exact admits_of_queue rfl rfl fun who hwho => .inl hwho
  | preempted | parked =>
    refine admits_of_queue rfl rfl fun who hwho => .inr ?_
    rw [← Option.mem_some.mp hwho]
    rfl
  | @displaced _ former _ _ _ _ _ _ hformer _ henlists =>
    obtain ⟨heq, hqueue⟩ := henlists.queue_waiting
    have hentered : ∀ x ∈ q.queue.waiting, x ∈ p.queue.waiting ∨
        p.config.queueingSupported = true ∧ ∃ who ∈ p.preemptor, who.ssrc = x := fun x hwaits =>
      (hqueue x hwaits).imp_right fun ⟨hsupported, _, hsame⟩ =>
        ⟨hsupported, former, hformer, hsame⟩
    refine ⟨by rw [heq], fun x hwaits => ?_, fun x hwaits => ?_⟩
    · rcases mem_awaiting.mp hwaits with ⟨who, hwho, rfl⟩ | hqueued
      · rw [heq] at hwho
        rw [← Option.mem_some.mp hwho]
        exact .inr rfl
      · exact .inl (mem_awaiting.mpr ((hentered x hqueued).symm.imp_left And.right))
    · exact (hentered x hwaits).imp_right fun ⟨hsupported, hwho⟩ => ⟨hsupported, .inl hwho⟩
  | enlisted _ _ _ _ henlists =>
    obtain ⟨heq, hqueue⟩ := henlists.queue_waiting
    refine ⟨by rw [heq], fun x hwaits => ?_, fun x hwaits => ?_⟩
    · rcases mem_awaiting.mp hwaits with hwho | hqueued
      · rw [heq] at hwho
        exact .inl (mem_awaiting.mpr (.inl hwho))
      · exact (hqueue x hqueued).imp (fun h => mem_awaiting.mpr (.inr h)) fun h => h.2.2
    · exact (hqueue x hwaits).imp_right fun ⟨hsupported, hwilling, hsame⟩ =>
        ⟨hsupported, .inr ⟨hsame, hwilling⟩⟩

/-- A request that is not willing to wait does not put its sender into the queue. -/
theorem Response.unqueued (h : p.Response r messages q) (hunwilling : r.queueing = false)
    (hwaits : r.ssrc ∈ q.queue.waiting) : r.ssrc ∈ p.placed := by
  rcases h.admits.enters _ hwaits with hqueued | ⟨-, ⟨who, hwho, hsame⟩ | ⟨-, hwilling⟩⟩
  · exact mem_placed.mpr (.inr (mem_awaiting.mpr (.inr hqueued)))
  · exact mem_placed.mpr (.inr (mem_awaiting.mpr (.inl ⟨who, hwho, hsame⟩)))
  · exact absurd (hunwilling.symm.trans hwilling) (by decide)

/-- Its sender talks, or is parked, or is turned down. -/
theorem Response.unwilling (h : p.Response r messages q) (hunwilling : r.queueing = false)
    (hnew : r.ssrc ∉ p.placed) (hknown : p.roster.contains r.ssrc = true) :
    r.ssrc ∈ q.talkers ∨ q.preemptor = some r.talker ∨
      ∃ cause, letterTo r.ssrc (.denied r.ssrc cause p.config.ackRequired) ∈ messages := by
  cases h with
  | again hplaced => exact absurd hplaced hnew
  | listens => exact .inr (.inr ⟨_, List.mem_singleton_self _⟩)
  | granted => exact .inl (mem_talkers.mpr (.inl ⟨r.talker, rfl, rfl⟩))
  | seconded => exact .inl (mem_talkers.mpr (.inr ⟨r.talker, rfl, rfl⟩))
  | preempted | parked => exact .inr (.inl rfl)
  | displaced _ _ _ _ _ _ henlists =>
    rw [henlists.queue_waiting.1]
    exact .inr (.inl rfl)
  | enlisted _ _ _ _ henlists =>
    cases henlists with
    | waits _ hwilling | full _ hwilling =>
      exact absurd (hunwilling.symm.trans hwilling) (by decide)
    | unwanted => exact .inr (.inr ⟨_, mem_lettersTo.mpr ⟨hknown, rfl⟩⟩)

end Places

/-- A request that is not heard changes nothing. -/
private theorem receiveRequest_unheard {t : Turn Arbitrator}
    (h : t.machine.roster.contains r.ssrc = false ∨
      t.machine.state ≠ .idle ∧ t.machine.state.occupied = false) : receiveRequest r t = t := by
  simp only [receiveRequest]
  split
  · rfl
  · next proxy hproxy =>
    rcases h with hunknown | ⟨hidle, hvacant⟩
    · rw [Roster.contains_eq_isSome_get?, hproxy] at hunknown
      cases hunknown
    · split
      · next hstate => exact absurd hstate hidle
      · next hstate => simp [hstate, ArbitratorState.occupied] at hvacant
      · next hstate => simp [hstate, ArbitratorState.occupied] at hvacant
      all_goals rfl

theorem admits_receiveRequest (r : Request) (hsound : a.places.Sound)
    (hroomy : a.places.queue.Roomy) :
    a.places.Admits r (receiveRequest r ⟨a, {}⟩).machine.places := by
  by_cases hheard : a.roster.contains r.ssrc = true ∧
      (a.state = .idle ∨ a.state.occupied = true)
  · exact (response_receiveRequest (t := ⟨a, {}⟩) hsound hroomy rfl hheard.2 hheard.1).admits
  · have hunheard : a.roster.contains r.ssrc = false ∨
        a.state ≠ .idle ∧ a.state.occupied = false := by
      cases hknown : a.roster.contains r.ssrc with
      | false => exact .inl rfl
      | true => simpa [hknown] using hheard
    rw [receiveRequest_unheard (t := ⟨a, {}⟩) hunheard]
    exact (Places.Sifts.refl _).admits

def Input.request? : Input → Option Request
  | .receive (.request r) => some r
  | _ => none

/-- Whoever waits has waited before or has just asked for the floor, and whoever is in the queue has
been there, or was the preemptor, or has just asked for the floor and was willing to wait. -/
structure Enters (a : Arbitrator) (input : Input) : Prop where
  config : (a.after input).config = a.config
  comes : ∀ x ∈ (a.after input).places.awaiting, x ∈ a.places.awaiting ∨
    ∃ r, input.request? = some r ∧ r.ssrc = x
  enters : ∀ x ∈ (a.after input).queue.waiting, x ∈ a.queue.waiting ∨
    a.config.queueingSupported = true ∧
      (a.isPreemptor x = true ∨ ∃ r, input.request? = some r ∧ r.ssrc = x ∧ r.queueing = true)

private theorem isPreemptor_of_mem (h : who ∈ a.places.preemptor) :
    a.isPreemptor who.ssrc = true := by
  have hpreemptor : a.preemptor = some who := h
  simp [isPreemptor, hpreemptor]

theorem enters_after (input : Input) (hsound : a.places.Sound) (hroomy : a.places.queue.Roomy) :
    a.Enters input := by
  cases ht : a.handle input with
  | error e =>
    have hafter : a.after input = a := by simp [after, ht]
    refine ⟨by rw [hafter], fun x hwaits => .inl ?_, fun x hwaits => .inl ?_⟩
    · rwa [hafter] at hwaits
    · rwa [hafter] at hwaits
  | ok t =>
    by_cases hrequest : ∃ r, input = .receive (.request r)
    · obtain ⟨r, rfl⟩ := hrequest
      have hadmits : a.places.Admits r (a.after (.receive (.request r))).places :=
        admits_receiveRequest r hsound hroomy
      obtain ⟨hconfig, hcomes, henters⟩ := hadmits
      refine ⟨hconfig, fun x hwaits => ?_, fun x hwaits => ?_⟩
      · exact (hcomes x hwaits).imp_right fun hsame => ⟨r, rfl, hsame⟩
      · refine (henters x hwaits).imp_right (And.imp_right fun hcase => ?_)
        rcases hcase with ⟨who, hwho, rfl⟩ | ⟨hsame, hwilling⟩
        · exact .inl (isPreemptor_of_mem hwho)
        · exact .inr ⟨r, rfl, hsame, hwilling⟩
    · have hafter : a.after input = t.machine := by simp [after, ht]
      have hsifts := sifts_handle hsound (fun r heq => hrequest ⟨r, heq⟩) ht
      rw [← hafter] at hsifts
      refine ⟨hsifts.config, fun x hwaits => .inl (hsifts.awaiting hwaits), fun x hwaits => ?_⟩
      refine (hsifts.queue x hwaits).imp_right (And.imp_right fun hcase => .inl ?_)
      obtain ⟨who, hwho, hsame⟩ := hcase
      exact hsame ▸ isPreemptor_of_mem hwho

/-- The request by which the party has come to wait, if it still waits after one more input. -/
def admissionAfter (x : Ssrc) (input : Input) (a : Arbitrator) (known : Option Request) :
    Option Request :=
  if x ∈ (a.after input).places.awaiting then
    if x ∈ a.places.awaiting then known else input.request?
  else none

def admission (x : Ssrc) : List Input → Arbitrator → Option Request → Option Request
  | [], _, known => known
  | input :: inputs, a, known =>
    admission x inputs (a.after input) (admissionAfter x input a known)

theorem admission_concat (x : Ssrc) (inputs : List Input) (input : Input) (a : Arbitrator)
    (known : Option Request) :
    admission x (inputs ++ [input]) a known =
      admissionAfter x input (a.run inputs) (admission x inputs a known) := by
  induction inputs generalizing a known with
  | nil => rfl
  | cons first inputs ih => exact ih (a.after first) _

/-- Everybody in the queue has come to wait by a request that was willing to wait there. -/
def Consents (a : Arbitrator) (inputs : List Input) : Prop :=
  ∀ x ∈ (a.run inputs).queue.waiting, ∃ r, admission x inputs a none = some r ∧ r.ssrc = x ∧
    r.queueing = true

/-- One more input puts a party into the queue that was parked by a request that was not willing to
wait there. -/
def Shunts (a : Arbitrator) (inputs : List Input) (input : Input) : Prop :=
  ∃ r, admission r.ssrc inputs a none = some r ∧ r.queueing = false ∧
    (a.run inputs).isPreemptor r.ssrc = true ∧
    r.ssrc ∈ (a.run (inputs ++ [input])).queue.waiting

section Runs

variable (callId : CallId) (callType : CallType) (config : ArbitratorConfig)

private theorem enters_run (inputs : List Input) (input : Input) :
    ((create callId callType config).run inputs).Enters input :=
  enters_after input (sound_run callId callType config inputs)
    (roomy_run callId callType config inputs)

private theorem run_concat (a : Arbitrator) (inputs : List Input) (input : Input) :
    a.run (inputs ++ [input]) = (a.run inputs).after input := by
  simp [run]

/-- Whoever waits has come to wait by a request of its own. -/
theorem admission_of_awaiting (inputs : List Input) :
    ∀ x ∈ ((create callId callType config).run inputs).places.awaiting,
      ∃ r, admission x inputs (create callId callType config) none = some r ∧ r.ssrc = x := by
  induction inputs using List.reverseRecOn with
  | nil => exact fun x hwaits => absurd hwaits List.not_mem_nil
  | append_singleton inputs input ih =>
    intro x hwaits
    rw [run_concat] at hwaits
    rw [admission_concat, admissionAfter, if_pos hwaits]
    split
    · next hwaited => exact ih x hwaited
    · next hcame =>
      exact ((enters_run callId callType config inputs input).comes x hwaits).resolve_left hcame

/-- If the call does not let parties wait, nobody is in the queue. -/
theorem queueing_supported (inputs : List Input) :
    ((create callId callType config).run inputs).config = config ∧
      (((create callId callType config).run inputs).queue.waiting ≠ [] →
        config.queueingSupported = true) := by
  induction inputs using List.reverseRecOn with
  | nil => exact ⟨rfl, fun hwaits => absurd rfl hwaits⟩
  | append_singleton inputs input ih =>
    obtain ⟨hconfig, hsupported⟩ := ih
    have henters := enters_run callId callType config inputs input
    rw [run_concat]
    refine ⟨henters.config.trans hconfig, fun hwaits => ?_⟩
    obtain ⟨x, hx⟩ := List.exists_mem_of_ne_nil _ hwaits
    rcases henters.enters x hx with hqueued | ⟨hnow, -⟩
    · exact hsupported (List.ne_nil_of_mem hqueued)
    · exact hconfig ▸ hnow

private theorem mem_awaiting_of_queued (h : x ∈ a.queue.waiting) : x ∈ a.places.awaiting :=
  Places.mem_awaiting.mpr (.inr h)

private theorem mem_awaiting_of_preemptor (h : a.isPreemptor x = true) :
    x ∈ a.places.awaiting := by
  obtain ⟨who, hwho, hsame⟩ := (Option.any_eq_true _ _).mp h
  exact Places.mem_awaiting.mpr (.inl ⟨who, hwho, by simpa using hsame⟩)

/-- A party that goes on waiting has come to wait by the same request. -/
private theorem admission_kept (known : Option Request)
    (hbefore : x ∈ (a.run inputs).places.awaiting)
    (hafter : x ∈ (a.run (inputs ++ [input])).places.awaiting) :
    admission x (inputs ++ [input]) a known = admission x inputs a known := by
  rw [run_concat] at hafter
  rw [admission_concat, admissionAfter, if_pos hafter, if_pos hbefore]

theorem consents_iff_none_shunted (inputs : List Input) :
    (∀ first, first <+: inputs → (create callId callType config).Consents first) ↔
      ∀ first input, first ++ [input] <+: inputs →
        ¬ (create callId callType config).Shunts first input := by
  constructor
  · rintro hconsents first input hprefix ⟨r, hadmission, hunwilling, hpreemptor, hqueued⟩
    obtain ⟨other, hlater, -, hwilling⟩ := hconsents _ hprefix _ hqueued
    rw [admission_kept none (mem_awaiting_of_preemptor hpreemptor)
      (mem_awaiting_of_queued hqueued), hadmission] at hlater
    obtain rfl := Option.some.inj hlater
    exact absurd (hunwilling.symm.trans hwilling) (by decide)
  · intro hkept first
    induction first using List.reverseRecOn with
    | nil => exact fun _ x hqueued => absurd hqueued List.not_mem_nil
    | append_singleton first input ih =>
      intro hprefix x hqueued
      have hbefore := ih ((List.prefix_append _ _).trans hprefix)
      have hafter := mem_awaiting_of_queued hqueued
      by_cases hwaited : x ∈ ((create callId callType config).run first).places.awaiting
      · rw [admission_kept none hwaited hafter]
        rcases Places.mem_awaiting.mp hwaited with ⟨who, hwho, rfl⟩ | hqueued'
        · obtain ⟨r, hadmission, hsame⟩ :=
            admission_of_awaiting callId callType config first who.ssrc hwaited
          refine ⟨r, hadmission, hsame, ?_⟩
          rw [← Bool.not_eq_false]
          intro hunwilling
          refine hkept first input hprefix ⟨r, ?_, hunwilling, ?_, ?_⟩ <;> rw [hsame]
          · exact hadmission
          · exact isPreemptor_of_mem hwho
          · exact hqueued
        · exact hbefore x hqueued'
      · rw [run_concat] at hqueued hafter
        rw [admission_concat, admissionAfter, if_pos hafter, if_neg hwaited]
        rcases (enters_run callId callType config first input).enters x hqueued with
          hbefore | ⟨-, hpreemptor | hasked⟩
        · exact absurd (mem_awaiting_of_queued hbefore) hwaited
        · exact absurd (mem_awaiting_of_preemptor hpreemptor) hwaited
        · exact hasked

/-- However an arbitrator is configured and whatever happens to it: nobody is in the queue unless
the call lets parties wait. A newcomer whose request is heard and is not willing to wait is not put
into the queue; it talks, is parked or is turned down. And everybody who is ever in the queue has
come to wait by a request that was willing to wait there exactly if no step puts a parked party
there whose request was not. -/
theorem consent_kept_iff (inputs : List Input) :
    let start := create callId callType config
    let a := start.run inputs
    (a.queue.waiting ≠ [] → config.queueingSupported = true) ∧
      (∀ r : Request, r.queueing = false → r.ssrc ∉ a.places.placed →
        a.roster.contains r.ssrc = true → (a.state = .idle ∨ a.occupied = true) →
        let b := a.after (.receive (.request r))
        r.ssrc ∉ b.queue.waiting ∧
          (r.ssrc ∈ b.places.talkers ∨ b.preemptor = some r.talker ∨
            ∃ cause, letterTo r.ssrc (.denied r.ssrc cause config.ackRequired) ∈
              a.sent (.receive (.request r)))) ∧
      ((∀ first, first <+: inputs → start.Consents first) ↔
        ∀ first input, first ++ [input] <+: inputs → ¬ start.Shunts first input) := by
  intro start a
  obtain ⟨hconfig, hsupported⟩ := queueing_supported callId callType config inputs
  refine ⟨hsupported, fun r hunwilling hnew hknown hopen => ?_,
    consents_iff_none_shunted callId callType config inputs⟩
  have hsound : a.places.Sound := sound_run callId callType config inputs
  have hroomy : a.places.queue.Roomy := roomy_run callId callType config inputs
  have hresponse := response_receiveRequest (t := ⟨a, {}⟩) hsound hroomy rfl hopen hknown
  have hack : a.places.config.ackRequired = config.ackRequired := congrArg (·.ackRequired) hconfig
  refine ⟨fun hqueued => hnew (hresponse.unqueued hunwilling hqueued), ?_⟩
  rw [← hack]
  exact hresponse.unwilling hunwilling hnew hknown

end Runs

private def displaced : List Input :=
  [.add 1 1 true, .add 2 2 false, .add 3 3 false, .initialized 1, .initialized 2, .initialized 3,
    .receive (.request ⟨1, 1, .normal, false, true⟩),
    .receive (.request ⟨2, 2, .imminentPeril, false, false⟩),
    .receive (.request ⟨3, 3, .emergency, false, true⟩)]

/-- The second party is in the queue all the same. -/
theorem unwilling_preemptor_queued : ¬ (create 1 .basic {}).Consents displaced := by
  intro hconsents
  have hqueued : 2 ∈ ((create 1 .basic {}).run displaced).queue.waiting := by decide +kernel
  have hadmission : admission 2 displaced (create 1 .basic {}) none =
      some ⟨2, 2, .imminentPeril, false, false⟩ := by decide +kernel
  obtain ⟨r, hr, -, hwilling⟩ := hconsents 2 hqueued
  obtain rfl := Option.some.inj (hadmission.symm.trans hr)
  cases hwilling

end FloorControl.Arbitrator
