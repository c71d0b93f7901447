import FloorControl.Proofs.StepDeeds
import Mathlib.Data.List.Induction

/-!
# The choice of a successor

Whatever has happened to an arbitrator, its queue is in order. So when a hold ends, however it ends,
the floor goes to the second talker, else to the preemptor, else to the party that is served first
among those that wait, and else it is idle.
-/

namespace FloorControl.Arbitrator

variable {a : Arbitrator} {t : Turn Arbitrator} {p : Places} {holder : Talker} {input : Input}

theorem ordered_after (input : Input) (hsound : a.places.Sound) (hroomy : a.places.queue.Roomy)
    (hordered : a.places.queue.Ordered) : (a.after input).places.queue.Ordered := by
  simp only [after]
  split
  · next t ht =>
    obtain ⟨p, hadjusts, -, hdeed⟩ := deed_handle hsound hroomy ht
    exact hdeed.queue_steps.ordered (hadjusts.queue_steps.ordered hordered)
  · exact hordered

/-- However an arbitrator is configured and whatever happens to it, its queue is in order. -/
theorem ordered_run (callId : CallId) (callType : CallType) (config : ArbitratorConfig)
    (inputs : List Input) :
    ((create callId callType config).run inputs).places.queue.Ordered := by
  induction inputs using List.reverseRecOn with
  | nil => exact ⟨List.Pairwise.nil, fun _ he => absurd he List.not_mem_nil⟩
  | append_singleton inputs input ih =>
    rw [run, List.foldl_append]
    exact ordered_after input (sound_run callId callType config inputs)
      (roomy_run callId callType config inputs) ih

/-- What ends the hold of a party: it gives the floor back, it is not waited for any longer after it
was told to, or it leaves. -/
inductive EndsHold (a : Arbitrator) (holder : Ssrc) : Input → Prop
  | released : EndsHold a holder (.receive (.release holder))
  | overdue {ticket : Ticket} : ticket.id = .t3 → a.t3.accepts ticket = true →
      a.state = .pendingRevoke → EndsHold a holder (.expire ticket)
  | left : EndsHold a holder (.leave holder)

/-- The places as the successor finds them. A holder that leaves is in the roster no longer. -/
def Places.onceEnded (p : Places) : Input → Places
  | .leave ssrc => { p with roster := p.roster.erase ssrc }
  | _ => p

/-- The holder has no place but its own to leave. -/
theorem without_holder (horderly : p.Orderly) (hholder : p.holder = some holder) :
    p.without holder.ssrc = { p with roster := p.roster.erase holder.ssrc } := by
  have htalks : holder.ssrc ∈ p.talkers := Places.mem_talkers.mpr (.inl ⟨holder, hholder, rfl⟩)
  have hqueue : p.queue.remove holder.ssrc = p.queue :=
    FloorQueue.remove_of_not_mem fun hwaits =>
      horderly.not_talkers_of_awaiting (Places.mem_awaiting.mpr (.inr hwaits)) htalks
  have hsecond : (if p.second.any (·.ssrc = holder.ssrc) then none else p.second) = p.second := by
    cases hs : p.second with
    | none => rfl
    | some second => simp [(horderly.holder_ne_second hholder hs).symm]
  have hpreemptor : p.preemptor.filter (·.ssrc ≠ holder.ssrc) = p.preemptor := by
    cases hp : p.preemptor with
    | none => rfl
    | some who =>
      have hother : who.ssrc ≠ holder.ssrc := fun hsame =>
        (Places.preemptor_only horderly.distinct hp).1 (hsame ▸ htalks)
      simp [hother]
  have himplicit : p.implicitRequest = none := by
    apply horderly.implicit_eq_none
    intro hstate
    have hoccupied := horderly.holder_occupied
    simp [hholder, hstate, ArbitratorState.occupied] at hoccupied
  simp only [Places.without, hqueue, hsecond, hpreemptor, himplicit, Option.filter_none]

theorem Places.Orderly.occupied (horderly : p.Orderly) (hholder : p.holder = some holder) :
    p.state.occupied = true := by
  rw [← horderly.holder_occupied, hholder]
  rfl

/-- When the holder leaves, its hold ends and nothing else happens. -/
private theorem succession_clientRelease (hsound : t.machine.places.Sound)
    (hholder : t.machine.places.holder = some holder) (hout : t.out.messages = []) :
    ∃ u, clientRelease holder.ssrc t = .ok u ∧
      (t.machine.places.onceEnded (.leave holder.ssrc)).Succession holder u.out.messages
        u.machine.places := by
  have hplaced : holder.ssrc ∈ t.machine.places.placed :=
    Places.talkers_subset_placed (Places.mem_talkers.mpr (.inl ⟨holder, hholder, rfl⟩))
  have hknown : t.machine.roster.contains holder.ssrc = true :=
    (hsound.entitled _ hplaced).contains
  set v := forgotten holder.ssrc t with hv
  have hplaces : v.machine.places = t.machine.places.onceEnded (.leave holder.ssrc) :=
    (places_forgotten holder.ssrc t).trans (without_holder hsound.toOrderly hholder)
  have horderly : v.machine.places.Orderly :=
    places_forgotten holder.ssrc t ▸ orderly_without holder.ssrc hsound.toOrderly
  have hvholder : v.machine.places.holder = some holder := by
    rw [hplaces]
    exact hholder
  have hsuccession := succession_endHolder horderly hvholder hout
  have hoccupied : v.machine.places.state.occupied = true := horderly.occupied hvholder
  have hstate : (endHolder v).machine.state ≠ .initialising :=
    (hsuccession.deed (.leave holder.ssrc) hvholder).state_ne_initialising hoccupied
  have hheld : (v.machine.isHolder holder.ssrc && v.machine.occupied) = true := by
    change v.machine.holder = some holder at hvholder
    change v.machine.occupied = true at hoccupied
    simp [isHolder, hvholder, hoccupied]
  obtain ⟨u, hu⟩ : ∃ u, clientRelease holder.ssrc t = .ok u := by
    simp only [clientRelease, hknown]
    exact ⟨_, rfl⟩
  have hrelieved : relieved holder.ssrc v = endHolder v := by
    rw [relieved, if_pos hheld]
  obtain rfl : u = endHolder v := by
    rw [eq_of_clientRelease hu, ← hv, hrelieved, if_neg hstate]
  exact ⟨endHolder v, hu, hplaces ▸ hsuccession⟩

private theorem successor_of_sound (hsound : a.places.Sound)
    (hholder : a.places.holder = some holder) (hends : a.EndsHold holder.ssrc input) :
    ∃ t, a.handle input = .ok t ∧
      (a.places.onceEnded input).Succession holder t.out.messages t.machine.places := by
  have hheld : a.holder = some holder := hholder
  cases hends with
  | released =>
    refine ⟨_, rfl, ?_⟩
    have hoccupied : a.occupied = true := hsound.toOrderly.occupied hholder
    simp only [receive, receiveRelease, hoccupied, isHolder, hheld, Option.any_some, decide_true,
      Bool.not_true, Bool.false_eq_true, if_false, if_true]
    exact succession_endHolder (t := ⟨a, {}⟩) hsound.toOrderly hholder rfl
  | @overdue ticket hid haccepts hstate =>
    refine ⟨_, rfl, ?_⟩
    simp only [expire, hid, haccepts, if_true, expireT3, Turn.machine_update, hstate]
    exact succession_endHolder (t := Turn.update (fun a => { a with t3 := a.t3.rest }) ⟨a, {}⟩)
      hsound.toOrderly hholder rfl
  | left => exact succession_clientRelease (t := ⟨a, {}⟩) hsound hholder rfl

/-- However an arbitrator is configured and whatever happened to it: when the hold of the floor ends,
whichever way, the floor goes to the same successor, the first of the queue is the one that is to be
served first, and a holder that leaves is told nothing. -/
theorem successor_chosen (callId : CallId) (callType : CallType) (config : ArbitratorConfig)
    (inputs : List Input) {a : Arbitrator} (ha : a = (create callId callType config).run inputs)
    (hoccupied : a.occupied = true) :
    ∃ holder, a.holder = some holder ∧ ∀ input, a.EndsHold holder.ssrc input →
      ∃ t, a.handle input = .ok t ∧
        (a.places.onceEnded input).Succession holder t.out.messages t.machine.places ∧
        (∀ entry rest, a.queue.entries = entry :: rest → a.queue.Foremost entry) ∧
        (input = .leave holder.ssrc → t.out.messagesTo (.participant holder.ssrc) = []) := by
  have hsound : a.places.Sound := ha ▸ sound_run callId callType config inputs
  have hordered : a.places.queue.Ordered := ha ▸ ordered_run callId callType config inputs
  obtain ⟨holder, hholder⟩ := hsound.exists_holder hoccupied
  refine ⟨holder, hholder, fun input hends => ?_⟩
  obtain ⟨t, ht, hsuccession⟩ := successor_of_sound hsound hholder hends
  refine ⟨t, ht, hsuccession, fun entry rest hentries => hordered.foremost hentries, ?_⟩
  rintro rfl
  rw [Outbox.messagesTo, List.map_eq_nil_iff, List.filter_eq_nil_iff]
  intro e he hreceiver
  have hdeed : Deed (.leave holder.ssrc) (a.places.onceEnded (.leave holder.ssrc)) t.out.messages
      t.machine.places := hsuccession.deed _ hholder
  obtain ⟨ssrc, message, rfl, hknown⟩ := hdeed.addressees e he
  obtain rfl : ssrc = holder.ssrc := by simpa [letterTo] using hreceiver
  simp [Places.onceEnded, Roster.contains_eq_isSome_get?, Roster.get?_erase] at hknown

private def overtaken : List Input :=
  [.add 1 1 true, .add 2 2 false, .add 3 3 false, .initialized 1, .initialized 2, .initialized 3,
    .receive (.request ⟨1, 9, .normal, false, true⟩),
    .receive (.request ⟨2, 2, .normal, false, true⟩),
    .receive (.request ⟨3, 5, .normal, false, true⟩)]

/-- When the holder leaves, the third party has the floor, and the second is left in the queue. -/
theorem successor_chosen_overtaken :
    let a := (create 1 .basic {}).run overtaken
    let b := a.after (.leave 1)
    a.EndsHold 1 (.leave 1) ∧ b.holder = some ⟨3, 5, .normal⟩ ∧ b.queue.waiting = [2] ∧
      ∃ holder, a.holder = some holder ∧ ∀ input, a.EndsHold holder.ssrc input →
        ∃ t, a.handle input = .ok t ∧
          (a.places.onceEnded input).Succession holder t.out.messages t.machine.places ∧
          (∀ entry rest, a.queue.entries = entry :: rest → a.queue.Foremost entry) ∧
          (input = .leave holder.ssrc → t.out.messagesTo (.participant holder.ssrc) = []) :=
  ⟨.left, by decide +kernel, by decide +kernel,
    successor_chosen 1 .basic {} overtaken rfl (by decide +kernel)⟩

end FloorControl.Arbitrator
