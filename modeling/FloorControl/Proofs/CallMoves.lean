import FloorControl.Proofs.Scenes
import Mathlib.Logic.Relation

/-!
# The moves of a call

Every event that is handed over is one move of the scene of its call, and every operation that does
not move the clock is none, one or, where the call is set up at several parties, a few. Taking the
call down is no move: once it has begun, no party is permitted to talk and nobody has the floor.
-/

namespace FloorControl.Session

open Scene

variable {h : History} {r : Run} {s s' : Session}

theorem scene_cons {e : Happening} (hleft : e.left? = none) : s.scene (e :: h) = s.scene h := by
  simp only [scene, History.departed, List.filterMap_cons, hleft]

theorem scene_cons_left {e : Happening} {ssrc : Ssrc} (hleft : e.left? = some ssrc) :
    s.scene (e :: h) = { s.scene h with departed := ssrc :: (s.scene h).departed } := by
  simp only [scene, History.departed, List.filterMap_cons, hleft]

/-- What a step leaves of a call besides its scene. -/
structure Proceeds (h h' : History) (s s' : Session) : Prop where
  moves : Relation.ReflTransGen (Move none) (s.scene h) (s'.scene h')
  punctual : s'.Punctual
  active : s'.active = s.active

theorem Proceeds.refl (hpunctual : s.Punctual) : Proceeds h h s s := ⟨.refl, hpunctual, rfl⟩

theorem Proceeds.trans {h₁ h₂ h₃ : History} {s₁ s₂ s₃ : Session} (first : Proceeds h₁ h₂ s₁ s₂)
    (second : Proceeds h₂ h₃ s₂ s₃) : Proceeds h₁ h₃ s₁ s₃ :=
  ⟨first.moves.trans second.moves, second.punctual, second.active.trans first.active⟩

theorem orderly_moves {a b : Scene} (hmoves : Relation.ReflTransGen (Move none) a b)
    (ha : a.Orderly) : b.Orderly := by
  induction hmoves with
  | refl => exact ha
  | tail _ hmove ih => exact orderly_move hmove ih

/-- When a step is over, what it has sent is on its way. -/
theorem scene_dispatch (h : History) (out : Outbox) (hpunctual : r.state.Punctual) :
    (dispatch out r).state.scene h = { r.state.scene h with
        mail := r.state.mail ++ out.messages.map (·.arrival) } ∧
      (dispatch out r).state.Punctual ∧ (dispatch out r).state.active = r.state.active := by
  have hkept := dispatched_dispatch out r
  obtain ⟨hpunctual', hmail⟩ := mail_dispatch out hpunctual
  refine ⟨?_, hpunctual', hkept.active⟩
  simp only [scene, hkept.arbitrator, hkept.participants, hmail]

theorem punctual_congr (hpunctual : s.Punctual) (hscheduler : s'.scheduler = s.scheduler)
    (hconfig : s'.config = s.config) : s'.Punctual where
  inOrder := hscheduler ▸ hpunctual.inOrder
  letters := by
    rw [now, hscheduler, hconfig]
    exact hpunctual.letters

/-- The arbitrator takes its turn after something has come out of the scheduler. -/
private theorem move_onArbitrator {a : Scene} {event : SessionEvent}
    {f : Turn Arbitrator → Turn Arbitrator} (hpunctual : r.state.Punctual)
    (hmail : a.mail = arriving (some event) ++ r.state.mail)
    (hscene : r.state.scene h = { a with mail := r.state.mail })
    (hnot : ∀ ssrc, event.input? ssrc = none)
    (hleads : r.state.arbitrator.places.Leads (Requests (some event))
      (f ⟨r.state.arbitrator, {}⟩).out.messages (f ⟨r.state.arbitrator, {}⟩).machine.places)
    (hgone : ∀ ssrc, event = .toArbitrator (.release ssrc) →
      ssrc ∉ (f ⟨r.state.arbitrator, {}⟩).machine.places.placed) :
    Move (some event) a ((onArbitrator f r).state.scene h) ∧ (onArbitrator f r).state.Punctual ∧
      (onArbitrator f r).state.active = r.state.active := by
  have hset : (setArbitrator (f ⟨r.state.arbitrator, {}⟩).machine r).state.Punctual :=
    punctual_congr hpunctual rfl rfl
  obtain ⟨hafter, hp, hactive⟩ := scene_dispatch h (f ⟨r.state.arbitrator, {}⟩).out hset
  have hplaces : r.state.arbitrator.places = a.places := congrArg Scene.places hscene
  have hparticipants : r.state.participants = a.participants := congrArg Scene.participants hscene
  have hdeparted : h.departed = a.departed := congrArg Scene.departed hscene
  refine ⟨?_, hp, hactive⟩
  have hmove := Move.arbitrator hmail (by rintro _ ⟨⟩; exact hnot) (fun _ => rfl)
    (hplaces ▸ hleads) (by rintro ssrc ⟨⟩; exact hgone ssrc rfl)
  rw [onArbitrator, hafter]
  simp only [scene, setArbitrator, hparticipants, hdeparted]
  exact hmove

/-- A participant takes its turn after something has come out of the scheduler. -/
private theorem move_onParticipant {a : Scene} {event : SessionEvent} {ssrc : Ssrc}
    (input : Participant.Input) (horderly : a.Orderly) (hpunctual : r.state.Punctual)
    (hmail : a.mail = arriving (some event) ++ r.state.mail)
    (hscene : r.state.scene h = { a with mail := r.state.mail })
    (hbrings : event.input? ssrc = some input) (hongoing : input ≠ .beginRelease) :
    let r' := onParticipant ssrc (fun t => t.machine.handle input) r
    Move (some event) a (r'.state.scene h) ∧ r'.state.Punctual ∧
      r'.state.active = r.state.active := by
  have hparticipants : r.state.participants = a.participants := congrArg Scene.participants hscene
  simp only [onParticipant]
  split
  · next hget =>
    refine ⟨?_, hpunctual, rfl⟩
    rw [hscene]
    refine .dropped hmail ?_ ?_
    · rintro message ⟨⟩
      cases hbrings
    · rintro _ ⟨⟩ other hcontains
      cases hother : event.input? other with
      | none => rfl
      | some _ =>
        rw [← hparticipants, SessionEvent.input?_unique hother hbrings,
          Roster.contains_eq_isSome_get?, hget] at hcontains
        cases hcontains
  · next p hget =>
    have hset : (setParticipant ssrc (p.handle input).machine r).state.Punctual :=
      punctual_congr hpunctual rfl rfl
    obtain ⟨hafter, hp, hactive⟩ := scene_dispatch h (p.handle input).out hset
    have hplaces : r.state.arbitrator.places = a.places := congrArg Scene.places hscene
    have hdeparted : h.departed = a.departed := congrArg Scene.departed hscene
    refine ⟨?_, hp, hactive⟩
    rw [hparticipants] at hget
    have hmove := Move.participant hmail hbrings hget
      (Participant.conduct_handle input hongoing (horderly.pending _ _ hget))
    rw [hafter]
    simp only [scene, setParticipant, hparticipants, hplaces, hdeparted]
    exact hmove

/-- An event that is handed over is a move. -/
theorem move_deliver {t : Nat} {event : SessionEvent} {scheduler : Scheduler SessionEvent}
    (horderly : (r.state.scene h).Orderly) (hpunctual : r.state.Punctual)
    (hpop : r.state.scheduler.popDue t = some (event, scheduler)) :
    let r' := deliver event { r with state := { r.state with scheduler := scheduler } }
    Move (some event) (r.state.scene h) (r'.state.scene (⟨r.state, .delivery event⟩ :: h)) ∧
      r'.state.Punctual ∧ r'.state.active = r.state.active := by
  intro r'
  obtain ⟨hpunctual', hmail⟩ := mail_popDue hpunctual hpop
  rw [scene_cons rfl]
  cases event with
  | expiry ticket =>
    simp only [r', deliver]
    split
    · next howner =>
      exact move_onArbitrator hpunctual' hmail rfl (by simp [SessionEvent.input?, howner])
        (Arbitrator.leads_expire _ ticket (t := ⟨r.state.arbitrator, {}⟩) horderly.sound rfl)
        (by simp)
    · next ssrc howner =>
      exact move_onParticipant (.expire ticket) horderly hpunctual' hmail rfl
        (by simp [SessionEvent.input?, howner]) (by simp)
  | toArbitrator message =>
    refine move_onArbitrator hpunctual' hmail rfl (fun _ => rfl) ?_ ?_
    · have hleads := Arbitrator.leads_receive message (t := ⟨r.state.arbitrator, {}⟩)
        horderly.sound rfl
      exact { hleads with
        placed := fun ssrc hs => (hleads.placed ssrc hs).imp_right
          (.imp_right fun hasks => ⟨message, rfl, hasks⟩) }
    · rintro ssrc ⟨⟩
      exact (Arbitrator.leads_receiveRelease (fun _ => False) ssrc
        (t := ⟨r.state.arbitrator, {}⟩) horderly.sound rfl).2
  | toParticipant ssrc message =>
    exact move_onParticipant (.receive message) horderly hpunctual' hmail rfl
      (by simp [SessionEvent.input?]) (by simp)

/-- An operation with one of the participants does nothing, or what it does with that one. -/
private theorem proceeds_withParticipant {ssrc : Ssrc} {f : Participant → Run → Answer}
    (hpunctual : r.state.Punctual)
    (hf : ∀ p, r.state.participants.get? ssrc = some p → Proceeds h h r.state (f p r).2.state) :
    Proceeds h h r.state (withParticipant ssrc f r).2.state := by
  simp only [withParticipant, whenActive]
  split
  · split
    · exact .refl hpunctual
    · next p hget => exact hf p hget
  · exact .refl hpunctual

/-- A participant takes its turn, and what it sends goes on its way. -/
private theorem proceeds_turn {ssrc : Ssrc} {p : Participant} (input : Participant.Input)
    (horderly : (r.state.scene h).Orderly) (hpunctual : r.state.Punctual)
    (hbrings : Brings none ssrc input) (hget : r.state.participants.get? ssrc = some p) :
    Proceeds h h r.state
      (dispatch (p.handle input).out (setParticipant ssrc (p.handle input).machine r)).state := by
  have hset : (setParticipant ssrc (p.handle input).machine r).state.Punctual :=
    punctual_congr hpunctual rfl rfl
  obtain ⟨hafter, hp, hactive⟩ := scene_dispatch h (p.handle input).out hset
  have hmove := Move.participant (s := r.state.scene h) rfl hbrings hget
    (Participant.conduct_handle input hbrings.1 (horderly.pending _ _ hget))
  refine ⟨.single ?_, hp, hactive⟩
  rw [hafter]
  exact hmove

private theorem proceeds_act {ssrc : Ssrc} {input : Participant.Input}
    (horderly : (r.state.scene h).Orderly) (hpunctual : r.state.Punctual)
    (hbrings : Brings none ssrc input) :
    Proceeds h h r.state (act input ssrc r).2.state :=
  proceeds_withParticipant hpunctual fun _ hget =>
    proceeds_turn input horderly hpunctual hbrings hget

theorem messages_callInitialized (p : Participant) :
    (Participant.callInitialized ⟨p, {}⟩).out.messages = [] := by
  simp only [Participant.callInitialized]
  split
  · rw [Participant.messages_moveTo]
    rfl
  · rfl

theorem proceeds_setUp {ssrc : Ssrc} (horderly : (r.state.scene h).Orderly)
    (hpunctual : r.state.Punctual) : Proceeds h h r.state (setUp ssrc r).2.state := by
  refine proceeds_withParticipant hpunctual fun p hget => ?_
  set t := Participant.callInitialized ⟨p, {}⟩ with ht
  set r₁ := setParticipant ssrc t.machine r with hr₁
  have hset : r₁.state.Punctual := punctual_congr hpunctual rfl rfl
  have hconduct : p.Conduct .initialized t.out.messages t.machine :=
    Participant.conduct_handle .initialized (by simp) (horderly.pending _ _ hget)
  rw [messages_callInitialized] at hconduct
  have hbrings : Brings none ssrc .initialized := ⟨by simp, by simp, by simp, by simp⟩
  have hturn := Move.participant (s := r.state.scene h) rfl hbrings hget hconduct
  rw [List.map_nil, List.append_nil] at hturn
  have hturn : Move none (r.state.scene h) (r₁.state.scene h) := hturn
  have hfirst : Proceeds h h r.state r₁.state := ⟨.single hturn, hset, rfl⟩
  simp only
  split
  · exact hfirst
  · next u hu =>
    have hsound : r₁.state.arbitrator.places.Sound := horderly.sound
    obtain ⟨-, hleads⟩ := Arbitrator.leads_callInitialized (Requests none)
      (t := ⟨r₁.state.arbitrator, t.out⟩) hsound (messages_callInitialized p) hu
    have hset' : (setArbitrator u.machine r₁).state.Punctual := punctual_congr hset rfl rfl
    obtain ⟨hafter, hp, hactive⟩ := scene_dispatch h u.out hset'
    refine hfirst.trans ⟨.single ?_, hp, hactive⟩
    rw [hafter]
    have hmail : (r₁.state.scene h).mail = arriving none ++ r₁.state.mail := rfl
    exact .arbitrator hmail (by simp) (fun _ => Roster.contains_modify _ _ _ _) hleads (by simp)

private theorem proceeds_setUpEach (ssrcs : List Ssrc) (horderly : (r.state.scene h).Orderly)
    (hpunctual : r.state.Punctual) : Proceeds h h r.state (setUpEach ssrcs r).2.state := by
  induction ssrcs generalizing r with
  | nil => exact .refl hpunctual
  | cons ssrc rest ih =>
    have hfirst : Proceeds h h r.state (setUp ssrc r).2.state := proceeds_setUp horderly hpunctual
    simp only [setUpEach]
    split
    · next r' heq =>
      rw [heq] at hfirst
      exact hfirst.trans (ih (orderly_moves hfirst.moves horderly) hfirst.punctual)
    · exact hfirst

private theorem proceeds_establish {ssrc : Ssrc} (horderly : (r.state.scene h).Orderly)
    (hpunctual : r.state.Punctual) : Proceeds h h r.state (establish ssrc false r).2.state :=
  proceeds_withParticipant hpunctual fun p hget =>
    proceeds_turn (.established false p.priority) horderly hpunctual
      ⟨by simp, by simp, by simp, by simp⟩ hget

private theorem proceeds_join {ssrc : Ssrc} {priority : Priority} {originator : Bool}
    (horderly : (r.state.scene h).Orderly) (hpunctual : r.state.Punctual)
    (hjoin : r.state.active = true → ssrc ∉ h.departed) :
    Proceeds h h r.state (join ssrc priority originator r).2.state := by
  simp only [join, whenActive]
  split
  swap
  · exact .refl hpunctual
  next hactive =>
  split
  · exact .refl hpunctual
  · next a ha =>
    obtain ⟨hnew, proxy, hplaces, hsound⟩ := Arbitrator.leads_addParticipant horderly.sound ha
    rw [hplaces] at hsound
    refine ⟨.single ?_, punctual_congr hpunctual rfl rfl, rfl⟩
    have hmove := Move.joined (s := r.state.scene h) (p := Participant.create r.state.callId ssrc
      r.state.callType priority originator r.state.config.participant) hnew (hjoin hactive) rfl rfl
      rfl hsound
    simp only [scene] at hmove ⊢
    rw [hplaces]
    exact hmove

private theorem proceeds_clientRelease {ssrc : Ssrc} (horderly : (r.state.scene h).Orderly)
    (hpunctual : r.state.Punctual) :
    Proceeds h (⟨r.state, .operation (.leave ssrc)⟩ :: h) r.state
      (clientRelease ssrc r).2.state := by
  have hknown : r.state.arbitrator.roster.contains ssrc = r.state.participants.contains ssrc :=
    horderly.known ssrc
  have hstays : ∀ e : Happening, e.left? = none → Proceeds h (e :: h) r.state r.state :=
    fun e hleft => ⟨by rw [scene_cons hleft], hpunctual, rfl⟩
  simp only [clientRelease, whenActive]
  split
  swap
  · next hactive => exact hstays _ (by simp [Happening.left?, hactive])
  next hactive =>
  split
  · next e he =>
    have hstranger : r.state.arbitrator.roster.contains ssrc = false := by
      by_contra hcontains
      simp [Arbitrator.clientRelease, hcontains] at he
    exact hstays _ (by simp [Happening.left?, ← hknown, hstranger])
  · next t ht =>
    obtain ⟨hcontains, hleads⟩ := Arbitrator.leads_clientRelease (fun _ => False)
      (t := ⟨r.state.arbitrator, {}⟩) horderly.sound rfl ht
    have hcontains : r.state.participants.contains ssrc = true := hknown ▸ hcontains
    have hleft : Happening.left? ⟨r.state, .operation (.leave ssrc)⟩ = some ssrc := by
      simp [Happening.left?, hactive, hcontains]
    obtain ⟨p, hget⟩ := Roster.exists_get?_of_contains hcontains
    rw [show (setArbitrator t.machine r).state.participants.get? ssrc = some p from hget]
    set out := (Participant.beginRelease ⟨p, t.out⟩).out with hout
    have hmessages : out.messages = t.out.messages := by
      rw [hout, Participant.beginRelease, Participant.messages_moveTo]
      rfl
    set r₁ : Run := { setArbitrator t.machine r with
      state := { (setArbitrator t.machine r).state with
        participants := r.state.participants.erase ssrc } } with hr₁
    have hset : r₁.state.Punctual := punctual_congr hpunctual rfl rfl
    obtain ⟨hafter, hp, hactive'⟩ := scene_dispatch h out hset
    refine ⟨.single ?_, hp, hactive'⟩
    rw [scene_cons_left hleft]
    have hmove := Move.left (s := r.state.scene h) hleads
    have hafter : (dispatch out r₁).state.scene h = { r.state.scene h with
        places := t.machine.places
        participants := (r.state.scene h).participants.erase ssrc
        mail := (r.state.scene h).mail ++ t.out.messages.map (·.arrival) } := by
      rw [hafter, hmessages]
      rfl
    change Move none _ { (dispatch out r₁).state.scene h with
      departed := ssrc :: ((dispatch out r₁).state.scene h).departed }
    rw [hafter]
    exact hmove

/-- An operation that does not move the clock goes on by moves, as long as no party joins again
after it has left and nobody is granted the floor without asking. -/
theorem proceeds_perform (op : Operation) (hinstant : op.Instant r.state)
    (horderly : (r.state.scene h).Orderly) (hpunctual : r.state.Punctual)
    (hjoin : ∀ ssrc ∈ Happening.joined? ⟨r.state, .operation op⟩, ssrc ∉ h.departed)
    (hassist : ∀ ssrc, op ≠ .establish ssrc true) :
    Proceeds h (⟨r.state, .operation op⟩ :: h) r.state (perform op r).2.state := by
  have hcons : ∀ {s' : Session}, Happening.left? ⟨r.state, .operation op⟩ = none →
      Proceeds h h r.state s' → Proceeds h (⟨r.state, .operation op⟩ :: h) r.state s' :=
    fun hleft hproceeds => ⟨by rw [scene_cons hleft]; exact hproceeds.moves, hproceeds.punctual,
      hproceeds.active⟩
  have hact : ∀ ssrc input, Brings none ssrc input →
      Proceeds h h r.state (act input ssrc r).2.state :=
    fun ssrc input hbrings => proceeds_act horderly hpunctual hbrings
  cases op with
  | join ssrc priority originator =>
    refine hcons rfl (proceeds_join horderly hpunctual fun hactive => ?_)
    exact hjoin ssrc (by simp [Happening.joined?, hactive])
  | setUp ssrc => exact hcons rfl (proceeds_setUp horderly hpunctual)
  | setUpAll => exact hcons rfl (proceeds_setUpEach _ horderly hpunctual)
  | establish ssrc granted =>
    cases granted with
    | false => exact hcons rfl (proceeds_establish horderly hpunctual)
    | true => exact absurd rfl (hassist ssrc)
  | push ssrc | releaseTalk ssrc | accept ssrc | askPosition ssrc | setDual ssrc on
  | setIndicator ssrc wanted =>
    exact hcons rfl (hact _ _ ⟨by simp, by simp, by simp, by simp⟩)
  | leave ssrc => exact proceeds_clientRelease horderly hpunctual
  | release =>
    refine hcons rfl ?_
    simp only [perform, release, hinstant.down rfl, Bool.not_false, if_true]
    exact .refl hpunctual
  | runUntilIdle | advanceTo t | advanceBy delta =>
    have hstill := hinstant.still
    simp [Operation.target?] at hstill

def Silent (p : Participant) : Prop := p.state = .startStop ∧ p.grantPending = false

structure Closed (s : Session) : Prop where
  silent : ∀ ssrc p, s.participants.get? ssrc = some p → Silent p
  sound : s.arbitrator.places.Sound
  releasing : s.active = true → s.arbitrator.places.state = .releasing
  still : s.active = false → s.scheduler.pending = []

theorem Closed.holder_eq_none (hclosed : s.Closed) (hactive : s.active = true) :
    s.arbitrator.holder = none := by
  apply hclosed.sound.holder_eq_none
  rw [hclosed.releasing hactive]
  rfl

private theorem silent_handle {p : Participant} {input : Participant.Input} (hp : Silent p)
    (hinput : (∃ message, input = .receive message) ∨ ∃ ticket, input = .expire ticket) :
    Silent (p.handle input).machine := by
  obtain ⟨hstate, hgrant⟩ := hp
  rcases hinput with ⟨message, rfl⟩ | ⟨ticket, rfl⟩
  · simp only [Participant.handle, Participant.receive, hstate]
    exact ⟨hstate, hgrant⟩
  · simp only [Participant.handle, Participant.expire]
    split
    · split
      · simp only [Participant.expireT101, Turn.machine_update, hstate, reduceCtorEq, if_false]
        exact ⟨rfl, hgrant⟩
      · exact ⟨hstate, hgrant⟩
    · split
      · simp only [Participant.expireT100, Turn.machine_update, hstate, reduceCtorEq, if_false]
        exact ⟨rfl, hgrant⟩
      · exact ⟨hstate, hgrant⟩
    · split
      · simp only [Participant.expireT104, Turn.machine_update, hstate, reduceCtorEq, if_false]
        exact ⟨rfl, hgrant⟩
      · exact ⟨hstate, hgrant⟩
    · split
      · simp only [Participant.expireT132, Turn.machine_update, hgrant, Bool.false_eq_true,
          if_false]
        exact ⟨hstate, rfl⟩
      · exact ⟨hstate, hgrant⟩
    all_goals exact ⟨hstate, hgrant⟩

private theorem closed_onArbitrator {f : Turn Arbitrator → Turn Arbitrator}
    (hclosed : r.state.Closed) (hactive : r.state.active = true)
    (hf : (f ⟨r.state.arbitrator, {}⟩).machine.places = r.state.arbitrator.places) :
    (onArbitrator f r).state.Closed ∧ (onArbitrator f r).state.active = true := by
  have hkept := dispatched_dispatch (f ⟨r.state.arbitrator, {}⟩).out
    (setArbitrator (f ⟨r.state.arbitrator, {}⟩).machine r)
  have hplaces : (onArbitrator f r).state.arbitrator.places = r.state.arbitrator.places := by
    rw [onArbitrator, hkept.arbitrator]
    exact hf
  have hactive' : (onArbitrator f r).state.active = true := hkept.active.trans hactive
  refine ⟨⟨?_, hplaces ▸ hclosed.sound, fun _ => hplaces ▸ hclosed.releasing hactive, ?_⟩, hactive'⟩
  · rw [onArbitrator, hkept.participants]
    exact hclosed.silent
  · simp [hactive']

private theorem closed_onParticipant {ssrc : Ssrc} {input : Participant.Input}
    (hclosed : r.state.Closed) (hactive : r.state.active = true)
    (hinput : (∃ message, input = .receive message) ∨ ∃ ticket, input = .expire ticket) :
    let r' := onParticipant ssrc (fun t => t.machine.handle input) r
    r'.state.Closed ∧ r'.state.active = true := by
  simp only [onParticipant]
  split
  · exact ⟨hclosed, hactive⟩
  next p hget =>
  have hkept := dispatched_dispatch (p.handle input).out
    (setParticipant ssrc (p.handle input).machine r)
  have hactive' := hkept.active.trans hactive
  refine ⟨⟨?_, ?_, ?_, ?_⟩, hactive'⟩
  · intro other q hq
    rw [hkept.participants] at hq
    simp only [setParticipant, Roster.get?_modify] at hq
    split at hq
    · next heq =>
      subst heq
      rw [hget] at hq
      cases hq
      exact silent_handle (hclosed.silent _ _ hget) hinput
    · exact hclosed.silent _ _ hq
  · rw [hkept.arbitrator]
    exact hclosed.sound
  · intro _
    rw [hkept.arbitrator]
    exact hclosed.releasing hactive
  · simp [hactive']

/-- What still arrives while a call is taken down brings nobody back. -/
private theorem closed_deliver {t : Nat} {event : SessionEvent}
    {scheduler : Scheduler SessionEvent} (hclosed : r.state.Closed)
    (hpop : r.state.scheduler.popDue t = some (event, scheduler)) :
    let r' := deliver event { r with state := { r.state with scheduler := scheduler } }
    r'.state.Closed ∧ r'.state.active = true := by
  have hactive : r.state.active = true := by
    cases hactive : r.state.active with
    | true => rfl
    | false => simp [Scheduler.popDue, hclosed.still hactive] at hpop
  intro r'
  set r₁ : Run := { r with state := { r.state with scheduler := scheduler } } with hr₁
  have hclosed₁ : r₁.state.Closed :=
    ⟨hclosed.silent, hclosed.sound, hclosed.releasing, fun h => by simp [hr₁, hactive] at h⟩
  have hreleasing := hclosed.releasing hactive
  simp only [r', deliver]
  cases event with
  | expiry ticket =>
    simp only
    split
    · exact closed_onArbitrator hclosed₁ hactive
        (Arbitrator.places_expire_of_releasing ticket hclosed.sound hreleasing)
    · exact closed_onParticipant hclosed₁ hactive (.inr ⟨ticket, rfl⟩)
  | toArbitrator message =>
    exact closed_onArbitrator hclosed₁ hactive
      (Arbitrator.places_receive_of_releasing message hclosed.sound hreleasing)
  | toParticipant ssrc message =>
    exact closed_onParticipant hclosed₁ hactive (.inl ⟨message, rfl⟩)

/-- A participant that takes its part in taking the call down. -/
private theorem silent_beginRelease (t : Turn Participant) :
    Silent (Participant.beginRelease t).machine := by
  rw [Participant.beginRelease, Participant.machine_moveTo]
  exact ⟨rfl, rfl⟩

private theorem silent_releaseEach (ssrcs : List Ssrc) (participants : Roster Participant)
    (out : Outbox) (hrest : ∀ ssrc p, participants.get? ssrc = some p → ssrc ∈ ssrcs ∨ Silent p)
    (ssrc : Ssrc) (p : Participant)
    (hget : (releaseEach ssrcs participants out).1.get? ssrc = some p) : Silent p := by
  induction ssrcs generalizing participants out with
  | nil => simpa using hrest ssrc p hget
  | cons first rest ih =>
    simp only [releaseEach] at hget
    split at hget
    · next hnone =>
      refine ih _ _ (fun other q hq => ?_) hget
      rcases hrest other q hq with hmem | hsilent
      · rcases List.mem_cons.mp hmem with rfl | hmem
        · rw [hnone] at hq
          cases hq
        · exact .inl hmem
      · exact .inr hsilent
    · next p₁ hp₁ =>
      refine ih _ _ (fun other q hq => ?_) hget
      rw [Roster.get?_modify] at hq
      split at hq
      · next heq =>
        subst heq
        rw [hp₁] at hq
        cases hq
        exact .inr (silent_beginRelease _)
      · next hne =>
        rcases hrest other q hq with hmem | hsilent
        · exact .inl ((List.mem_cons.mp hmem).resolve_left hne)
        · exact .inr hsilent

private theorem closed_beginRelease (hactive : r.state.active = true) :
    (beginRelease r).state.Closed ∧ (beginRelease r).state.active = true := by
  simp only [beginRelease]
  set t := Arbitrator.beginRelease ⟨r.state.arbitrator, {}⟩ with ht
  set released := releaseEach r.state.participants.ssrcs r.state.participants t.out with hreleased
  have hkept := dispatched_dispatch released.2
    { r with state := { r.state with arbitrator := t.machine, participants := released.1 } }
  have hplaces : t.machine.places = r.state.arbitrator.places.emptied :=
    Arbitrator.places_beginRelease
  have hactive' := hkept.active.trans hactive
  refine ⟨⟨?_, ?_, ?_, ?_⟩, hactive'⟩
  · intro ssrc p hget
    rw [hkept.participants] at hget
    refine silent_releaseEach _ _ t.out (fun other q hq => .inl ?_) ssrc p hget
    rw [← Roster.contains_iff_mem]
    exact Roster.contains_of_get? hq
  · rw [hkept.arbitrator]
    exact hplaces ▸ Arbitrator.sound_emptied _
  · intro _
    rw [hkept.arbitrator]
    exact hplaces ▸ rfl
  · simp [hactive']

private theorem closed_finishRelease (hclosed : r.state.Closed) :
    (finishRelease r).state.Closed ∧ (finishRelease r).state.active = false := by
  simp only [finishRelease]
  set t := Arbitrator.finishRelease ⟨r.state.arbitrator, {}⟩ with ht
  have hkept := dispatched_dispatch t.out { r with
    state := { r.state with
      arbitrator := t.machine
      participants := r.state.participants.mapWith fun _ p => p.finishRelease } }
  refine ⟨⟨?_, ?_, by simp [tell], fun _ => rfl⟩, rfl⟩
  · intro ssrc p hget
    simp only [tell, hkept.participants, Roster.get?_mapWith, Option.map_eq_some_iff] at hget
    obtain ⟨q, hq, rfl⟩ := hget
    obtain ⟨hstate, hgrant⟩ := hclosed.silent _ _ hq
    exact ⟨hstate, hgrant⟩
  · simp only [tell, hkept.arbitrator]
    exact Arbitrator.sound_finishRelease (t := ⟨r.state.arbitrator, {}⟩) hclosed.sound

theorem config_move {cue : Option SessionEvent} {a b : Scene} (hmove : Move cue a b) :
    b.places.config = a.places.config := by
  cases hmove with
  | participant => rfl
  | arbitrator _ _ _ hleads => exact hleads.config
  | dropped => rfl
  | joined => rfl
  | left hleads => exact hleads.config

/-- What every move of a call keeps, with what it may look at of its history. -/
structure Invariant (config : SessionConfig) (I : History → Scene → Prop) : Prop where
  created : ∀ callId callType now, I [] ((Session.create callId callType config now).scene [])
  operated : ∀ h e op a, e.what = .operation op → I h a → I (e :: h) a
  moved : ∀ h a b, a.Orderly → a.places.config = config.arbitrator → Move none a b → I h a → I h b
  delivered : ∀ h before event b, (before.scene h).Orderly →
    (before.scene h).places.config = config.arbitrator → Move (some event) (before.scene h) b →
    I h (before.scene h) → I (⟨before, .delivery event⟩ :: h) b

/-- A call that has not begun to be taken down. -/
structure Open (config : SessionConfig) (I : History → Scene → Prop) (h : History) (s : Session) :
    Prop where
  active : s.active = true
  orderly : (s.scene h).Orderly
  punctual : s.Punctual
  config : (s.scene h).places.config = config.arbitrator
  invariant : I h (s.scene h)

variable {config : SessionConfig} {I : History → Scene → Prop} {phase : Phase}

private theorem open_moves {a b : Scene} (hI : Invariant config I)
    (hmoves : Relation.ReflTransGen (Move none) a b) (ha : a.Orderly)
    (hconfig : a.places.config = config.arbitrator) (hinv : I h a) :
    b.Orderly ∧ b.places.config = config.arbitrator ∧ I h b := by
  induction hmoves with
  | refl => exact ⟨ha, hconfig, hinv⟩
  | tail _ hmove ih =>
    obtain ⟨hb, hconfig, hinv⟩ := ih
    exact ⟨orderly_move hmove hb, (config_move hmove).trans hconfig,
      hI.moved _ _ _ hb hconfig hmove hinv⟩

private theorem open_created (hI : Invariant config I) (callId : CallId) (callType : CallType)
    (now : Nat) : Open config I [] (Session.create callId callType config now) where
  active := rfl
  orderly :=
    { sound := Arbitrator.sound_create callId callType config.arbitrator
      unpromised := rfl
      known := fun _ => rfl
      named := fun _ _ hget => by cases hget
      pending := fun _ _ hget => by cases hget
      granted := by simp [scene, mail, Session.create]
      addressed := by simp [scene, mail, Session.create] }
  punctual := .of_pending_eq_nil rfl
  config := rfl
  invariant := hI.created callId callType now

/-- A call that is down refuses everything. -/
theorem perform_of_over (op : Operation) (hinstant : op.Instant r.state)
    (hover : r.state.active = false) : (perform op r).2 = r := by
  have hrefused : ∀ f : Run → Answer, (whenActive f r).2 = r := fun f => by
    simp [whenActive, hover, refuse]
  cases op with
  | setUpAll =>
    simp only [perform, setUpAll]
    cases r.state.participants.ssrcs with
    | nil => rfl
    | cons ssrc rest => simp [setUpEach, setUp, withParticipant, whenActive, hover, refuse]
  | release => simp [perform, release, hover]
  | runUntilIdle | advanceTo t | advanceBy delta =>
    have hstill := hinstant.still
    simp [Operation.target?] at hstill
  | _ => exact hrefused _

private theorem open_performed (hI : Invariant config I) (op : Operation)
    (hinstant : op.Instant r.state) (hopen : Open config I h r.state)
    (hjoin : ∀ ssrc ∈ Happening.joined? ⟨r.state, .operation op⟩, ssrc ∉ h.departed)
    (hassist : ∀ ssrc, op ≠ .establish ssrc true) :
    Open config I (⟨r.state, .operation op⟩ :: h) (perform op r).2.state := by
  have hproceeds := proceeds_perform op hinstant hopen.orderly hopen.punctual hjoin hassist
  obtain ⟨horderly, hconfig, hinv⟩ :=
    open_moves hI hproceeds.moves hopen.orderly hopen.config hopen.invariant
  exact ⟨hproceeds.active.trans hopen.active, horderly, hproceeds.punctual, hconfig,
    hI.operated _ _ op _ rfl hinv⟩

private theorem open_delivered {t : Nat} {event : SessionEvent}
    {scheduler : Scheduler SessionEvent} (hI : Invariant config I) (hopen : Open config I h r.state)
    (hpop : r.state.scheduler.popDue t = some (event, scheduler)) :
    Open config I (⟨r.state, .delivery event⟩ :: h)
      (deliver event { r with state := { r.state with scheduler := scheduler } }).state := by
  obtain ⟨hmove, hpunctual, hactive⟩ := move_deliver hopen.orderly hopen.punctual hpop
  exact ⟨hactive.trans hopen.active, orderly_move hmove hopen.orderly, hpunctual,
    (config_move hmove).trans hopen.config,
    hI.delivered _ _ _ _ hopen.orderly hopen.config hmove hopen.invariant⟩

/-- A call is open, with all that its moves keep, or it is closed: it is being taken down or is
down. -/
theorem Reached.open_or_closed (hI : Invariant config I) (hr : Reached config phase h r)
    (hjoin : h.NoRejoin) (hassist : h.Unassisted) :
    (Open config I h r.state ∧ ∀ t, phase ≠ .ending t) ∨
      (r.state.Closed ∧ (r.state.active = true → ∃ t, phase = .ending t)) := by
  induction hr with
  | created callId callType now => exact .inl ⟨open_created hI callId callType now, by simp⟩
  | @performed h r op _ hinstant ih =>
    have hassist' : ∀ ssrc, op ≠ .establish ssrc true := fun ssrc heq =>
      hassist _ List.mem_cons_self ssrc (by rw [heq])
    rcases ih hjoin.2 hassist.tail with
      ⟨hopen, hphase⟩ | ⟨hclosed, hending⟩
    · exact .inl ⟨open_performed hI op hinstant hopen hjoin.1 hassist', hphase⟩
    · have hover : r.state.active = false := by
        cases hactive : r.state.active with
        | false => rfl
        | true => simpa using hending hactive
      rw [perform_of_over op hinstant hover]
      exact .inr ⟨hclosed, by simp [hover]⟩
  | @started h r t op _ htarget ih =>
    have hleft : Happening.left? ⟨r.state, .operation op⟩ = none := by
      cases op <;> simp [Operation.target?] at htarget <;> rfl
    rcases ih hjoin.2 hassist.tail with
      ⟨hopen, -⟩ | ⟨hclosed, hending⟩
    · refine .inl ⟨⟨hopen.active, ?_, hopen.punctual, ?_, ?_⟩, by simp⟩
      · rw [scene_cons hleft]
        exact hopen.orderly
      · rw [scene_cons hleft]
        exact hopen.config
      · rw [scene_cons hleft]
        exact hI.operated _ _ op _ rfl hopen.invariant
    · exact .inr ⟨hclosed, fun hactive => by simpa using hending hactive⟩
  | @delivered phase h r t event scheduler _ _ hpop ih =>
    rcases ih hjoin.2 hassist.tail with
      ⟨hopen, hphase⟩ | ⟨hclosed, hending⟩
    · exact .inl ⟨open_delivered hI hopen hpop, hphase⟩
    · obtain ⟨hclosed', hactive⟩ := closed_deliver hclosed hpop
      refine .inr ⟨hclosed', fun _ => hending ?_⟩
      by_contra hinactive
      rw [Bool.not_eq_true] at hinactive
      simp [Scheduler.popDue, hclosed.still hinactive] at hpop
  | @settled h r t _ _ ih =>
    rcases ih hjoin hassist with ⟨hopen, -⟩ | ⟨hclosed, hending⟩
    · exact .inl ⟨⟨hopen.active, hopen.orderly, punctual_settle t hopen.punctual, hopen.config,
        hopen.invariant⟩, by simp⟩
    · refine .inr ⟨⟨hclosed.silent, hclosed.sound, hclosed.releasing, hclosed.still⟩, ?_⟩
      intro hactive
      simpa using hending hactive
  | @ending h r _ hactive _ =>
    obtain ⟨hclosed, -⟩ := closed_beginRelease hactive
    exact .inr ⟨hclosed, fun _ => ⟨_, rfl⟩⟩
  | @ended h r t _ _ ih =>
    rcases ih hjoin hassist with ⟨-, hphase⟩ | ⟨hclosed, -⟩
    · exact absurd rfl (hphase t)
    · have hsettled : (settle t r).state.Closed :=
        ⟨hclosed.silent, hclosed.sound, hclosed.releasing, hclosed.still⟩
      obtain ⟨hclosed', hover⟩ := closed_finishRelease hsettled
      exact .inr ⟨hclosed', by simp [hover]⟩

end FloorControl.Session
