import FloorControl.Proofs.Belief
import FloorControl.Proofs.CallMoves

/-!
# The acts of a call

The moves of a call once more, with exactly what each machine does: a participant handles its input,
and the arbitrator does one of its deeds. Where an operation moves several machines, each takes its
turn in an act of its own, except that a party and the arbitrator set the call up together.
-/

namespace FloorControl

namespace Scene

open Arbitrator

def arbitratorInput? : SessionEvent → Option Arbitrator.Input
  | .expiry ticket => if ticket.owner = .arbitrator then some (.expire ticket) else none
  | .toArbitrator message => some (.receive message)
  | .toParticipant .. => none

/-- How a call goes on to its next scene, with what has come out of the scheduler, if it was that,
and the party that leaves, if one does. -/
inductive Act : Option SessionEvent → Option Ssrc → Scene → Scene → Prop
  /-- One of the participants takes its turn. -/
  | participant {s : Scene} {cue : Option SessionEvent} {rest : List SessionEvent} {ssrc : Ssrc}
      {p : Participant} {input : Participant.Input} :
      s.mail = arriving cue ++ rest → Brings cue ssrc input → input ≠ .initialized →
      s.participants.get? ssrc = some p →
      Act cue none s { s with
        participants := s.participants.modify ssrc fun _ => (p.handle input).machine
        mail := rest ++ (p.handle input).out.messages.map (·.arrival) }
  /-- The arbitrator takes its turn. Whoever gives something back once the floor has been opened is
  told how it stands. -/
  | arbitrator {s : Scene} {event : SessionEvent} {rest : List SessionEvent}
      {input : Arbitrator.Input} {after : Places} {messages : List Envelope} :
      s.mail = arriving (some event) ++ rest → arbitratorInput? event = some input →
      Deed input s.places messages after →
      (∀ ssrc, event = .toArbitrator (.release ssrc) → s.places.Opened →
        s.places.roster.contains ssrc = true →
        ∃ message, letterTo ssrc message ∈ messages ∧ message.isWord = true) →
      Act (some event) none s { s with
        places := after, mail := rest ++ messages.map (·.arrival) }
  /-- The call is set up at a party. Once the floor has been opened, the party is told how it
  stands. -/
  | setUp {s : Scene} {ssrc : Ssrc} {p : Participant} {places after : Places}
      {messages : List Envelope} :
      s.participants.get? ssrc = some p → s.places.Adjusts (.initialized ssrc) places →
      places.Orderly → Deed (.initialized ssrc) places messages after →
      (s.places.Opened → ∃ message, letterTo ssrc message ∈ messages ∧ message.isWord = true) →
      Act none none s { s with
        places := after
        participants := s.participants.modify ssrc fun _ => (p.handle .initialized).machine
        mail := s.mail ++ messages.map (·.arrival) }
  /-- What was meant for a party that has left is dropped. -/
  | dropped {s : Scene} {event : SessionEvent} {rest : List SessionEvent} {ssrc : Ssrc}
      {input : Participant.Input} :
      s.mail = arriving (some event) ++ rest → event.input? ssrc = some input →
      s.participants.get? ssrc = none → Act (some event) none s { s with mail := rest }
  /-- A party comes into the call for the first time. -/
  | joined {s : Scene} {ssrc : Ssrc} {proxy : Proxy} {p : Participant} :
      s.places.roster.contains ssrc = false → ssrc ∉ s.departed → p.state = .startStop →
      p.talker = none → p.overridden = false → p.grantPending = false →
      Act none none s { s with
        places := { s.places with roster := s.places.roster.insert ssrc proxy }
        participants := s.participants.insert ssrc p }
  /-- A party leaves the call. -/
  | left {s : Scene} {ssrc : Ssrc} {places after : Places} {messages : List Envelope} :
      s.places.Adjusts (.leave ssrc) places → places.Orderly →
      Deed (.leave ssrc) places messages after →
      Act none (some ssrc) s { s with
        places := after
        participants := s.participants.erase ssrc
        mail := s.mail ++ messages.map (·.arrival)
        departed := ssrc :: s.departed }

/-- Acts in a row by which nobody leaves, each of an orderly scene. -/
def Acts : Scene → Scene → Prop :=
  Relation.ReflTransGen fun s s' => s.Orderly ∧ Act none none s s'

end Scene

namespace Session

open Scene

variable {h : History} {r : Run} {s s' : Session}

/-- The arbitrator takes its turn after something has come out of the scheduler. -/
private theorem act_onArbitrator {a : Scene} {event : SessionEvent}
    {f : Turn Arbitrator → Turn Arbitrator} {input : Arbitrator.Input}
    (hpunctual : r.state.Punctual) (hmail : a.mail = arriving (some event) ++ r.state.mail)
    (hscene : r.state.scene h = { a with mail := r.state.mail })
    (hinput : arbitratorInput? event = some input)
    (hdeed : Arbitrator.Deed input r.state.arbitrator.places
      (f ⟨r.state.arbitrator, {}⟩).out.messages (f ⟨r.state.arbitrator, {}⟩).machine.places)
    (hanswers : ∀ ssrc, event = .toArbitrator (.release ssrc) → a.places.Opened →
      a.places.roster.contains ssrc = true →
      ∃ message, Arbitrator.letterTo ssrc message ∈ (f ⟨r.state.arbitrator, {}⟩).out.messages ∧
        message.isWord = true) :
    Act (some event) none a ((onArbitrator f r).state.scene h) := by
  have hset : (setArbitrator (f ⟨r.state.arbitrator, {}⟩).machine r).state.Punctual :=
    punctual_congr hpunctual rfl rfl
  obtain ⟨hafter, -, -⟩ := scene_dispatch h (f ⟨r.state.arbitrator, {}⟩).out hset
  have hplaces : r.state.arbitrator.places = a.places := congrArg Scene.places hscene
  have hparticipants : r.state.participants = a.participants := congrArg Scene.participants hscene
  have hdeparted : h.departed = a.departed := congrArg Scene.departed hscene
  have hact : Act (some event) none a _ := .arbitrator hmail hinput (hplaces ▸ hdeed) hanswers
  rw [onArbitrator, hafter]
  simp only [scene, setArbitrator, hparticipants, hdeparted]
  exact hact

/-- A participant takes its turn after something has come out of the scheduler. -/
private theorem act_onParticipant {a : Scene} {event : SessionEvent} {ssrc : Ssrc}
    (input : Participant.Input) (hpunctual : r.state.Punctual)
    (hmail : a.mail = arriving (some event) ++ r.state.mail)
    (hscene : r.state.scene h = { a with mail := r.state.mail })
    (hbrings : event.input? ssrc = some input) (hsetUp : input ≠ .initialized) :
    Act (some event) none a
      ((onParticipant ssrc (fun t => t.machine.handle input) r).state.scene h) := by
  have hparticipants : r.state.participants = a.participants := congrArg Scene.participants hscene
  simp only [onParticipant]
  split
  · next hget =>
    rw [hscene]
    exact .dropped hmail hbrings (hparticipants ▸ hget)
  · next p hget =>
    have hset : (setParticipant ssrc (p.handle input).machine r).state.Punctual :=
      punctual_congr hpunctual rfl rfl
    obtain ⟨hafter, -, -⟩ := scene_dispatch h (p.handle input).out hset
    have hplaces : r.state.arbitrator.places = a.places := congrArg Scene.places hscene
    have hdeparted : h.departed = a.departed := congrArg Scene.departed hscene
    rw [hparticipants] at hget
    have hact : Act (some event) none a _ := .participant hmail hbrings hsetUp hget
    rw [hafter]
    simp only [scene, setParticipant, hparticipants, hplaces, hdeparted]
    exact hact

/-- An event that is handed over is an act. -/
theorem act_deliver {t : Nat} {event : SessionEvent} {scheduler : Scheduler SessionEvent}
    (horderly : (r.state.scene h).Orderly) (hpunctual : r.state.Punctual)
    (hroomy : r.state.arbitrator.places.queue.Roomy)
    (hpop : r.state.scheduler.popDue t = some (event, scheduler)) :
    let r' := deliver event { r with state := { r.state with scheduler := scheduler } }
    Act (some event) none (r.state.scene h)
      (r'.state.scene (⟨r.state, .delivery event⟩ :: h)) := by
  intro r'
  obtain ⟨hpunctual', hmail⟩ := mail_popDue hpunctual hpop
  have hsound : r.state.arbitrator.places.Sound := horderly.sound
  rw [scene_cons rfl]
  cases event with
  | expiry ticket =>
    simp only [r', deliver]
    split
    · next howner =>
      exact act_onArbitrator hpunctual' hmail rfl (by simp [arbitratorInput?, howner])
        (Arbitrator.deed_expire ticket (t := ⟨r.state.arbitrator, {}⟩) hsound hroomy rfl) (by simp)
    · next ssrc howner =>
      exact act_onParticipant (.expire ticket) hpunctual' hmail rfl
        (by simp [SessionEvent.input?, howner]) (by simp)
  | toArbitrator message =>
    refine act_onArbitrator hpunctual' hmail rfl rfl
      (Arbitrator.deed_receive message (t := ⟨r.state.arbitrator, {}⟩) hsound hroomy rfl) ?_
    rintro ssrc ⟨⟩ hopened hknown
    exact Arbitrator.exists_word_receiveRelease (t := ⟨r.state.arbitrator, {}⟩) hsound rfl hopened
      hknown
  | toParticipant ssrc message =>
    exact act_onParticipant (.receive message) hpunctual' hmail rfl
      (by simp [SessionEvent.input?]) (by simp)

private theorem acts_single {a b : Scene} (horderly : a.Orderly) (hact : Act none none a b) :
    Acts a b := .single ⟨horderly, hact⟩

private theorem acts_withParticipant {ssrc : Ssrc} {f : Participant → Run → Answer}
    (hf : ∀ p, r.state.participants.get? ssrc = some p →
      Acts (r.state.scene h) ((f p r).2.state.scene h)) :
    Acts (r.state.scene h) ((withParticipant ssrc f r).2.state.scene h) := by
  simp only [withParticipant, whenActive]
  split
  · split
    · exact .refl
    · next p hget => exact hf p hget
  · exact .refl

/-- A participant takes its turn, and what it sends goes on its way. -/
private theorem acts_turn {ssrc : Ssrc} {p : Participant} (input : Participant.Input)
    (horderly : (r.state.scene h).Orderly) (hpunctual : r.state.Punctual)
    (hbrings : Brings none ssrc input) (hsetUp : input ≠ .initialized)
    (hget : r.state.participants.get? ssrc = some p) :
    Acts (r.state.scene h)
      ((dispatch (p.handle input).out
        (setParticipant ssrc (p.handle input).machine r)).state.scene h) := by
  have hset : (setParticipant ssrc (p.handle input).machine r).state.Punctual :=
    punctual_congr hpunctual rfl rfl
  obtain ⟨hafter, -, -⟩ := scene_dispatch h (p.handle input).out hset
  refine acts_single horderly ?_
  rw [hafter]
  exact .participant (s := r.state.scene h) rfl hbrings hsetUp hget

private theorem acts_setUp {ssrc : Ssrc} (horderly : (r.state.scene h).Orderly)
    (hpunctual : r.state.Punctual) :
    Acts (r.state.scene h) ((setUp ssrc r).2.state.scene h) := by
  refine acts_withParticipant fun p hget => ?_
  set t := Participant.callInitialized ⟨p, {}⟩ with ht
  set r₁ := setParticipant ssrc t.machine r with hr₁
  have hset : r₁.state.Punctual := punctual_congr hpunctual rfl rfl
  have hsound : r₁.state.arbitrator.places.Sound := horderly.sound
  have hout : t.out.messages = [] := messages_callInitialized p
  have hknown : r₁.state.arbitrator.places.roster.contains ssrc = true :=
    (horderly.known ssrc).trans (Roster.contains_of_get? hget)
  simp only
  split
  · next e he =>
    have hrefused : r₁.state.arbitrator.roster.contains ssrc = false := by
      by_contra hcontains
      rw [Bool.not_eq_false] at hcontains
      simp [← hr₁, Arbitrator.callInitialized, hcontains] at he
    exact absurd (hknown.symm.trans hrefused) (by simp)
  · next u hu =>
    have hset' : (setArbitrator u.machine r₁).state.Punctual := punctual_congr hset rfl rfl
    obtain ⟨hafter, -, -⟩ := scene_dispatch h u.out hset'
    refine acts_single horderly ?_
    rw [hafter]
    exact .setUp (s := r.state.scene h) hget (.readied hknown) { hsound.toOrderly with }
      (Arbitrator.deed_callInitialized (t := ⟨r₁.state.arbitrator, t.out⟩) hsound hout hu)
      fun hopened => Arbitrator.exists_word_callInitialized
        (t := ⟨r₁.state.arbitrator, t.out⟩) hsound.toOrderly hopened hu

private theorem acts_setUpEach (ssrcs : List Ssrc) (horderly : (r.state.scene h).Orderly)
    (hpunctual : r.state.Punctual) :
    Acts (r.state.scene h) ((setUpEach ssrcs r).2.state.scene h) := by
  induction ssrcs generalizing r with
  | nil => exact .refl
  | cons ssrc rest ih =>
    have hproceeds : Proceeds h h r.state (setUp ssrc r).2.state :=
      proceeds_setUp horderly hpunctual
    have hfirst : Acts (r.state.scene h) ((setUp ssrc r).2.state.scene h) :=
      acts_setUp horderly hpunctual
    simp only [setUpEach]
    split
    · next r' heq =>
      rw [heq] at hproceeds hfirst
      exact hfirst.trans (ih (orderly_moves hproceeds.moves horderly) hproceeds.punctual)
    · exact hfirst

private theorem acts_join {ssrc : Ssrc} {priority : Priority} {originator : Bool}
    (horderly : (r.state.scene h).Orderly)
    (hjoin : r.state.active = true → ssrc ∉ h.departed) :
    Acts (r.state.scene h) ((join ssrc priority originator r).2.state.scene h) := by
  simp only [join, whenActive]
  split
  swap
  · exact .refl
  next hactive =>
  split
  · exact .refl
  · next a ha =>
    obtain ⟨hnew, proxy, hplaces, -⟩ := Arbitrator.leads_addParticipant horderly.sound ha
    refine acts_single horderly ?_
    change Act none none _ { r.state.scene h with
      places := a.places, participants := r.state.participants.insert ssrc _ }
    rw [hplaces]
    exact .joined (s := r.state.scene h) hnew (hjoin hactive) rfl rfl rfl rfl

private theorem acts_clientRelease {ssrc : Ssrc} (horderly : (r.state.scene h).Orderly)
    (hpunctual : r.state.Punctual) :
    let e : Happening := ⟨r.state, .operation (.leave ssrc)⟩
    (e.left? = some ssrc ∧
        Act none (some ssrc) (r.state.scene h) ((clientRelease ssrc r).2.state.scene (e :: h))) ∨
      Acts (r.state.scene h) ((clientRelease ssrc r).2.state.scene (e :: h)) := by
  intro e
  have hknown : r.state.arbitrator.roster.contains ssrc = r.state.participants.contains ssrc :=
    horderly.known ssrc
  have hstays : e.left? = none → Acts (r.state.scene h) (r.state.scene (e :: h)) := by
    intro hleft
    rw [scene_cons hleft]
    exact .refl
  simp only [clientRelease, whenActive]
  split
  swap
  · next hactive => exact .inr (hstays (by simp [e, Happening.left?, hactive]))
  next hactive =>
  split
  · next error herror =>
    have hstranger : r.state.arbitrator.roster.contains ssrc = false := by
      by_contra hcontains
      simp [Arbitrator.clientRelease, hcontains] at herror
    exact .inr (hstays (by simp [e, Happening.left?, ← hknown, hstranger]))
  · next t ht =>
    have hsound : r.state.arbitrator.places.Sound := horderly.sound
    obtain ⟨hcontains, -⟩ := Arbitrator.leads_clientRelease (fun _ => False)
      (t := ⟨r.state.arbitrator, {}⟩) hsound rfl ht
    have hpresent : r.state.participants.contains ssrc = true := hknown ▸ hcontains
    have hleft : e.left? = some ssrc := by simp [e, Happening.left?, hactive, hpresent]
    obtain ⟨p, hget⟩ := Roster.exists_get?_of_contains hpresent
    rw [show (setArbitrator t.machine r).state.participants.get? ssrc = some p from hget]
    set out := (Participant.beginRelease ⟨p, t.out⟩).out with hout
    have hmessages : out.messages = t.out.messages := by
      rw [hout, Participant.beginRelease, Participant.messages_moveTo]
      rfl
    set r₁ : Run := { setArbitrator t.machine r with
      state := { (setArbitrator t.machine r).state with
        participants := r.state.participants.erase ssrc } } with hr₁
    have hset : r₁.state.Punctual := punctual_congr hpunctual rfl rfl
    obtain ⟨hafter, -, -⟩ := scene_dispatch h out hset
    refine .inl ⟨hleft, ?_⟩
    rw [scene_cons_left hleft]
    change Act none _ _ { (dispatch out r₁).state.scene h with
      departed := ssrc :: ((dispatch out r₁).state.scene h).departed }
    rw [hafter, hmessages]
    exact .left (s := r.state.scene h) (.left hcontains)
      (Arbitrator.orderly_without ssrc hsound.toOrderly)
      (Arbitrator.deed_clientRelease (t := ⟨r.state.arbitrator, {}⟩) hsound rfl ht)

/-- An operation that does not move the clock is the act of a party that leaves, or none, one or a
few other acts, as long as no party joins again after it has left and nobody is granted the floor
without asking. -/
theorem acts_perform (op : Operation) (hinstant : op.Instant r.state)
    (horderly : (r.state.scene h).Orderly) (hpunctual : r.state.Punctual)
    (hjoin : ∀ ssrc ∈ Happening.joined? ⟨r.state, .operation op⟩, ssrc ∉ h.departed)
    (hassist : ∀ ssrc, op ≠ .establish ssrc true) :
    let e : Happening := ⟨r.state, .operation op⟩
    (∃ ssrc, e.left? = some ssrc ∧
        Act none (some ssrc) (r.state.scene h) ((perform op r).2.state.scene (e :: h))) ∨
      Acts (r.state.scene h) ((perform op r).2.state.scene (e :: h)) := by
  intro e
  have hcons : ∀ {s' : Session}, e.left? = none → Acts (r.state.scene h) (s'.scene h) →
      Acts (r.state.scene h) (s'.scene (e :: h)) :=
    fun hleft hacts => by rwa [scene_cons hleft]
  have hact : ∀ ssrc input, Brings none ssrc input → input ≠ .initialized →
      Acts (r.state.scene h) ((act input ssrc r).2.state.scene h) :=
    fun ssrc input hbrings hsetUp => acts_withParticipant fun _ hget =>
      acts_turn input horderly hpunctual hbrings hsetUp hget
  cases op with
  | join ssrc priority originator =>
    refine .inr (hcons rfl (acts_join horderly fun hactive => ?_))
    exact hjoin ssrc (by simp [Happening.joined?, hactive])
  | setUp ssrc => exact .inr (hcons rfl (acts_setUp horderly hpunctual))
  | setUpAll => exact .inr (hcons rfl (acts_setUpEach _ horderly hpunctual))
  | establish ssrc granted =>
    cases granted with
    | false =>
      exact .inr (hcons rfl (acts_withParticipant fun p hget =>
        acts_turn (.established false p.priority) horderly hpunctual
          ⟨by simp, by simp, by simp, by simp⟩ (by simp) hget))
    | true => exact absurd rfl (hassist ssrc)
  | push ssrc | releaseTalk ssrc | accept ssrc | askPosition ssrc | setDual ssrc on
  | setIndicator ssrc wanted =>
    exact .inr (hcons rfl (hact _ _ ⟨by simp, by simp, by simp, by simp⟩ (by simp)))
  | leave ssrc => exact (acts_clientRelease horderly hpunctual).imp_left fun hleft => ⟨ssrc, hleft⟩
  | release =>
    refine .inr (hcons rfl ?_)
    simp only [perform, release, hinstant.down rfl, Bool.not_false, if_true]
    exact .refl
  | runUntilIdle | advanceTo t | advanceBy delta =>
    have hstill := hinstant.still
    simp [Operation.target?] at hstill

end Session
end FloorControl
