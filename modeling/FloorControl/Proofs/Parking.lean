import FloorControl.Proofs.Patience
import FloorControl.Proofs.Words

/-!
# Parties that are kept waiting

A request that is heard while the floor is open gets its answer at once, or its sender becomes the
preemptor and hears nothing for the time being. Whatever the arbitrator does after that, the sender
is the preemptor still or gets an answer; and a preemptor that asks again is told its place. A
release is confirmed at once.
-/

namespace FloorControl.Arbitrator

open Participant (Wait)

def Replies (w : Wait) (x : Ssrc) (messages : List Envelope) : Prop :=
  ∃ message, letterTo x message ∈ messages ∧ w.endsBy message = true

theorem Replies.of_subset {w : Wait} {x : Ssrc} {messages more : List Envelope}
    (h : Replies w x messages) (hsubset : messages ⊆ more) : Replies w x more :=
  h.imp fun _ => And.imp_left (@hsubset _)

theorem replies_lettersTo {w : Wait} {roster : Roster Proxy} {x : Ssrc} {message : Message}
    (hknown : roster.contains x = true) (hends : w.endsBy message = true) :
    Replies w x (lettersTo roster x message) :=
  ⟨message, mem_lettersTo.mpr ⟨hknown, rfl⟩, hends⟩

namespace Places

variable {p q : Places} {x : Ssrc} {who holder : Talker} {messages : List Envelope}
  {input : Input}

def Parks (p : Places) (x : Ssrc) : Prop := ∃ who, p.preemptor = some who ∧ who.ssrc = x

theorem Lines.replies (h : p.Lines who messages q) (hknown : p.roster.contains who.ssrc = true) :
    Replies .answer who.ssrc messages := by
  cases h with
  | waits _ => exact replies_lettersTo hknown rfl
  | denied _ => exact replies_lettersTo hknown rfl

theorem Lines.parks (h : p.Lines who messages q) (hparks : p.Parks x) : q.Parks x := by
  obtain ⟨queue, rfl, -⟩ := h.exists_queue
  exact hparks

theorem Judges.parks (h : p.Judges holder messages q) (hparks : p.Parks x)
    (hknown : p.roster.contains x = true) : q.Parks x ∨ Replies .answer x messages := by
  obtain ⟨who, hpreemptor, rfl⟩ := hparks
  cases h with
  | nobody hnone => cases hnone.symm.trans hpreemptor
  | again _ _ => exact .inl ⟨who, hpreemptor, rfl⟩
  | yields hyields hlines =>
    cases hpreemptor.symm.trans hyields
    exact .inr (hlines.replies hknown)

theorem Adjusts.parks (h : p.Adjusts input q) (hleave : input ≠ .leave x) (hparks : p.Parks x) :
    q.Parks x := by
  cases h with
  | came | readied | nobody => exact hparks
  | @left ssrc =>
    obtain ⟨who, hpreemptor, rfl⟩ := hparks
    have hother : who.ssrc ≠ ssrc := fun heq => hleave (heq ▸ rfl)
    exact ⟨who, by simp [without, hpreemptor, hother], rfl⟩

theorem Adjusts.opened (h : p.Adjusts input q) (hopened : p.Opened) : q.Opened := by
  cases h with
  | came | readied | left | nobody => exact hopened

theorem Adjusts.knows (h : p.Adjusts input q) (hleave : input ≠ .leave x)
    (hknown : p.roster.contains x = true) : q.roster.contains x = true := by
  cases h with
  | came => simp [Roster.contains_insert, hknown]
  | readied => exact (Roster.contains_modify ..).trans hknown
  | @left ssrc =>
    have hother : x ≠ ssrc := fun heq => hleave (heq ▸ rfl)
    simp [without, Roster.contains_erase, hother, hknown]
  | nobody => exact hknown

end Places

open Places

variable {p q : Places} {x : Ssrc} {input : Input} {messages : List Envelope}
  {t : Turn Arbitrator}

/-- Once the floor has been opened, it stays so until the call is taken down. -/
theorem Deed.stays_opened (h : Deed input p messages q) (horderly : p.Orderly)
    (hbegin : input ≠ .beginRelease) (hfinish : input ≠ .finishRelease) (hopened : p.Opened) :
    q.Opened := by
  by_contra hclosed
  exact (h.unopened horderly hbegin hfinish hclosed).1 hopened

/-- A preemptor that does not give up is the preemptor still, or gets an answer. -/
theorem Deed.parks (h : Deed input p messages q) (hparks : p.Parks x)
    (hknown : p.roster.contains x = true) (hrelease : input ≠ .receive (.release x))
    (hbegin : input ≠ .beginRelease) : q.Parks x ∨ Replies .answer x messages := by
  obtain ⟨who, hpreemptor, rfl⟩ := hparks
  have hparks : p.Parks who.ssrc := ⟨who, hpreemptor, rfl⟩
  cases h with
  | still | promised | gathering | opened | openedFor | granted | seconded | overdue | relieved
  | exhausted | closed => exact .inl hparks
  | preempted _ _ hnone _ | parked _ hnone _ => cases hnone.symm.trans hpreemptor
  | displaced _ hformer _ hlines =>
    cases hpreemptor.symm.trans hformer
    exact .inr (hlines.replies hknown)
  | lined _ _ hlines => exact .inl (hlines.parks hparks)
  | promoted _ _ hjudges =>
    refine (hjudges.parks (x := who.ssrc) hparks hknown).imp_right fun hreplies => ?_
    exact hreplies.of_subset (List.subset_append_right _ _)
  | succeeded _ _ hserves =>
    cases hserves with
    | preemptor hserved =>
      cases hpreemptor.symm.trans hserved
      have hgranted : Replies .answer who.ssrc (p.grantLetters who) :=
        (replies_lettersTo hknown rfl).of_subset (List.subset_append_left _ _)
      exact .inr (hgranted.of_subset (List.subset_append_right _ _))
    | first hnone => cases hnone.symm.trans hpreemptor
  | ended _ _ hnone => cases hnone.symm.trans hpreemptor
  | @withdrawn ssrc _ hinput =>
    have hother : who.ssrc ≠ ssrc := by
      rintro rfl
      exact hrelease hinput
    exact .inl ⟨who, by simp [hpreemptor, hother], rfl⟩
  | closing hinput => exact absurd hinput hbegin

def Parked (p q : Places) (x : Ssrc) : Prop := ¬ p.Parks x ∧ q.Parks x

theorem Places.Response.replies {r : Request} (h : p.Response r messages q)
    (hknown : p.roster.contains r.ssrc = true) :
    Replies .answer r.ssrc messages ∨ Parked p q r.ssrc := by
  have hanswer {message : Message} (hends : Participant.Wait.answer.endsBy message = true)
      {more : List Envelope} : Replies .answer r.ssrc (letterTo r.ssrc message :: more) :=
    ⟨message, List.mem_cons_self, hends⟩
  have hparked {q : Places} (hnew : Newcomer p r.talker)
      (hpreemptor : q.preemptor = some r.talker) : Parked p q r.ssrc := by
    refine ⟨?_, r.talker, hpreemptor, rfl⟩
    rintro ⟨who, hwho, hsame⟩
    exact hnew.unplaced (mem_placed.mpr (.inr (mem_awaiting.mpr (.inl ⟨who, hwho, hsame⟩))))
  cases h with
  | @again message _ _ hkind =>
    cases message with
    | granted | queuePositionInfo => exact .inl (hanswer rfl)
    | _ => simp [Message.kind] at hkind
  | listens _ _ => exact .inl (hanswer rfl)
  | granted _ _ =>
    have hgranted : Replies .answer r.ssrc (p.grantLetters r.talker) :=
      (replies_lettersTo hknown rfl).of_subset (List.subset_append_left _ _)
    exact .inl hgranted
  | seconded => exact .inl (hanswer rfl)
  | preempted _ hnew | parked _ hnew => exact .inr (hparked hnew rfl)
  | displaced _ hnew _ _ _ _ henlists =>
    obtain ⟨queue, rfl, -⟩ := henlists.lines.exists_queue
    exact .inr (hparked hnew rfl)
  | enlisted _ _ _ _ henlists => exact .inl (henlists.lines.replies hknown)

/-- While the floor is open, a request gets its answer at once, or its sender becomes the
preemptor. -/
theorem replies_request {r : Request} (hsound : t.machine.places.Sound)
    (hroomy : t.machine.places.queue.Roomy) (hout : t.out.messages = [])
    (hopened : t.machine.places.Opened)
    (hknown : t.machine.places.roster.contains r.ssrc = true) :
    Replies .answer r.ssrc (receive (.request r) t).out.messages ∨
      Parked t.machine.places (receive (.request r) t).machine.places r.ssrc :=
  (response_receiveRequest hsound hroomy hout hopened hknown).replies hknown

/-- While the floor is open, a release is confirmed at once. -/
theorem replies_release (hsound : t.machine.places.Sound) (hout : t.out.messages = [])
    (hopened : t.machine.places.Opened) (hknown : t.machine.places.roster.contains x = true) :
    Replies .confirmation x (receive (.release x) t).out.messages := by
  obtain ⟨message, hletter, hword⟩ := exists_word_receiveRelease hsound hout hopened hknown
  refine ⟨message, hletter, ?_⟩
  cases message with
  | taken | idle => rfl
  | _ => cases hword

/-- What comes of a message for a party that is in the call, while the floor is open. -/
structure Attends (x : Ssrc) (message : Message) (p : Places) (messages : List Envelope)
    (q : Places) : Prop where
  letters : ∀ e ∈ messages, ∃ ssrc message, e = letterTo ssrc message
  request : ∀ r, message = .request r → r.ssrc = x → Replies .answer x messages ∨ Parked p q x
  release : message = .release x → Replies .confirmation x messages
  parks : p.Parks x → message ≠ .release x → q.Parks x ∨ Replies .answer x messages

theorem attends_receive (message : Message) (hsound : t.machine.places.Sound)
    (hroomy : t.machine.places.queue.Roomy) (hout : t.out.messages = [])
    (hopened : t.machine.places.Opened) (hknown : t.machine.places.roster.contains x = true) :
    Attends x message t.machine.places (receive message t).out.messages
      (receive message t).machine.places := by
  have hdeed := deed_receive message hsound hroomy hout
  constructor
  · exact hdeed.letters
  · rintro r rfl rfl
    exact replies_request hsound hroomy hout hopened hknown
  · rintro rfl
    exact replies_release hsound hout hopened hknown
  · intro hparks hrelease
    exact hdeed.parks hparks hknown (by simpa using hrelease) (by simp)

end FloorControl.Arbitrator
