import Mathlib.Logic.Function.Basic
import Pseudocode.Run.Execution

/-!
# Requests and their replies

The worker and the host of a run share one input slot. The worker puts a request into it, announces
the request among the events, and waits; the host answers, cancels, or lets go of the run, in any
order and whatever the worker does meanwhile; and the run ends at some time. A `Meeting` is the slot
together with what became of every request, and it changes by one `Act` of either side at a time.

* `Meeting.IsSound`             the request that waits is the one in the slot
* `Meeting.IsSound.respond_eq`  an answer does what the slot says, and a refused one does nothing
* `Meeting.replies_correspond`  each request gets one answer at most, and that is what the worker gets
* `Execution.LeadsTo.slot_eq`   the slot of an execution is that of a meeting
-/

namespace Pseudocode

/-! ## Meetings -/

/-- The reply to a request, on its way from the host to the worker. -/
inductive Reception where
  | awaited
  | given (value : Text)
  /-- Nobody can give it any more. -/
  | dropped
  deriving DecidableEq, Repr

/-- How far the worker is with a request. -/
inductive Attention where
  /-- The request is in the slot, and its event is still to be sent. -/
  | announcing
  | listening
  /-- The worker went on without a reply. -/
  | turned
  deriving DecidableEq, Repr

/-- A request that the worker has made. -/
structure Inquiry where
  reception : Reception
  attention : Attention
  deriving DecidableEq, Repr

/-- What the worker gets, as soon as it gets something. -/
def Inquiry.outcome? : Inquiry → Option (Option Text)
  | ⟨_, .announcing⟩ | ⟨.awaited, .listening⟩ => none
  | ⟨.given value, .listening⟩ => some (some value)
  | ⟨.dropped, .listening⟩ | ⟨_, .turned⟩ => some none

/-- The slot, and the requests that have been made so far. -/
structure Meeting where
  slot : InputSlot
  inquiries : Text → Option Inquiry
  /-- Whether the events of the run still reach somebody. -/
  isRead : Bool

/-- What either side does. -/
inductive Act where
  /-- The worker asks for input. -/
  | request (id : Text)
  /-- The worker sends the event of its request. -/
  | announce (id : Text)
  /-- The host answers. -/
  | respond (id value : Text)
  /-- The host cancels the run. -/
  | cancel
  /-- The run ends. -/
  | finish
  /-- The host lets go of the run and its events. -/
  | release
  deriving DecidableEq, Repr

/-- The request that an act makes. -/
def Act.requested? : Act → Option Text
  | request id => some id
  | _ => none

/-- Whether an act closes the slot. -/
def Act.isEnd : Act → Bool
  | cancel | finish | release => true
  | _ => false

namespace Meeting

/-- No request has been made. -/
def start : Meeting := ⟨.idle, fun _ => none, true⟩

/-- Changes a request that has been made. -/
def change (id : Text) (f : Inquiry → Inquiry) (m : Meeting) : Meeting :=
  { m with inquiries := Function.update m.inquiries id ((m.inquiries id).map f) }

/-- Settles the reply to a request. -/
def settle (id : Text) (reception : Reception) : Meeting → Meeting :=
  change id fun inquiry => { inquiry with reception }

/-- Throws away what is in the slot. A request that waits there gets no reply. -/
def vacate (m : Meeting) : Meeting :=
  match m.slot with
  | .waiting id => m.settle id .dropped
  | _ => m

/-- The worker asks for input. It goes on without a reply if the slot is closed. -/
def request (id : Text) (m : Meeting) : Meeting :=
  let inquiry : Inquiry :=
    if m.slot = .closed then ⟨.dropped, .turned⟩ else ⟨.awaited, .announcing⟩
  { m.vacate with
    slot := m.slot.request id
    inquiries := Function.update m.vacate.inquiries id (some inquiry) }

/-- The worker sends the event of its request and waits, if the event reaches somebody. -/
def announce (id : Text) (m : Meeting) : Meeting :=
  m.change id fun inquiry =>
    if inquiry.attention = .announcing then
      { inquiry with attention := if m.isRead then .listening else .turned }
    else inquiry

/-- The host answers. What is in the slot is taken out first, and put back if the answer is to
    something else; an answer that the worker does not wait for any more is refused. -/
def respond (id value : Text) (m : Meeting) : Except InputFault Unit × Meeting :=
  let emptied := { m with slot := .idle }
  match m.slot with
  | .waiting pending =>
    if pending = id then
      if (m.inquiries id).any (·.attention ≠ .turned) then
        (.ok (), emptied.settle id (.given value))
      else (.error .closed, emptied)
    else (.error (.unknownRequest id), { emptied with slot := .waiting pending })
  | .closed => (.error .closed, { emptied with slot := .closed })
  | .idle => (.error (.unknownRequest id), { emptied with slot := .idle })

/-- The slot is closed. -/
def close (m : Meeting) : Meeting := { m.vacate with slot := m.slot.close }

/-- One act. -/
def step (m : Meeting) : Act → Meeting
  | .request id => m.request id
  | .announce id => m.announce id
  | .respond id value => (m.respond id value).2
  | .cancel | .finish => m.close
  | .release => { m.close with isRead := false }

/-- One act after the other. -/
def run (m : Meeting) (acts : List Act) : Meeting := acts.foldl step m

/-- The reply to a request. -/
def reception? (m : Meeting) (id : Text) : Option Reception := (m.inquiries id).map (·.reception)

/-- What the worker gets for a request, as soon as it gets something. -/
def outcome? (m : Meeting) (id : Text) : Option (Option Text) := (m.inquiries id).bind (·.outcome?)

variable {m : Meeting} {id other value : Text} {act : Act} {acts : List Act}

@[simp] theorem run_nil : m.run [] = m := rfl

@[simp] theorem run_cons : m.run (act :: acts) = (m.step act).run acts := rfl

theorem run_append (before after : List Act) : m.run (before ++ after) = (m.run before).run after :=
  List.foldl_append

/-! ### What the operations leave alone -/

@[simp] theorem slot_change (f : Inquiry → Inquiry) : (m.change id f).slot = m.slot := rfl

@[simp] theorem isRead_change (f : Inquiry → Inquiry) : (m.change id f).isRead = m.isRead := rfl

@[simp] theorem inquiries_change_self (f : Inquiry → Inquiry) :
    (m.change id f).inquiries id = (m.inquiries id).map f := Function.update_self ..

theorem inquiries_change_of_ne (h : other ≠ id) (f : Inquiry → Inquiry) :
    (m.change id f).inquiries other = m.inquiries other := Function.update_of_ne h ..

@[simp] theorem slot_vacate : m.vacate.slot = m.slot := by
  unfold vacate
  split <;> rfl

@[simp] theorem isRead_vacate : m.vacate.isRead = m.isRead := by
  unfold vacate
  split <;> rfl

theorem vacate_of_waiting (h : m.slot = .waiting id) : m.vacate = m.settle id .dropped := by
  rw [vacate, h]

theorem vacate_of_ne (h : ∀ id, m.slot ≠ .waiting id) : m.vacate = m := by
  unfold vacate
  split
  · rename_i id hslot
    exact absurd hslot (h id)
  · rfl

theorem inquiries_vacate_of_ne (h : m.slot ≠ .waiting id) :
    m.vacate.inquiries id = m.inquiries id := by
  unfold vacate
  split
  · rename_i pending hslot
    apply inquiries_change_of_ne
    rintro rfl
    exact h hslot
  · rfl

/-! ## Soundness -/

/-- The request that waits is the one in the slot, and the worker waits for it. -/
structure IsSound (m : Meeting) : Prop where
  waits : ∀ id, m.slot = .waiting id →
    ∃ attention, attention ≠ .turned ∧ m.inquiries id = some ⟨.awaited, attention⟩
  awaited : ∀ id, m.reception? id = some .awaited → m.slot = .waiting id
  unread : m.isRead = false → m.slot = .closed

theorem isSound_start : start.IsSound := by
  refine ⟨?_, ?_, ?_⟩
  · intro id h
    cases h
  · intro id h
    cases h
  · intro h
    cases h

/-- Once the slot is vacated, nothing is waited for. -/
theorem IsSound.reception?_vacate (h : m.IsSound) (id : Text) :
    m.vacate.reception? id ≠ some .awaited := by
  intro hawaited
  by_cases hslot : m.slot = .waiting id
  · obtain ⟨_, -, hinquiry⟩ := h.waits id hslot
    rw [vacate_of_waiting hslot, settle, reception?, inquiries_change_self, hinquiry] at hawaited
    cases hawaited
  · rw [reception?, inquiries_vacate_of_ne hslot] at hawaited
    exact hslot (h.awaited id hawaited)

theorem IsSound.request (h : m.IsSound) (id : Text) : (m.request id).IsSound := by
  -- a closed slot refuses the request, any other slot waits for it from now on
  by_cases hclosed : m.slot = .closed
  · have hslot : (m.request id).slot = .closed := by simp [Meeting.request, hclosed, InputSlot.request]
    have hvacate : m.vacate = m := vacate_of_ne fun _ => by simp [hclosed]
    refine ⟨fun other hother => by simp [hslot] at hother, fun other hother => ?_, fun _ => hslot⟩
    by_cases heq : other = id
    · subst heq
      simp [reception?, Meeting.request, hclosed] at hother
    · simp only [reception?, Meeting.request, hvacate, Function.update_of_ne heq] at hother
      have := h.awaited other hother
      simp [hclosed] at this
  · have hslot : (m.request id).slot = .waiting id := by
      match hm : m.slot with
      | .closed => exact absurd hm hclosed
      | .idle | .waiting _ => simp [Meeting.request, hm, InputSlot.request]
    refine ⟨fun other hother => ?_, fun other hother => ?_, fun hread => ?_⟩
    · rw [hslot] at hother
      cases hother
      exact ⟨.announcing, by decide, by simp [Meeting.request, hclosed]⟩
    · by_cases heq : other = id
      · rw [hslot, heq]
      · -- a request that waited in the slot before has been thrown away
        simp only [reception?, Meeting.request, Function.update_of_ne heq] at hother
        exact absurd hother (h.reception?_vacate other)
    · simp only [Meeting.request, isRead_vacate] at hread
      exact absurd (h.unread hread) hclosed

theorem IsSound.announce (h : m.IsSound) (id : Text) : (m.announce id).IsSound := by
  refine ⟨fun other hother => ?_, fun other hother => h.awaited other ?_, h.unread⟩
  · obtain ⟨attention, hattention, hinquiry⟩ := h.waits other hother
    by_cases heq : other = id
    · subst heq
      -- while a request waits in the slot the events still reach somebody
      have hread : m.isRead = true := by
        by_contra hread
        have hclosed := h.unread (by simpa using hread)
        simp [show m.slot = .waiting other from hother] at hclosed
      rw [Meeting.announce, inquiries_change_self, hinquiry, hread]
      by_cases hannouncing : attention = .announcing
      · exact ⟨.listening, by decide, by simp [hannouncing]⟩
      · exact ⟨attention, hattention, by simp [hannouncing]⟩
    · exact ⟨attention, hattention, (inquiries_change_of_ne heq _).trans hinquiry⟩
  · by_cases heq : other = id
    · subst heq
      simp only [reception?, Meeting.announce, inquiries_change_self] at hother ⊢
      cases hinquiry : m.inquiries other with
      | none => simp [hinquiry] at hother
      | some inquiry =>
        rw [hinquiry] at hother
        simp only [Option.map_some, Option.some.injEq] at hother ⊢
        split at hother <;> exact hother
    · rwa [reception?, Meeting.announce, inquiries_change_of_ne heq] at hother

theorem IsSound.close (h : m.IsSound) : m.close.IsSound := by
  refine ⟨fun id hid => ?_, fun id hid => ?_, fun _ => rfl⟩
  · cases hid
  · exact absurd hid (h.reception?_vacate id)

/-- An answer does what the slot says: it is given to the request that waits, and if it is refused
    everything stays as it is. -/
theorem IsSound.respond_eq (h : m.IsSound) (id value : Text) :
    m.respond id value = match m.slot.respond id with
      | .ok slot => (.ok (), { m.settle id (.given value) with slot })
      | .error fault => (.error fault, m) := by
  obtain ⟨slot, inquiries, isRead⟩ := m
  cases slot with
  | idle => rfl
  | closed => rfl
  | waiting pending =>
    by_cases heq : pending = id
    · subst heq
      obtain ⟨attention, hattention, hinquiry⟩ := h.waits pending rfl
      -- the worker listens, so the answer is not refused
      have hlistens : (inquiries pending).any (·.attention ≠ .turned) = true := by
        rw [show inquiries pending = some ⟨.awaited, attention⟩ from hinquiry]
        simpa using hattention
      simp only [respond, InputSlot.respond, hlistens, ↓reduceIte]
      rfl
    · simp only [respond, InputSlot.respond, heq, ↓reduceIte]

theorem IsSound.respond (h : m.IsSound) (id value : Text) : (m.respond id value).2.IsSound := by
  rw [h.respond_eq]
  cases hslot : m.slot with
  | idle => simpa [InputSlot.respond] using h
  | closed => simpa [InputSlot.respond] using h
  | waiting pending =>
    -- only the request that waits is settled, any other id changes nothing
    by_cases heq : pending = id
    · subst heq
      simp only [InputSlot.respond, ↓reduceIte]
      refine ⟨fun other hother => by simp at hother, fun other hother => ?_, fun hread => ?_⟩
      · by_cases heq : other = pending
        · subst heq
          obtain ⟨attention, -, hinquiry⟩ := h.waits other hslot
          simp [reception?, settle, hinquiry] at hother
        · have hother : m.reception? other = some .awaited := by
            rwa [reception?, settle, inquiries_change_of_ne heq] at hother
          have hwaiting := h.awaited other hother
          rw [hslot] at hwaiting
          cases hwaiting
          exact absurd rfl heq
      · have hclosed := h.unread hread
        simp [hslot] at hclosed
    · simpa [InputSlot.respond, heq] using h

/-- Every act keeps a meeting sound. -/
theorem IsSound.step (h : m.IsSound) : ∀ act, (m.step act).IsSound
  | .request id => h.request id
  | .announce id => h.announce id
  | .respond id value => h.respond id value
  | .cancel | .finish => h.close
  | .release => ⟨h.close.waits, h.close.awaited, fun _ => rfl⟩

theorem IsSound.run (h : m.IsSound) (acts : List Act) : (m.run acts).IsSound := by
  induction acts generalizing m with
  | nil => exact h
  | cons act acts ih => exact ih (h.step act)

/-- What every act of some kind keeps, all of them keep. -/
theorem IsSound.run_induction {P : Meeting → Prop} {A : Act → Prop}
    (hstep : ∀ m act, m.IsSound → P m → A act → P (m.step act)) (h : m.IsSound) (hm : P m)
    (hacts : ∀ act ∈ acts, A act) : P (m.run acts) := by
  induction acts generalizing m with
  | nil => exact hm
  | cons act acts ih =>
    obtain ⟨hact, hacts⟩ := List.forall_mem_cons.1 hacts
    exact ih (h.step act) (hstep m act h hm hact) hacts

/-! ## What is settled stays settled -/

theorem slot_respond_ne (h : m.IsSound) (hslot : m.slot ≠ .waiting id) (other value : Text) :
    (m.respond other value).2.slot ≠ .waiting id := by
  rw [h.respond_eq]
  match hm : m.slot with
  | .idle | .closed => simp [InputSlot.respond, hm]
  | .waiting pending =>
    by_cases heq : pending = other
    · simp [InputSlot.respond, heq]
    · simp only [InputSlot.respond, heq, ↓reduceIte, hm]
      rwa [hm] at hslot

/-- Without asking for it again, no act puts a request back into the slot. -/
theorem slot_step_ne (h : m.IsSound) (hslot : m.slot ≠ .waiting id) (hact : act ≠ .request id) :
    (m.step act).slot ≠ .waiting id := by
  cases act with
  | request other =>
    have hne : other ≠ id := fun heq => hact (by rw [heq])
    match hm : m.slot with
    | .closed => simp [step, request, InputSlot.request, hm]
    | .idle | .waiting _ => simpa [step, request, InputSlot.request, hm] using hne
  | announce other => exact hslot
  | respond other value => exact slot_respond_ne h hslot other value
  | cancel | finish | release => simp [step, close, InputSlot.close]

/-- A request that is not in the slot stays as it is, except for its announcement. -/
theorem inquiries_step (h : m.IsSound) (hslot : m.slot ≠ .waiting id) (hact : act ≠ .request id)
    (hannounce : act ≠ .announce id) : (m.step act).inquiries id = m.inquiries id := by
  -- the act is about another request, and so is the one that waits
  cases act with
  | request other =>
    have hne : id ≠ other := fun heq => hact (by rw [heq])
    simp only [step, request, Function.update_of_ne hne, inquiries_vacate_of_ne hslot]
  | announce other =>
    have hne : id ≠ other := fun heq => hannounce (by rw [heq])
    simp only [step, announce, inquiries_change_of_ne hne]
  | respond other value =>
    simp only [step, h.respond_eq]
    match hm : m.slot with
    | .idle | .closed => rfl
    | .waiting pending =>
      by_cases heq : pending = other
      · have hne : id ≠ other := fun hid => hslot (by rw [hm, heq, hid])
        simp only [InputSlot.respond, heq, ↓reduceIte, settle, inquiries_change_of_ne hne]
      · simp only [InputSlot.respond, heq, ↓reduceIte]
  | cancel | finish | release => simp only [step, close, inquiries_vacate_of_ne hslot]

/-- The reply to a request that is not in the slot is settled. -/
theorem reception?_step (h : m.IsSound) (hslot : m.slot ≠ .waiting id) (hact : act ≠ .request id) :
    (m.step act).reception? id = m.reception? id := by
  by_cases hannounce : act = .announce id
  · subst hannounce
    simp only [step, reception?, announce, inquiries_change_self, Option.map_map]
    congr 1
    funext inquiry
    simp only [Function.comp_apply]
    split <;> rfl
  · rw [reception?, inquiries_step h hslot hact hannounce, reception?]

theorem settled_run (h : m.IsSound) (hslot : m.slot ≠ .waiting id)
    (hacts : Act.request id ∉ acts) :
    (m.run acts).slot ≠ .waiting id ∧ (m.run acts).reception? id = m.reception? id := by
  refine h.run_induction (P := fun later => later.slot ≠ .waiting id ∧
    later.reception? id = m.reception? id) ?_ ⟨hslot, rfl⟩ (List.forall_mem_ne'.2 hacts)
  intro later act hsound hlater hact
  exact ⟨slot_step_ne hsound hlater.1 hact, (reception?_step hsound hlater.1 hact).trans hlater.2⟩

/-- What the worker got for a request is settled as well. -/
theorem outcome?_step (h : m.IsSound) (hslot : m.slot ≠ .waiting id) (hact : act ≠ .request id)
    {outcome : Option Text} (hid : m.outcome? id = some outcome) :
    (m.step act).outcome? id = some outcome := by
  by_cases hannounce : act = .announce id
  · subst hannounce
    obtain ⟨⟨reception, attention⟩, hinquiry, houtcome⟩ := Option.bind_eq_some_iff.1 hid
    have hannounced : attention ≠ .announcing := by
      rintro rfl
      cases reception <;> cases houtcome
    simp [step, outcome?, announce, hinquiry, hannounced, houtcome]
  · rw [outcome?, inquiries_step h hslot hact hannounce, ← hid, outcome?]

theorem outcome?_run (h : m.IsSound) (hslot : m.slot ≠ .waiting id) (hacts : Act.request id ∉ acts)
    {outcome : Option Text} (hid : m.outcome? id = some outcome) :
    (m.run acts).outcome? id = some outcome := by
  refine (h.run_induction (P := fun later => later.slot ≠ .waiting id ∧
    later.outcome? id = some outcome) ?_ ⟨hslot, hid⟩ (List.forall_mem_ne'.2 hacts)).2
  intro later act hsound hlater hact
  exact ⟨slot_step_ne hsound hlater.1 hact, outcome?_step hsound hlater.1 hact hlater.2⟩

/-- A closed slot stays closed. -/
theorem slot_step_closed (h : m.IsSound) (hslot : m.slot = .closed) (act : Act) :
    (m.step act).slot = .closed := by
  cases act with
  | request id => simp [step, request, InputSlot.request, hslot]
  | announce id => exact hslot
  | respond id value => simp [step, h.respond_eq, InputSlot.respond, hslot]
  | cancel | finish | release => rfl

/-- A worker that went on without a reply has done so for good. -/
theorem inquiries_step_turned (h : m.IsSound) (hslot : m.slot = .closed)
    (hid : m.inquiries id = some ⟨.dropped, .turned⟩) (act : Act) :
    (m.step act).inquiries id = some ⟨.dropped, .turned⟩ := by
  by_cases hact : act = .request id
  · simp [hact, step, request, hslot]
  by_cases hannounce : act = .announce id
  · simp [hannounce, step, announce, hid]
  · rw [inquiries_step h (by simp [hslot]) hact hannounce, hid]

theorem closed_run (h : m.IsSound) (hslot : m.slot = .closed) (acts : List Act) :
    (m.run acts).slot = .closed ∧ ∀ id, Act.request id ∈ acts ∨
      m.inquiries id = some ⟨.dropped, .turned⟩ →
      (m.run acts).inquiries id = some ⟨.dropped, .turned⟩ := by
  induction acts generalizing m with
  | nil =>
    refine ⟨hslot, fun id hid => ?_⟩
    exact hid.resolve_left List.not_mem_nil
  | cons act acts ih =>
    obtain ⟨hrun, hinquiries⟩ := ih (h.step act) (slot_step_closed h hslot act)
    refine ⟨hrun, fun id hid => hinquiries id ?_⟩
    rcases hid with hid | hid
    · rcases List.mem_cons.1 hid with rfl | hid
      · exact .inr (by simp [step, request, hslot])
      · exact .inl hid
    · exact .inr (inquiries_step_turned h hslot hid act)

/-- The worker has not gone on without a reply to the request. -/
def Attends (m : Meeting) (id : Text) : Prop :=
  ∃ inquiry, m.inquiries id = some inquiry ∧ inquiry.attention ≠ .turned

/-- While the events are read, the worker does not go on without a reply. -/
theorem Attends.step (hid : m.Attends id) (h : m.IsSound) (hslot : m.slot ≠ .waiting id)
    (hread : m.isRead = true) (hact : act ≠ .request id) : (m.step act).Attends id := by
  by_cases hannounce : act = .announce id
  · subst hannounce
    obtain ⟨inquiry, hinquiry, hattention⟩ := hid
    refine ⟨_, by rw [Meeting.step, announce, inquiries_change_self, hinquiry]; rfl, ?_⟩
    by_cases hannouncing : inquiry.attention = .announcing
    · simp [hannouncing, hread]
    · simpa [hannouncing] using hattention
  · rwa [Attends, inquiries_step h hslot hact hannounce]

theorem isRead_step (h : m.IsSound) (hact : act ≠ .release) : (m.step act).isRead = m.isRead := by
  cases act with
  | request id => exact isRead_vacate
  | announce id => rfl
  | respond id value =>
    simp only [step, h.respond_eq]
    split <;> rfl
  | cancel | finish => exact isRead_vacate
  | release => exact absurd rfl hact

theorem Attends.run (hid : m.Attends id) (h : m.IsSound) (hslot : m.slot ≠ .waiting id)
    (hread : m.isRead = true) (hacts : Act.request id ∉ acts) (hrelease : Act.release ∉ acts) :
    (m.run acts).Attends id ∧ (m.run acts).isRead = true := by
  refine (h.run_induction (P := fun later => later.slot ≠ .waiting id ∧ later.Attends id ∧
    later.isRead = true) (A := fun act => act ≠ .request id ∧ act ≠ .release) ?_
    ⟨hslot, hid, hread⟩ fun act hmem => ?_).2
  · intro later act hsound ⟨hslot, hid, hread⟩ ⟨hact, hrelease⟩
    exact ⟨slot_step_ne hsound hslot hact, hid.step hsound hslot hread hact,
      (isRead_step hsound hrelease).trans hread⟩
  · exact ⟨List.forall_mem_ne'.2 hacts act hmem, List.forall_mem_ne'.2 hrelease act hmem⟩

/-! ## Requests and replies correspond -/

/-- Only requests that have been made are known. -/
theorem inquiries_run_eq_none (h : m.IsSound) (hid : m.inquiries id = none)
    (hacts : Act.request id ∉ acts) : (m.run acts).inquiries id = none := by
  refine h.run_induction (P := fun later => later.inquiries id = none) ?_ hid
    (List.forall_mem_ne'.2 hacts)
  intro later act hsound hlater hact
  by_cases hannounce : act = .announce id
  · simp [hannounce, step, announce, hlater]
  · rw [← hlater]
    refine inquiries_step hsound (fun hslot => ?_) hact hannounce
    obtain ⟨_, -, hinquiry⟩ := hsound.waits id hslot
    rw [hlater] at hinquiry
    cases hinquiry

/-- A request that waits has been made, and is not made again. -/
theorem request_not_mem_of_waiting {before after : List Act}
    (hfresh : ((before ++ after).filterMap Act.requested?).Nodup)
    (hslot : (start.run before).slot = .waiting id) : Act.request id ∉ after := by
  have hmem (acts : List Act) (h : Act.request id ∈ acts) : id ∈ acts.filterMap Act.requested? :=
    List.mem_filterMap.2 ⟨_, h, rfl⟩
  obtain ⟨_, -, hinquiry⟩ := (isSound_start.run before).waits id hslot
  have hbefore : Act.request id ∈ before := by
    by_contra hbefore
    rw [inquiries_run_eq_none isSound_start rfl hbefore] at hinquiry
    cases hinquiry
  rw [List.filterMap_append, List.nodup_append] at hfresh
  exact fun hafter => hfresh.2.2 id (hmem before hbefore) id (hmem after hafter) rfl

/-- What a meeting and the acts after it promise to the worker and to the host. -/
structure Corresponds (m : Meeting) (after : List Act) : Prop where
  /-- A request waits exactly while it is in the slot, so at most one waits. -/
  awaited_iff : ∀ id, m.reception? id = some .awaited ↔ m.slot = .waiting id
  /-- An answer is taken exactly when its request waits. -/
  answered_iff : ∀ id value, (m.respond id value).1 = .ok () ↔ m.slot = .waiting id
  /-- The answer stays what it is, no second one is taken, and the worker gets it and nothing else,
      unless the host lets go of the request before it has heard of it. -/
  answered : ∀ id value rest, after = .respond id value :: rest → m.slot = .waiting id →
    (m.run after).reception? id = some (.given value) ∧
    (∀ again, ((m.run after).respond id again).1 ≠ .ok ()) ∧
    (.release ∉ rest → ((m.run after).announce id).outcome? id = some (some value) ∧
      ∀ outcome, (m.run after).outcome? id = some outcome → outcome = some value)
  /-- An answer that is refused changes nothing, and is told why. -/
  refused : ∀ id value fault, (m.respond id value).1 = .error fault →
    (m.respond id value).2 = m ∧
      fault = if m.slot = .closed then .closed else .unknownRequest id
  /-- The end closes the slot, and a worker that waits goes on without a reply. -/
  ended : ∀ act rest, act.isEnd = true → after = act :: rest →
    (m.run after).slot = .closed ∧ ∀ id, m.slot = .waiting id →
      (m.run after).reception? id = some .dropped ∧
      ((m.run after).announce id).outcome? id = some none ∧
      (m.inquiries id = some ⟨.awaited, .listening⟩ → (m.run after).outcome? id = some none)
  /-- A closed slot stays closed, and all requests go without a reply. -/
  closed : m.slot = .closed → (m.run after).slot = .closed ∧
    ∀ id, .request id ∈ after → (m.run after).outcome? id = some none

theorem IsSound.awaited_iff (h : m.IsSound) (id : Text) :
    m.reception? id = some .awaited ↔ m.slot = .waiting id := by
  refine ⟨h.awaited id, fun hslot => ?_⟩
  obtain ⟨_, -, hinquiry⟩ := h.waits id hslot
  rw [reception?, hinquiry]
  rfl

theorem IsSound.answered_iff (h : m.IsSound) (id value : Text) :
    (m.respond id value).1 = .ok () ↔ m.slot = .waiting id := by
  rw [h.respond_eq]
  match m.slot with
  | .idle | .closed => simp [InputSlot.respond]
  | .waiting pending => by_cases heq : pending = id <;> simp [InputSlot.respond, heq]

theorem IsSound.refused (h : m.IsSound) {fault : InputFault}
    (hfault : (m.respond id value).1 = .error fault) :
    (m.respond id value).2 = m ∧ fault = if m.slot = .closed then .closed else .unknownRequest id := by
  rw [h.respond_eq] at hfault ⊢
  match hm : m.slot with
  | .idle | .closed =>
    rw [hm] at hfault
    exact ⟨rfl, by simpa [InputSlot.respond] using hfault.symm⟩
  | .waiting pending =>
    rw [hm] at hfault
    by_cases heq : pending = id
    · simp [InputSlot.respond, heq] at hfault
    · simp only [InputSlot.respond, heq, ↓reduceIte] at hfault ⊢
      exact ⟨trivial, by simpa using hfault.symm⟩

/-- A worker that hears of its own request gets what was given. -/
theorem outcome?_of_given {attention : Attention}
    (hid : m.inquiries id = some ⟨.given value, attention⟩) (hattention : attention ≠ .turned)
    (hread : m.isRead = true) : (m.announce id).outcome? id = some (some value) ∧
      ∀ outcome, m.outcome? id = some outcome → outcome = some value := by
  cases attention with
  | announcing => simp [outcome?, announce, hid, hread, Inquiry.outcome?]
  | listening => simp [outcome?, announce, hid, Inquiry.outcome?]
  | turned => exact absurd rfl hattention

/-- Without a reply the worker goes on as soon as it listens. -/
theorem outcome?_of_dropped {attention : Attention}
    (hid : m.inquiries id = some ⟨.dropped, attention⟩) :
    (m.announce id).outcome? id = some none := by
  cases attention with
  | announcing => cases hread : m.isRead <;> simp [outcome?, announce, hid, hread, Inquiry.outcome?]
  | listening | turned => simp [outcome?, announce, hid, Inquiry.outcome?]

/-- What follows an answer to the request that waits. -/
theorem IsSound.answered (h : m.IsSound) (hslot : m.slot = .waiting id)
    (hacts : Act.request id ∉ acts) :
    let later := (m.respond id value).2.run acts
    later.reception? id = some (.given value) ∧
    (∀ again, (later.respond id again).1 ≠ .ok ()) ∧
    (.release ∉ acts → (later.announce id).outcome? id = some (some value) ∧
      ∀ outcome, later.outcome? id = some outcome → outcome = some value) := by
  intro later
  obtain ⟨attention, hattention, hinquiry⟩ := h.waits id hslot
  have hnext : (m.respond id value).2 = { m.settle id (.given value) with slot := .idle } := by
    simp [h.respond_eq, hslot, InputSlot.respond]
  have hsound := h.respond id value
  have hidle : (m.respond id value).2.slot ≠ .waiting id := by simp [hnext]
  have hgiven : (m.respond id value).2.inquiries id = some ⟨.given value, attention⟩ := by
    simp [hnext, settle, hinquiry]
  obtain ⟨hgone, hreception⟩ := settled_run hsound hidle hacts
  have hreply : later.reception? id = some (.given value) := by
    rw [hreception, reception?, hgiven]
    rfl
  refine ⟨hreply, fun again => ?_, fun hrelease => ?_⟩
  · rw [Ne, (hsound.run acts).answered_iff]
    exact hgone
  · -- the slot was open, so the events were read, and nobody has let go of them since
    have hread : (m.respond id value).2.isRead = true := by
      rw [hnext]
      by_contra hread
      have hclosed := h.unread (eq_false_of_ne_true hread)
      simp [hslot] at hclosed
    have hattends : (m.respond id value).2.Attends id := ⟨_, hgiven, hattention⟩
    obtain ⟨⟨⟨reception, attention⟩, hlater, hlistens⟩, hread⟩ :=
      hattends.run hsound hidle hread hacts hrelease
    obtain rfl : reception = .given value := by
      rw [reception?, hlater] at hreply
      exact Option.some.inj hreply
    exact outcome?_of_given hlater hlistens hread

theorem step_of_isEnd (h : act.isEnd = true) :
    (m.step act).slot = .closed ∧ (m.step act).inquiries = m.vacate.inquiries := by
  cases act <;> first | exact ⟨rfl, rfl⟩ | cases h

/-- What follows the end, for a worker that waits. -/
theorem IsSound.ended (h : m.IsSound) (hact : act.isEnd = true) (hslot : m.slot = .waiting id)
    (hacts : Act.request id ∉ acts) :
    let later := (m.step act).run acts
    later.reception? id = some .dropped ∧ (later.announce id).outcome? id = some none ∧
      (m.inquiries id = some ⟨.awaited, .listening⟩ → later.outcome? id = some none) := by
  intro later
  obtain ⟨hclosed, hinquiries⟩ := step_of_isEnd (m := m) hact
  obtain ⟨attention, -, hinquiry⟩ := h.waits id hslot
  -- whoever waits is dropped with the slot, and nothing settles it again
  have hdropped : (m.step act).inquiries id = some ⟨.dropped, attention⟩ := by
    rw [hinquiries, vacate_of_waiting hslot, settle, inquiries_change_self, hinquiry]
    rfl
  have hgone : (m.step act).slot ≠ .waiting id := by simp [hclosed]
  have hreply : later.reception? id = some .dropped := by
    rw [(settled_run (h.step act) hgone hacts).2, reception?, hdropped]
    rfl
  refine ⟨hreply, ?_, fun hlistens => ?_⟩
  · obtain ⟨⟨reception, attention⟩, hlater, hreception⟩ := Option.map_eq_some_iff.1 hreply
    obtain rfl : reception = .dropped := hreception
    exact outcome?_of_dropped hlater
  · obtain rfl : attention = .listening := by
      rw [hinquiry] at hlistens
      exact (Inquiry.mk.inj (Option.some.inj hlistens)).2
    apply outcome?_run (h.step act) hgone hacts
    rw [outcome?, hdropped]
    rfl

/-- Whatever the worker and the host do, in whatever order: as long as every request has an id of its
    own, requests and replies correspond. -/
theorem replies_correspond (before after : List Act)
    (hfresh : ((before ++ after).filterMap Act.requested?).Nodup) :
    (start.run before).Corresponds after := by
  -- the past is in the soundness of the state, the future needs ids that come once
  have hsound := isSound_start.run before
  refine ⟨hsound.awaited_iff, hsound.answered_iff, ?answered, fun id value fault => hsound.refused,
    ?ended, ?closed⟩
  case answered =>
    rintro id value rest rfl hslot
    have hacts := request_not_mem_of_waiting hfresh hslot
    rw [List.mem_cons, not_or] at hacts
    exact hsound.answered hslot hacts.2
  case ended =>
    rintro act rest hact rfl
    obtain ⟨hclosed, -⟩ := step_of_isEnd (m := start.run before) hact
    refine ⟨(closed_run (hsound.step act) hclosed rest).1, fun id hslot => ?_⟩
    have hacts := request_not_mem_of_waiting hfresh hslot
    rw [List.mem_cons, not_or] at hacts
    exact hsound.ended hact hslot hacts.2
  case closed =>
    intro hslot
    obtain ⟨hclosed, hturned⟩ := closed_run hsound hslot after
    refine ⟨hclosed, fun id hid => ?_⟩
    rw [outcome?, hturned id (.inl hid)]
    rfl

/-- A stale answer, an answer in time, a second one to the same request, and a request after the
    end. -/
theorem replies_correspond_once :
    let before := [Act.request ['a'], .announce ['a'], .respond ['b'] ['0']]
    let after := [Act.respond ['a'] ['1'], .respond ['a'] ['2'], .cancel, .request ['c']]
    ((before ++ after).filterMap Act.requested?).Nodup ∧
      (start.run before).slot = .waiting ['a'] ∧
      ((start.run before).run after).reception? ['a'] = some (.given ['1']) ∧
      ((start.run before).run after).outcome? ['c'] = some none := by
  have hfresh : [['a'], ['c']].Nodup := by decide
  have h := replies_correspond
    [.request ['a'], .announce ['a'], .respond ['b'] ['0']]
    [.respond ['a'] ['1'], .respond ['a'] ['2'], .cancel, .request ['c']] hfresh
  refine ⟨hfresh, rfl, (h.answered ['a'] ['1'] _ rfl rfl).1, rfl⟩

end Meeting

/-! ## Executions -/

namespace Execution

open Meeting

variable {e e' : Execution} {m : Meeting} {id value : Text}

/-- The run goes on until it asks again, or to its end. -/
def goingOn : (request : Option Text) → Act
  | some id => .request id
  | none => .finish

theorem slot_step_goingOn (request : Option Text) :
    (m.step (goingOn request)).slot = m.slot.follow request := by
  cases request <;> rfl

/-- An execution starts as a meeting does. -/
theorem slot_start (run : List Text → Transcript) (notices : List Text) :
    (Execution.start run notices).slot = (Meeting.start.step (goingOn (run []).request)).slot := by
  rw [slot_step_goingOn]
  rfl

/-- An execution takes an answer when the meeting takes it, and the run goes on. -/
theorem slot_respond (hsound : m.IsSound) (hslot : e.slot = m.slot)
    (h : e.respond id value = .ok e') :
    (m.respond id value).1 = .ok () ∧
      e'.slot = ((m.respond id value).2.step (goingOn e'.transcript.request)).slot := by
  rw [slot_step_goingOn, hsound.respond_eq, ← hslot]
  cases hrespond : e.slot.respond id with
  | error fault => simp [Execution.respond, hrespond, bind, Except.bind] at h
  | ok slot =>
    simp only [Execution.respond, hrespond, bind, Except.bind, pure, Except.pure,
      Except.ok.injEq] at h
    subst h
    exact ⟨rfl, rfl⟩

/-- An execution refuses an answer as the meeting does. -/
theorem respond_eq_error (hsound : m.IsSound) (hslot : e.slot = m.slot) {fault : InputFault}
    (h : e.respond id value = .error fault) : m.respond id value = (.error fault, m) := by
  rw [hsound.respond_eq, ← hslot]
  cases hrespond : e.slot.respond id with
  | error fault =>
    simp only [Execution.respond, hrespond, bind, Except.bind, Except.error.injEq] at h
    rw [h]
  | ok slot => simp [Execution.respond, hrespond, bind, Except.bind, pure, Except.pure] at h

theorem slot_cancel (hslot : e.slot = m.slot) : e.cancel.slot = (m.step .cancel).slot := by
  show e.slot.close = m.slot.close
  rw [hslot]

theorem slot_poll (e : Execution) : e.poll.2.slot = e.slot := by
  unfold poll
  split
  · rfl
  · split
    · rfl
    · rfl
    · split <;> rfl

/-- What a host can make of an execution. -/
inductive LeadsTo (e : Execution) : Execution → Prop where
  | refl : LeadsTo e e
  | poll {next : Execution} : LeadsTo e next → LeadsTo e next.poll.2
  | respond {next last : Execution} {id value : Text} :
      LeadsTo e next → next.respond id value = .ok last → LeadsTo e last
  | cancel {next : Execution} : LeadsTo e next → LeadsTo e next.cancel

/-- Whatever the host does, the slot of an execution is that of a meeting. -/
theorem LeadsTo.slot_eq {run : List Text → Transcript} {notices : List Text}
    (h : LeadsTo (Execution.start run notices) e) :
    ∃ acts, e.slot = (Meeting.start.run acts).slot := by
  induction h with
  | refl => exact ⟨[goingOn (run []).request], slot_start run notices⟩
  | poll _ ih =>
    obtain ⟨acts, hslot⟩ := ih
    exact ⟨acts, (slot_poll _).trans hslot⟩
  | @respond _ last id value _ hrespond ih =>
    obtain ⟨acts, hslot⟩ := ih
    obtain ⟨-, hnext⟩ := slot_respond (isSound_start.run acts) hslot hrespond
    exact ⟨acts ++ [.respond id value, goingOn last.transcript.request],
      by rw [hnext, run_append, run_cons, run_cons, run_nil]; rfl⟩
  | cancel _ ih =>
    obtain ⟨acts, hslot⟩ := ih
    exact ⟨acts ++ [.cancel], by rw [slot_cancel hslot, run_append, run_cons, run_nil]⟩

end Execution

end Pseudocode
