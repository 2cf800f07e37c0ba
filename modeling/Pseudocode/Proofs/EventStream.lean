import Pseudocode.Proofs.Truncation
import Pseudocode.Run.Dialogue

/-!
# The events of a run

What a host hears from a run, whatever it answers: notices first, then what the program does, and
one last event, unless the host cancels the run.

* `Transcript.IsSteady`             answers never take back an event
* `Execution.converse_of_isSteady`  a conversation hands out the events of one transcript
* `Execution.converse_ofSource`     which events those are
-/

namespace Pseudocode

/-! ## Transcripts -/

namespace Transcript

/-- More events than before, or the same. -/
theorem eventsFrom_grows (ids : Nat → Text) {log log' : List Script.Interaction}
    (h : log <+: log') (count : Nat) : eventsFrom ids count log <+: eventsFrom ids count log' := by
  induction log generalizing log' count with
  | nil => exact List.nil_prefix
  | cons i log ih =>
    obtain ⟨more, rfl⟩ := h
    cases i with
    | print shown => exact List.cons_prefix_cons.2 ⟨rfl, ih ⟨more, rfl⟩ count⟩
    | input prompt => exact List.cons_prefix_cons.2 ⟨rfl, ih ⟨more, rfl⟩ (count + 1)⟩

theorem isTerminal_of_mem_eventsFrom {ids : Nat → Text} {log : List Script.Interaction} :
    ∀ {count : Nat}, ∀ e ∈ eventsFrom ids count log, e.isTerminal = false := by
  induction log with
  | nil => exact fun e he => by cases he
  | cons i log ih =>
    intro count e he
    cases i <;> obtain rfl | he := List.mem_cons.1 he <;> first | rfl | exact ih e he

/-- What a run does with some answers: an event is never taken back when there are more of them, and
    the last event comes when no answer is missing. -/
structure IsSteady (run : List Text → Transcript) : Prop where
  grows (answers : List Text) (value : Text) (h : (run answers).request ≠ none) :
    (run answers).events <+: (run (answers ++ [value])).events
  isOpen (answers : List Text) (h : (run answers).request ≠ none) :
    ∀ e ∈ (run answers).events, e.isTerminal = false

theorem isSteady_ofReport (report : Report) : IsSteady fun _ => ofReport report where
  grows _ _ h := absurd rfl h
  isOpen _ h := absurd rfl h

variable (program : Translation) (limits : Limits) (ids : Nat → Text)

/-- A request that is not answered is the end of a run that is cancelled there. -/
theorem ending_of_request {answered : Nat} {result : Script.Result}
    (h : (ofResult program limits ids answered result).request ≠ none) :
    result.ending = .unwound .cancelled := by
  obtain ⟨log, ending⟩ := result
  cases ending with
  | done => exact absurd rfl h
  | unwound why => cases why <;> first | rfl | exact absurd rfl h

theorem events_ofResult_of_cancelled {answered : Nat} {result : Script.Result}
    (h : result.ending = .unwound .cancelled) :
    (ofResult program limits ids answered result).events = eventsFrom ids 0 result.log := by
  simp only [ofResult, h]

theorem eventsFrom_prefix_ofResult (answered : Nat) (result : Script.Result) :
    eventsFrom ids 0 result.log <+: (ofResult program limits ids answered result).events := by
  simp only [ofResult]
  split <;> simp only [failed, brokenDown, List.append_assoc, List.prefix_append, List.prefix_refl]

theorem isSteady_ofScript (script : Except Script.Program.Fault Script.Program) :
    IsSteady (ofScript program script limits ids) := by
  cases script with
  | error fault => exact ⟨fun _ _ h => absurd rfl h, fun _ h => absurd rfl h⟩
  | ok script =>
    refine ⟨fun answers value h => ?_, fun answers h => ?_⟩
    · have hcancelled := ending_of_request program limits ids h
      simp only [ofScript] at h ⊢
      rw [events_ofResult_of_cancelled program limits ids hcancelled]
      -- with one more answer the run is the same, or its log goes on behind the old one
      rcases script.run_append (w := .start limits.budget limits.policy) rfl limits.maxCalls answers
        [value] none with hsame | ⟨-, hlog⟩
      · rw [hsame]
        exact eventsFrom_prefix_ofResult program limits ids _ _
      · exact (eventsFrom_grows ids hlog 0).trans (eventsFrom_prefix_ofResult program limits ids _ _)
    · rw [ofScript, events_ofResult_of_cancelled program limits ids
        (ending_of_request program limits ids h)]
      exact isTerminal_of_mem_eventsFrom

end Transcript

/-! ## Conversations -/

/-- The value of a reply. -/
def Reply.value : Reply → Text
  | .answer value => value
  | .respond _ value => value

/-- The event of an exchange, if it is one. -/
def Exchange.event? : Exchange → Option Event
  | .event e => some e
  | _ => none

/-- The events among exchanges. -/
def Exchange.events (exchanges : List Exchange) : List Event := exchanges.filterMap Exchange.event?

namespace Exchange

@[simp] theorem events_append (xs ys : List Exchange) : events (xs ++ ys) = events xs ++ events ys :=
  List.filterMap_append ..

@[simp] theorem events_map_event (es : List Event) : events (es.map .event) = es := by
  simp [events, List.filterMap_map, Function.comp_def, event?]

@[simp] theorem events_responded (fault : Option InputFault) (xs : List Exchange) :
    events (.responded fault :: xs) = events xs := rfl

@[simp] theorem events_cancelled : events [.cancelled] = [] := rfl

end Exchange

namespace Execution

open Transcript

/-- A run that has not ended, and of which the events `told` were handed out. -/
structure Goes (told : List Event) (e : Execution) : Prop where
  transcript : e.transcript = e.run e.answers
  slot : e.slot = InputSlot.idle.follow e.transcript.request
  unfinished : e.finished = false
  events : told ++ e.queue = e.transcript.events

/-- A run that is over: nothing is left to hand out, and no answer is taken. -/
structure IsOver (e : Execution) : Prop where
  transcript : e.transcript = e.run e.answers
  slot : e.slot = .closed
  notices : e.notices = []
  queue : e.queue = []

section

variable {e : Execution}

theorem IsOver.respond (h : e.IsOver) (id value : Text) : e.respond id value = .error .closed := by
  simp only [Execution.respond, h.slot]
  rfl

theorem IsOver.poll (h : e.IsOver) : e.poll.1 = .ended := by
  simp only [Execution.poll, h.notices, h.queue, h.slot, InputSlot.pending?]
  split <;> rfl

/-- Whatever the host does after the end, it hears nothing. -/
theorem IsOver.converse (h : e.IsOver) (replies : List Reply) : (e.converse replies).1 = [] := by
  have hdrain : e.drain.1 = [] := by
    simp only [drain, h.notices, h.queue]
    split <;> rfl
  have hslot : e.drain.2.slot.pending? = none := by
    simp only [drain]
    split <;> rw [show e.slot = .closed from h.slot] <;> rfl
  cases replies <;> simp [Execution.converse, hdrain, hslot]

end

/-- What is known about a conversation with a run of which `told` was handed out before. -/
structure HandsOut (told : List Event) (e : Execution) (replies : List Reply)
    (talk : List Exchange × Execution) : Prop where
  run : talk.2.run = e.run
  isOver : talk.2.IsOver
  /-- Some of the replies were answers. -/
  answers : ∃ given, given.Sublist (replies.map Reply.value) ∧ talk.2.answers = e.answers ++ given
  events : ∃ said, Exchange.events talk.1 = e.notices.map .stderr ++ said ∧
    told ++ said = talk.2.transcript.events
  cancelled : Exchange.cancelled ∈ talk.1 ↔ talk.2.transcript.request ≠ none

theorem drain_of_unfinished {e : Execution} (h : e.finished = false) :
    e.drain = (e.notices.map Event.stderr ++ e.queue,
      { e with notices := [], queue := [], finished := e.queue.any Event.isTerminal }) := by
  simp [drain, h]

section

variable {run : List Text → Transcript} {told : List Event} {e : Execution}

/-- A run that waits goes on after its events were handed out. -/
theorem Goes.drain (h : e.Goes told) (hsteady : IsSteady e.run) (hopen : e.transcript.request ≠ none) :
    e.drain.2.Goes e.transcript.events := by
  have hqueue : e.queue.any Event.isTerminal = false := by
    rw [List.any_eq_false]
    intro event hevent
    have hmem : event ∈ e.transcript.events := by
      rw [← h.events]
      exact List.mem_append_right told hevent
    rw [h.transcript] at hopen hmem
    simp [hsteady.isOpen e.answers hopen event hmem]
  rw [drain_of_unfinished h.unfinished]
  exact ⟨h.transcript, h.slot, hqueue, List.append_nil _⟩

/-- A run that goes on waits for what its transcript requests. -/
theorem Goes.pending_drain (h : e.Goes told) :
    e.drain.2.slot.pending? = e.transcript.request := by
  rw [drain_of_unfinished h.unfinished, h.slot]
  cases e.transcript.request <;> rfl

/-- The answer to the request that waits makes a run go on. -/
theorem Goes.respond (h : e.Goes told) (hsteady : IsSteady e.run) (hqueue : e.queue = []) {id : Text}
    (hid : e.transcript.request = some id) (value : Text) :
    ∃ next, e.respond id value = .ok next ∧ next.run = e.run ∧ next.notices = e.notices ∧
      next.answers = e.answers ++ [value] ∧ next.Goes told := by
  have hslot : e.slot = .waiting id := by
    rw [h.slot, hid]
    rfl
  have htold : told = e.transcript.events := by
    rw [← h.events, hqueue, List.append_nil]
  -- an answer takes back nothing of what was told
  have hgrows : told <+: (e.run (e.answers ++ [value])).events := by
    rw [htold, h.transcript]
    refine hsteady.grows e.answers value ?_
    rw [← h.transcript, hid]
    simp
  refine ⟨{ e with
    answers := e.answers ++ [value]
    transcript := e.run (e.answers ++ [value])
    queue := e.queue ++ (e.run (e.answers ++ [value])).events.drop e.transcript.events.length
    slot := InputSlot.idle.follow (e.run (e.answers ++ [value])).request }, ?_, rfl, rfl,
    rfl, rfl, rfl, h.unfinished, ?_⟩
  · simp only [Execution.respond, hslot, InputSlot.respond, if_true]
    rfl
  · rw [hqueue, List.nil_append, ← htold]
    exact List.prefix_iff_eq_append.1 hgrows

/-- What is known about the rest of a conversation is known about all of it. -/
theorem HandsOut.after {next : Execution} {reply : Reply} {replies : List Reply}
    {talk : List Exchange × Execution} (hnext : HandsOut e.transcript.events next replies talk)
    (h : e.Goes told) (hrun : next.run = e.run) (hnotices : next.notices = [])
    (hanswers : next.answers = e.answers ∨ next.answers = e.answers ++ [reply.value])
    {exchanges : List Exchange}
    (hevents : Exchange.events exchanges
      = e.notices.map .stderr ++ e.queue ++ Exchange.events talk.1)
    (hcancelled : Exchange.cancelled ∈ exchanges ↔ Exchange.cancelled ∈ talk.1) :
    HandsOut told e (reply :: replies) (exchanges, talk.2) := by
  -- first what waited in the queue, then what the rest of the talk hands out
  obtain ⟨said, hsaid, htold⟩ := hnext.events
  obtain ⟨given, hgiven, hall⟩ := hnext.answers
  refine ⟨hnext.run.trans hrun, hnext.isOver, ?_, ⟨e.queue ++ said, ?_, ?_⟩,
    hcancelled.trans hnext.cancelled⟩
  · rcases hanswers with hsame | hmore
    · exact ⟨given, hgiven.cons _, by rw [hall, hsame]⟩
    · exact ⟨reply.value :: given, hgiven.cons_cons _, by rw [hall, hmore, List.append_assoc]; rfl⟩
  · rw [hevents, hsaid, hnotices, List.map_nil, List.nil_append, List.append_assoc]
  · rw [← List.append_assoc, h.events, htold]

/-- A run that is over has handed out everything. -/
theorem handsOut_of_closed (h : e.Goes told) (hrequest : e.transcript.request = none)
    (replies : List Reply) : HandsOut told e replies (e.drain.1.map .event, e.drain.2) := by
  rw [drain_of_unfinished h.unfinished]
  refine ⟨rfl, ⟨h.transcript, ?_, rfl, rfl⟩, ⟨[], List.nil_sublist _, (List.append_nil _).symm⟩,
    ⟨e.queue, Exchange.events_map_event _, h.events⟩, ?_⟩
  · rw [h.slot, hrequest]
    rfl
  · simp [hrequest]

/-- A run that is cancelled where it waits has handed out everything until then. -/
theorem handsOut_of_cancel (h : e.Goes told) (hrequest : e.transcript.request ≠ none)
    (replies : List Reply) :
    HandsOut told e replies (e.drain.1.map .event ++ [.cancelled], e.drain.2.cancel) := by
  rw [drain_of_unfinished h.unfinished]
  refine ⟨rfl, ⟨h.transcript, rfl, rfl, rfl⟩, ⟨[], List.nil_sublist _, (List.append_nil _).symm⟩,
    ⟨e.queue, ?_, h.events⟩, ?_⟩
  · rw [Exchange.events_append, Exchange.events_map_event, Exchange.events_cancelled, List.append_nil]
  · simp [cancel, hrequest]

end

/-- A conversation hands out the notices and then the events of the transcript of all answers. -/
theorem converse_of_isSteady {run : List Text → Transcript} (hsteady : IsSteady run)
    {e : Execution} {told : List Event} (hrun : e.run = run) (h : e.Goes told) (replies : List Reply) :
    HandsOut told e replies (e.converse replies) := by
  -- `told` grows with each round: the rest starts from what the transcript says by then
  induction replies generalizing e told with
  | nil =>
    cases hrequest : e.transcript.request with
    | none =>
      have hslot : e.drain.2.slot.pending? = none := h.pending_drain.trans hrequest
      simp only [converse, hslot]
      exact handsOut_of_closed h hrequest _
    | some id =>
      have hslot : e.drain.2.slot.pending? = some id := h.pending_drain.trans hrequest
      simp only [converse, hslot]
      exact handsOut_of_cancel h (by simp [hrequest]) _
  | cons reply replies ih =>
    cases hrequest : e.transcript.request with
    | none =>
      have hslot : e.drain.2.slot.pending? = none := h.pending_drain.trans hrequest
      simp only [converse, hslot]
      exact handsOut_of_closed h hrequest _
    | some id =>
      have hslot : e.drain.2.slot.pending? = some id := h.pending_drain.trans hrequest
      have hgoes := h.drain (hrun ▸ hsteady) (by simp [hrequest])
      have hfields : e.drain.1 = e.notices.map Event.stderr ++ e.queue ∧ e.drain.2.run = e.run ∧
          e.drain.2.notices = [] ∧ e.drain.2.queue = [] ∧ e.drain.2.transcript = e.transcript ∧
          e.drain.2.answers = e.answers := by
        rw [drain_of_unfinished h.unfinished]
        exact ⟨rfl, rfl, rfl, rfl, rfl, rfl⟩
      obtain ⟨hevents, hrun', hnotices, hqueue, htranscript, hanswers⟩ := hfields
      have hwaits : e.drain.2.transcript.request = some id := by rw [htranscript, hrequest]
      have hresponds (value : Text) := hgoes.respond (hrun' ▸ hrun ▸ hsteady) hqueue hwaits value
      -- an answer, or a response to the request that waits, makes the run go on
      cases reply with
      | answer value =>
        obtain ⟨next, hnext, hsame, hnone, hmore, hgoes'⟩ := hresponds value
        simp only [converse, hslot, hnext, Except.toOption, Option.getD_some]
        exact (ih (hsame.trans (hrun'.trans hrun)) hgoes').after h (hsame.trans hrun')
          (hnone.trans hnotices) (.inr (hanswers ▸ hmore)) (by
            simp only [Exchange.events_append, Exchange.events_map_event, hevents]) (by simp)
      | respond other value =>
        by_cases hother : other = id
        · subst hother
          obtain ⟨next, hnext, hsame, hnone, hmore, hgoes'⟩ := hresponds value
          simp only [converse, hslot, hnext]
          exact (ih (hsame.trans (hrun'.trans hrun)) hgoes').after h (hsame.trans hrun')
            (hnone.trans hnotices) (.inr (hanswers ▸ hmore)) (by
            simp only [Exchange.events_append, Exchange.events_map_event,
              Exchange.events_responded, hevents]) (by simp)
        -- a response to another request is refused and changes nothing
        · have hrefused : e.drain.2.respond other value = .error (.unknownRequest other) := by
            have hwaiting : e.drain.2.slot = .waiting id := by
              rw [hgoes.slot, hwaits]
              rfl
            simp only [Execution.respond, hwaiting, InputSlot.respond, if_neg (Ne.symm hother)]
            rfl
          simp only [converse, hslot, hrefused]
          exact (ih (hrun'.trans hrun) hgoes).after h hrun' hnotices (.inl hanswers) (by
            simp only [Exchange.events_append, Exchange.events_map_event,
              Exchange.events_responded, hevents]) (by simp)

/-- A run that is started goes on from nothing. -/
theorem goes_start (run : List Text → Transcript) (notices : List Text) :
    (start run notices).Goes [] :=
  ⟨rfl, rfl, rfl, rfl⟩

end Execution

/-! ## Runs of a source -/

/-- The state that the last event of a run leaves it in. -/
def Event.finalState : Event → RunState
  | .done => .done
  | .error report => if report.phase = .timeout then .timedOut else .failed report.phase
  | _ => .running

/-- What the host hears when a script has ended, but for one that is cancelled. A failure that is not
    the fault of the program is told beside the output first. -/
inductive Script.Ending.Tells (program : Translation) (limits : Limits) :
    Script.Ending → List Event → Prop where
  | done : Tells program limits .done [.done]
  | failed (f : Script.Failure) : Tells program limits (.unwound (.failed f))
      [.error (Report.ofError program f.cause.name f.cause.message f.stack f.position)]
  | timedOut (place : Script.Position) : Tells program limits (.unwound (.timedOut place))
      [.error (Report.ofTimeout program limits.budget place)]
  | brokenDown (cause : Text) : Tells program limits (.unwound .conflict)
      [.stderr (text "internal error: " ++ cause), .error (Report.ofInternal cause)]

namespace Transcript

/-- The run has ended, and its state is that of its last event. -/
def IsEnded (t : Transcript) : Prop :=
  ∃ before last, t.events = before ++ [last] ∧ (∀ e ∈ before, e.isTerminal = false) ∧
    last.isTerminal = true ∧ t.state = last.finalState

theorem isEnded_failed {events : List Event} (hevents : ∀ e ∈ events, e.isTerminal = false)
    {report : Report} {state : RunState} (hstate : state = (Event.error report).finalState) :
    (failed events report state).IsEnded :=
  ⟨events, .error report, rfl, hevents, rfl, hstate⟩

/-- A script that was not cancelled ends with what its ending tells. -/
theorem ofResult_of_not_cancelled (program : Translation) (limits : Limits) (ids : Nat → Text)
    (answered : Nat) {result : Script.Result} (hfuel : result.ending ≠ .unwound .outOfFuel)
    (hcancelled : result.ending ≠ .unwound .cancelled) :
    let t := ofResult program limits ids answered result
    t.IsEnded ∧ ∃ last, result.ending.Tells program limits last ∧
      t.events = eventsFrom ids 0 result.log ++ last := by
  obtain ⟨log, ending⟩ := result
  have hlog : ∀ e ∈ eventsFrom ids 0 log, e.isTerminal = false := isTerminal_of_mem_eventsFrom
  cases ending with
  | done => exact ⟨⟨_, .done, rfl, hlog, rfl, rfl⟩, _, .done, rfl⟩
  | unwound why =>
    cases why with
    | failed f => exact ⟨isEnded_failed hlog rfl, _, .failed f, rfl⟩
    | timedOut place => exact ⟨isEnded_failed hlog rfl, _, .timedOut place, rfl⟩
    | cancelled => exact absurd rfl hcancelled
    | outOfFuel => exact absurd rfl hfuel
    -- only here something is said between the log and the last event
    | conflict =>
      refine ⟨isEnded_failed ?_ rfl, _, .brokenDown _, List.append_assoc ..⟩
      intro e he
      obtain he | he := List.mem_append.1 he
      · exact hlog e he
      · obtain rfl := List.mem_singleton.1 he
        rfl

end Transcript

namespace Execution

open Transcript

section

variable {e : Execution} {replies : List Reply} {talk : List Exchange × Execution}

/-- The last event that a host hears is the last event of the transcript. -/
theorem HandsOut.isEnded (h : HandsOut [] e replies talk) (hended : talk.2.transcript.IsEnded) :
    ∃ before last, Exchange.events talk.1 = before ++ [last] ∧ (∀ e ∈ before, e.isTerminal = false) ∧
      last.isTerminal = true ∧ talk.2.state = last.finalState := by
  obtain ⟨said, hsaid, htold⟩ := h.events
  obtain ⟨before, last, hevents, hbefore, hlast, hstate⟩ := hended
  rw [List.nil_append] at htold
  refine ⟨e.notices.map .stderr ++ before, last, ?_, ?_, hlast, hstate⟩
  · rw [hsaid, htold, hevents, List.append_assoc]
  · intro event hevent
    obtain hnotice | hmem := List.mem_append.1 hevent
    · obtain ⟨notice, -, rfl⟩ := List.mem_map.1 hnotice
      rfl
    · exact hbefore event hmem

theorem HandsOut.events_eq (h : HandsOut [] e replies talk) :
    Exchange.events talk.1 = e.notices.map .stderr ++ talk.2.transcript.events := by
  obtain ⟨said, hsaid, htold⟩ := h.events
  rw [hsaid, ← htold, List.nil_append]

theorem HandsOut.transcript_eq (h : HandsOut [] e replies talk) :
    talk.2.transcript = e.run talk.2.answers := by
  rw [h.isOver.transcript, h.run]

end

/-- A conversation with a script: what it is told depends on how the script ends. -/
theorem HandsOut.tells {program : Translation} {script : Script.Program} {limits : Limits}
    {ids : Nat → Text} {e : Execution} {replies : List Reply} {talk : List Exchange × Execution}
    (h : HandsOut [] e replies talk) (hrun : e.run = ofScript program (.ok script) limits ids) :
    let result := script.run (Script.Machine.start (Watchdog.start limits.budget limits.policy)
      limits.maxCalls talk.2.answers none)
    (Exchange.cancelled ∉ talk.1 → talk.2.transcript.IsEnded) ∧
    ∃ last, talk.2.transcript.events = eventsFrom ids 0 result.log ++ last ∧
      if Exchange.cancelled ∈ talk.1 then result.ending = .unwound .cancelled ∧ last = []
      else result.ending.Tells program limits last := by
  intro result
  have htranscript : talk.2.transcript
      = ofResult program limits ids talk.2.answers.length result := by
    rw [h.transcript_eq, hrun]
    rfl
  have hfuel : result.ending ≠ .unwound .outOfFuel :=
    Script.ending_ne_outOfFuel script rfl limits.maxCalls talk.2.answers none
  -- the exchanges hold a cancellation exactly if the run was ended by one
  by_cases hcancelled : Exchange.cancelled ∈ talk.1
  · have hending : result.ending = .unwound .cancelled :=
      ending_of_request program limits ids (htranscript ▸ h.cancelled.1 hcancelled)
    refine ⟨fun hnot => absurd hcancelled hnot, [], ?_, ?_⟩
    · rw [htranscript, events_ofResult_of_cancelled program limits ids hending, List.append_nil]
    · rw [if_pos hcancelled]
      exact ⟨hending, rfl⟩
  · have hending : result.ending ≠ .unwound .cancelled := by
      intro hending
      refine hcancelled (h.cancelled.2 ?_)
      rw [htranscript]
      simp [ofResult, hending]
    obtain ⟨hended, last, htells, hevents⟩ :=
      ofResult_of_not_cancelled program limits ids talk.2.answers.length hfuel hending
    rw [← htranscript] at hended hevents
    refine ⟨fun _ => hended, last, hevents, ?_⟩
    rwa [if_neg hcancelled]

/-- A conversation with a run that has nothing but an error to say. -/
theorem handsOut_ofReport (report : Report) (replies : List Reply)
    (hreport : report.phase ≠ .timeout) :
    let talk := (ofReport report).converse replies
    HandsOut [] (ofReport report) replies talk ∧ talk.2.transcript.IsEnded ∧
      Exchange.cancelled ∉ talk.1 ∧ Exchange.events talk.1 = [.error report] := by
  intro talk
  have h : HandsOut [] (ofReport report) replies talk :=
    converse_of_isSteady (isSteady_ofReport report) rfl (goes_start _ _) replies
  have htranscript : talk.2.transcript = Transcript.ofReport report := h.transcript_eq
  refine ⟨h, ?_, ?_, ?_⟩
  · rw [htranscript]
    exact isEnded_failed (by simp) (if_neg hreport).symm
  · rw [h.cancelled, htranscript]
    exact fun hne => hne rfl
  · rw [h.events_eq, htranscript]
    rfl

/-- A conversation with a script that is no program. -/
theorem HandsOut.tells_fault {program : Translation} {fault : Script.Program.Fault} {limits : Limits}
    {ids : Nat → Text} {e : Execution} {replies : List Reply} {talk : List Exchange × Execution}
    (h : HandsOut [] e replies talk) (hrun : e.run = ofScript program (.error fault) limits ids) :
    talk.2.transcript.IsEnded ∧ Exchange.cancelled ∉ talk.1 ∧ talk.2.transcript.events
      = [.error (Report.ofFault program fault.cause.message fault.position)] := by
  have htranscript : talk.2.transcript = failed []
      (Report.ofFault program fault.cause.message fault.position) (.failed .parsing) := by
    rw [h.transcript_eq, hrun]
    rfl
  refine ⟨?_, ?_, ?_⟩
  · rw [htranscript]
    exact isEnded_failed (by simp) rfl
  · rw [h.cancelled, htranscript]
    exact fun hne => hne rfl
  · rw [htranscript, failed, List.nil_append]

/-- A conversation with a run of a script. -/
theorem converse_ofScript (program : Translation)
    (script : Except Script.Program.Fault Script.Program) (limits : Limits) (ids : Nat → Text)
    (notices : List Text) (replies : List Reply) :
    let talk := (start (ofScript program script limits ids) notices).converse replies
    (∃ said, Exchange.events talk.1 = notices.map .stderr ++ said ∧
      ((∃ fault report, script = .error fault ∧ Exchange.cancelled ∉ talk.1 ∧ said = [.error report] ∧
        report = Report.ofFault program fault.cause.message fault.position ∧
        report.phase = .parsing) ∨
      ∃ parsed answers, script = .ok parsed ∧ answers.Sublist (replies.map Reply.value) ∧
        let result := parsed.run (Script.Machine.start
          (Watchdog.start limits.budget limits.policy) limits.maxCalls answers none)
        ∃ last, said = eventsFrom ids 0 result.log ++ last ∧
          if Exchange.cancelled ∈ talk.1 then result.ending = .unwound .cancelled ∧ last = []
          else result.ending.Tells program limits last)) ∧
    (Exchange.cancelled ∉ talk.1 → ∃ before last, Exchange.events talk.1 = before ++ [last] ∧
      (∀ e ∈ before, e.isTerminal = false) ∧ last.isTerminal = true ∧
      talk.2.state = last.finalState) ∧ talk.2.IsOver := by
  intro talk
  have h : HandsOut [] (start (ofScript program script limits ids) notices) replies talk :=
    converse_of_isSteady (isSteady_ofScript program limits ids script) rfl (goes_start _ _) replies
  cases script with
  | error fault =>
    obtain ⟨hended, hcancelled, hfault⟩ := h.tells_fault (show _ = ofScript program (.error fault) limits ids from rfl)
    exact ⟨⟨_, h.events_eq, .inl ⟨fault, _, rfl, hcancelled, hfault, rfl, rfl⟩⟩, fun _ => h.isEnded hended,
      h.isOver⟩
  | ok parsed =>
    obtain ⟨hended, last, hlast, htells⟩ := h.tells rfl
    obtain ⟨given, hgiven, hall⟩ := h.answers
    have hanswers : talk.2.answers = given := hall
    exact ⟨⟨_, h.events_eq, .inr ⟨parsed, talk.2.answers, rfl, hanswers ▸ hgiven, last, hlast, htells⟩⟩,
      fun hnot => h.isEnded (hended hnot), h.isOver⟩

/-- Without errors, every issue is a warning. -/
theorem kind_eq_warning {findings : List Finding} (h : hasErrors findings = false) :
    ∀ issue ∈ findings.map Finding.issue, issue.kind = .warning := by
  intro issue hissue
  obtain ⟨finding, hfinding, rfl⟩ := List.mem_map.1 hissue
  have hno : finding.isError = false := by
    simpa using List.any_eq_false.1 h finding hfinding
  simp [Finding.issue, hno]

/-- The events of a conversation with a run of a source, for every way in which the host replies. If
    the source has errors, all its issues are told in one error. Otherwise every issue is a warning
    and told beside the output. Then comes an error if the script is no program, or what the program
    printed and asked with the answers that the host gave, and what its ending tells, unless the
    host cancelled it. In the end the run is over: no request waits, no answer is taken any more, and
    the host hears nothing more. -/
theorem converse_ofSource (source : Text) (limits : Limits) (ids : Nat → Text)
    (replies : List Reply) :
    let talk := (ofSource source limits ids).converse replies
    let issues := (validate source).map Finding.issue
    let script := Script.Program.parse (Translation.wrapped (translate source).code)
    (hasErrors (validate source) = true ∧ Exchange.cancelled ∉ talk.1 ∧
        (∃ report, Exchange.events talk.1 = [.error report] ∧ report = Report.ofIssues issues ∧
          report.phase = .validation ∧ report.issues = some issues) ∨
      hasErrors (validate source) = false ∧ (∀ issue ∈ issues, issue.kind = .warning) ∧
        ∃ said, Exchange.events talk.1
            = issues.map (fun issue => .stderr (Report.warning issue)) ++ said ∧
          ((∃ fault report, script = .error fault ∧ Exchange.cancelled ∉ talk.1 ∧ said = [.error report] ∧
            report = Report.ofFault (translate source) fault.cause.message fault.position ∧
            report.phase = .parsing) ∨
          ∃ program answers, script = .ok program ∧ answers.Sublist (replies.map Reply.value) ∧
            let result := program.run (Script.Machine.start
              (Watchdog.start limits.budget limits.policy) limits.maxCalls answers none)
            ∃ last, said = eventsFrom ids 0 result.log ++ last ∧
              if Exchange.cancelled ∈ talk.1 then result.ending = .unwound .cancelled ∧ last = []
              else result.ending.Tells (translate source) limits last)) ∧
    (Exchange.cancelled ∉ talk.1 → ∃ before last, Exchange.events talk.1 = before ++ [last] ∧
      (∀ e ∈ before, e.isTerminal = false) ∧ last.isTerminal = true ∧
      talk.2.state = last.finalState) ∧
    talk.2.slot.pending? = none ∧ (∀ id value, talk.2.respond id value = .error .closed) ∧
    talk.2.poll.1 = .ended ∧ ∀ more, (talk.2.converse more).1 = [] := by
  intro talk issues script
  have hover (h : talk.2.IsOver) : talk.2.slot.pending? = none ∧
      (∀ id value, talk.2.respond id value = .error .closed) ∧
      talk.2.poll.1 = .ended ∧ ∀ more, (talk.2.converse more).1 = [] :=
    ⟨by rw [h.slot]; rfl, h.respond, h.poll, h.converse⟩
  -- a program with errors is reported, any other program is translated and run
  cases herrors : hasErrors (validate source) with
  | true =>
    have htalk : talk = (ofReport (Report.ofIssues issues)).converse replies := by
      simp only [talk, ofSource, herrors, if_true, issues]
    obtain ⟨h, hended, hcancelled, hevents⟩ :=
      handsOut_ofReport (Report.ofIssues issues) replies nofun
    rw [← htalk] at h hended hcancelled hevents
    exact ⟨.inl ⟨rfl, hcancelled, _, hevents, rfl, rfl, rfl⟩, fun _ => h.isEnded hended, hover h.isOver⟩
  | false =>
    have htalk : talk = (start (ofScript (translate source) script limits ids)
        (issues.map Report.warning)).converse replies := by
      simp only [talk, ofSource, ofTranslation, herrors, Bool.false_eq_true, if_false, issues, script]
    generalize script = script at htalk
    obtain ⟨⟨said, hevents, hsaid⟩, hended, hisOver⟩ :=
      converse_ofScript (translate source) script limits ids (issues.map Report.warning) replies
    rw [← htalk] at hevents hsaid hended hisOver
    rw [List.map_map] at hevents
    exact ⟨.inr ⟨rfl, kind_eq_warning herrors, said, hevents, hsaid⟩, hended, hover hisOver⟩

end Execution

end Pseudocode
