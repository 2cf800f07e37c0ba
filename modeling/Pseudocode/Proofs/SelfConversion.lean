import Pseudocode.Proofs.LegalEvaluation
import Pseudocode.Proofs.EventStream

/-!
# Arrays that are read while they are changed

A run breaks down when a conversion looks at the items of an array that an operation is changing.
Two operations convert a value while they change an array: setting its length, and filling a part of
it. They run into a conflict if the value is the array itself or holds it.

* `Heap.readsWithin_iff`        which arrays the text of an array is made from
* `Heap.IsOperation.exists_conflict_iff`  which operations run into a conflict
* `Program.conflict_iff`        a run breaks down if it gets to such an operation, and only then
-/

namespace Pseudocode

namespace Script

namespace Heap

variable {h : Heap} {target : Nat}

/-! ## What a conversion looks at -/

/-- The array `target` is `ref`, or an item of it holds `target`, with at most `depth` arrays on the
    way. -/
inductive Holds (h : Heap) (target : Nat) : (depth : Nat) → (ref : Nat) → Prop where
  | self (depth : Nat) : Holds h target (depth + 1) target
  | item {depth ref inner : Nat} (hmem : .array inner ∈ h.items ref)
      (hinner : Holds h target depth inner) : Holds h target (depth + 1) ref

theorem Holds.mono {depth depth' ref : Nat} (hholds : h.Holds target depth ref)
    (hle : depth ≤ depth') : h.Holds target depth' ref := by
  induction hholds generalizing depth' with
  | self =>
    obtain ⟨depth', rfl⟩ := Nat.exists_eq_add_of_lt hle
    exact .self _
  | item hmem _ ih =>
    cases depth' with
    | zero => omega
    | succ depth' => exact .item hmem (ih (by omega))

private theorem any_array {items : Array Value} {p : Nat → Bool} :
    (items.any fun item => match item with
      | .array inner => p inner
      | _ => false) = true ↔ ∃ inner, .array inner ∈ items ∧ p inner = true := by
  rw [Array.any_eq_true']
  constructor
  · rintro ⟨item, hmem, hitem⟩
    cases item <;> first | exact ⟨_, hmem, hitem⟩ | cases hitem
  · rintro ⟨inner, hmem, hinner⟩
    exact ⟨_, hmem, hinner⟩

theorem readsWithin_succ {depth ref : Nat} {opened : List Nat} :
    h.readsWithin target (depth + 1) opened ref = true ↔ ref ∉ opened ∧
      (ref = target ∨ ∃ inner, .array inner ∈ h.items ref ∧
        h.readsWithin target depth (ref :: opened) inner = true) := by
  rw [readsWithin]
  split
  · next hopened => simp [hopened]
  · next hopened =>
    simp only [hopened, not_false_eq_true, true_and, Bool.or_eq_true, beq_iff_eq]
    exact or_congr_right any_array

theorem Holds.of_readsWithin {depth ref : Nat} {opened : List Nat}
    (hreads : h.readsWithin target depth opened ref = true) : h.Holds target depth ref := by
  induction depth generalizing ref opened with
  | zero => cases hreads
  | succ depth ih =>
    obtain ⟨-, rfl | ⟨inner, hmem, hinner⟩⟩ := readsWithin_succ.1 hreads
    · exact .self _
    · exact .item hmem (ih hinner)

theorem readsWithin_mono {depth depth' ref : Nat} {opened : List Nat} (hle : depth ≤ depth')
    (hreads : h.readsWithin target depth opened ref = true) :
    h.readsWithin target depth' opened ref = true := by
  induction depth generalizing depth' ref opened with
  | zero => cases hreads
  | succ depth ih =>
    obtain ⟨depth', rfl⟩ := Nat.exists_eq_add_of_le' (Nat.one_le_of_lt hle)
    obtain ⟨hopened, htarget⟩ := readsWithin_succ.1 hreads
    refine readsWithin_succ.2 ⟨hopened, htarget.imp_right fun ⟨inner, hmem, hinner⟩ => ?_⟩
    exact ⟨inner, hmem, ih (by omega) hinner⟩

/-- A shortest way to `target` visits no array twice, so the arrays that are being shown do not hide
    it. -/
theorem Holds.readsWithin_of_shortest {depth ref : Nat} {opened : List Nat}
    (hholds : h.Holds target depth ref) (hshortest : ∀ k < depth, ¬ h.Holds target k ref)
    (hopened : ∀ o ∈ opened, ¬ h.Holds target depth o) :
    h.readsWithin target depth opened ref = true := by
  induction hholds generalizing opened with
  | self depth => exact readsWithin_succ.2 ⟨fun hmem => hopened _ hmem (.self depth), .inl rfl⟩
  | @item depth ref inner hmem hinner ih =>
    have hself : ref ∉ opened := fun hmem' => hopened _ hmem' (.item hmem hinner)
    refine readsWithin_succ.2 ⟨hself, .inr ⟨inner, hmem, ih (fun k hk hk' => ?_) fun o ho hholds => ?_⟩⟩
    · exact hshortest (k + 1) (by omega) (.item hmem hk')
    · rcases List.mem_cons.1 ho with rfl | ho
      · exact hshortest depth (by omega) hholds
      · exact hopened o ho (hholds.mono (by omega))

/-- The text of an array is made from the items of `target` if it holds it. -/
theorem readsWithin_iff {depth ref : Nat} :
    h.readsWithin target depth [] ref = true ↔ h.Holds target depth ref := by
  classical
  refine ⟨.of_readsWithin, fun hholds => ?_⟩
  have hex : ∃ k, h.Holds target k ref := ⟨depth, hholds⟩
  have hle : Nat.find hex ≤ depth := Nat.find_min' hex hholds
  exact readsWithin_mono hle ((Nat.find_spec hex).readsWithin_of_shortest
    (fun k hk => Nat.find_min hex hk) (by simp))

/-- The conversion of a value to a number looks at the items of `target`: the value is `target`, or an
    array with one item, which is an array that holds it. -/
def ConvertsThrough (h : Heap) (target : Nat) (value : Value) : Prop :=
  ∃ ref, value = .array ref ∧
    (ref = target ∨ ∃ inner, h.items ref = #[.array inner] ∧ h.Holds target maxRenderDepth inner)

theorem toNumberReads_iff {value : Value} :
    h.toNumberReads target value = true ↔ h.ConvertsThrough target value := by
  have honly {ref : Nat} {item : Value} :
      (h.items ref).toList = [item] ↔ h.items ref = #[item] := by
    rw [← Array.toList_inj]
  cases value
  case array ref =>
    simp only [toNumberReads, ConvertsThrough, Bool.or_eq_true, beq_iff_eq, Value.array.injEq,
      exists_eq_left', ← honly]
    -- an array of one element is read through to that element
    refine or_congr_right ?_
    split
    · next item hitems =>
      rw [hitems]
      cases item <;> simp [displayReads, readsWithin_iff]
    · next hitems =>
      refine iff_of_false Bool.false_ne_true fun ⟨inner, hinner, _⟩ => hitems _ hinner
  all_goals simp [toNumberReads, ConvertsThrough]

/-! ## Operations that convert while they change -/

/-- An operation converts a value that looks at the array which the operation changes. -/
inductive Conflicts (h : Heap) : {α : Type} → (Heap → Outcome α) → Prop where
  | setLength {ref : Nat} {value : Value} (hvalue : h.ConvertsThrough ref value) :
    Conflicts h (setProperty · (.array ref) (text "length") value)
  | fill {ref i : Nat} {values : List Value} (hi : i = 1 ∨ i = 2)
    (hvalue : h.ConvertsThrough ref (argument values i)) : Conflicts h (callArray · ref .fill values)

variable {α : Type} {operation : Heap → Outcome α}

theorem Conflicts.eq_error (hconflicts : h.Conflicts operation) :
    ∃ h', operation h = .error .conflict h' := by
  cases hconflicts with
  | setLength hvalue =>
    refine ⟨h, ?_⟩
    simp only [setProperty, if_true, toNumberReads_iff.2 hvalue]
  | fill hi hvalue =>
    refine ⟨h, ?_⟩
    have hreads := toNumberReads_iff.2 hvalue
    rcases hi with rfl | rfl <;> simp [callArray, hreads]

private theorem constructArray_ne_conflict {values : List Value} {h' : Heap} :
    h.constructArray values ≠ .error .conflict h' := by
  intro heq
  simp only [constructArray, newArray] at heq
  split at heq
  · split at heq <;> cases heq
  · cases heq

private theorem callArray_conflicts {ref : Nat} {method : ArrayMethod} {values : List Value}
    {h' : Heap} (heq : h.callArray ref method values = .error .conflict h') :
    h.Conflicts (callArray · ref method values) := by
  cases method <;> simp only [callArray, newArray, reduceCtorEq] at heq
  case push => split at heq <;> cases heq
  case fill =>
    split at heq
    · next hreads =>
      rcases Bool.or_eq_true _ _ ▸ hreads with hstart | hstop
      · exact .fill (.inl rfl) (toNumberReads_iff.1 hstart)
      · exact .fill (.inr rfl) (toNumberReads_iff.1 hstop)
    · cases heq

private theorem method?_conflicts {object : Value} {name : Text}
    {call : Heap → List Value → Outcome Value} (hmethod : method? object name = some call)
    {values : List Value} {h' : Heap} (heq : call h values = .error .conflict h') :
    h.Conflicts (call · values) := by
  cases object <;> simp only [method?, Option.map_eq_some_iff, reduceCtorEq] at hmethod
  case array ref =>
    obtain ⟨method, -, rfl⟩ := hmethod
    exact callArray_conflicts heq
  case math =>
    obtain ⟨f, -, rfl⟩ := hmethod
    cases heq
  case string t =>
    obtain ⟨f, -, rfl⟩ := hmethod
    cases f <;> cases heq
  case number x =>
    obtain ⟨f, -, rfl⟩ := hmethod
    cases f <;> simp only [callNumber, reduceCtorEq] at heq
    repeat' split at heq
    all_goals cases heq
  all_goals
    split at hmethod
    · simp only [Option.some.injEq] at hmethod
      subst hmethod
      cases heq
    · cases hmethod

private theorem setProperty_conflicts {object : Value} {key : Text} {value : Value} {h' : Heap}
    (heq : h.setProperty object key value = .error .conflict h') :
    h.Conflicts (setProperty · object key value) := by
  cases object <;> simp only [setProperty, reduceCtorEq] at heq
  case undefined | null => cases heq
  case array ref =>
    split at heq
    · next hkey =>
      subst hkey
      split at heq
      · next hreads => exact .setLength (toNumberReads_iff.1 hreads)
      · split at heq <;> cases heq
    · repeat' split at heq
      all_goals cases heq

/-- An operation runs into a conflict if it sets the length of an array, or fills it, with a value
    whose conversion looks at the array, and only then. -/
theorem IsOperation.exists_conflict_iff (hoperation : IsOperation operation) :
    (∃ h', operation h = .error .conflict h') ↔ h.Conflicts operation := by
  refine ⟨fun ⟨h', heq⟩ => ?_, Conflicts.eq_error⟩
  cases hoperation with
  | newArray items => cases heq
  | constructArray values => exact absurd heq constructArray_ne_conflict
  | method hmethod values => exact method?_conflicts hmethod heq
  | callNative function values =>
    cases function <;> simp only [Heap.callNative, reduceCtorEq] at heq
    case array => exact absurd heq constructArray_ne_conflict
    case print | input => cases heq
  | setProperty object key value => exact setProperty_conflicts heq

end Heap

/-! ## Runs that break down -/

/-- What happens on the machine gets to an operation that runs into a conflict. -/
inductive Eval.GetsToConflict : {α : Type} → Eval α → Machine → Prop where
  | here {α : Type} {place : Position} {operation : Heap → Outcome α} {m : Machine}
    (hconflicts : m.heap.Conflicts operation) : GetsToConflict (onHeap place operation) m
  | first {α β : Type} {x : Eval α} {f : α → Eval β} {m : Machine} (hx : GetsToConflict x m) :
    GetsToConflict (x >>= f) m
  | next {α β : Type} {x : Eval α} {f : α → Eval β} {a : α} {m m' : Machine}
    (hx : x m = .ok a m') (hf : GetsToConflict (f a) m') : GetsToConflict (x >>= f) m
  | inside {α : Type} {x : Eval α} {call : Call} {m : Machine}
    (hx : GetsToConflict x { m with calls := call :: m.calls }) : GetsToConflict (within call x) m

open Eval

theorem Eval.GetsToConflict.eq_error {α : Type} {x : Eval α} {m : Machine} (h : x.GetsToConflict m) :
    ∃ m', x m = .error .conflict m' := by
  induction h with
  | here hconflicts =>
    obtain ⟨heap, heq⟩ := hconflicts.eq_error
    simp only [onHeap, heq]
    exact ⟨_, rfl⟩
  | first _ ih =>
    obtain ⟨m', heq⟩ := ih
    simp only [Bind.bind, EStateM.bind, heq]
    exact ⟨_, rfl⟩
  | next hx _ ih =>
    simp only [Bind.bind, EStateM.bind, hx]
    exact ih
  | inside _ ih =>
    obtain ⟨m', heq⟩ := ih
    simp only [within, heq]
    exact ⟨_, rfl⟩

/-- On a machine with legal functions, what happens runs into a conflict only by getting to an
    operation that does. -/
def BreaksDownThere : EvalProperty := fun α x => StaysLegal α x ∧
  ∀ m : Machine, m.IsLegal → ∀ m', x m = .error .conflict m' → x.GetsToConflict m

section

variable {α β : Type}

private theorem breaksDownThere_of_ne {x : Eval α} (hlegal : StaysLegal α x)
    (hne : ∀ m m', x m ≠ .error .conflict m') : BreaksDownThere α x :=
  ⟨hlegal, fun m _ m' heq => absurd heq (hne m m')⟩

private theorem BreaksDownThere.bind {x : Eval α} {f : α → Eval β} (hx : BreaksDownThere α x)
    (hf : ∀ a, BreaksDownThere β (f a)) : BreaksDownThere β (x >>= f) := by
  refine ⟨isClosed_staysLegal.bind hx.1 fun a => (hf a).1, fun m hm m' heq => ?_⟩
  have hends := hx.1 m hm
  simp only [Bind.bind, EStateM.bind] at heq
  cases hrun : x m with
  | ok a m₁ =>
    rw [hrun] at heq hends
    exact .next hrun ((hf a).2 m₁ hends m' heq)
  | error why m₁ =>
    rw [hrun] at heq
    cases heq
    exact .first (hx.2 m hm _ hrun)

private theorem BreaksDownThere.within {x : Eval α} (hx : BreaksDownThere α x) (call : Call) :
    BreaksDownThere α (within call x) := by
  refine ⟨isClosed_staysLegal.within trivial hx.1, fun m hm m' heq => ?_⟩
  simp only [Eval.within] at heq
  cases hrun : x { m with calls := call :: m.calls } with
  | ok a m₁ =>
    rw [hrun] at heq
    cases heq
  | error why m₁ =>
    rw [hrun] at heq
    cases heq
    exact .inside (hx.2 _ hm _ hrun)

private theorem breaksDownThere_onHeap (place : Position) {operation : Heap → Outcome α}
    (hoperation : Heap.IsOperation operation) : BreaksDownThere α (onHeap place operation) := by
  refine ⟨isClosed_staysLegal.onHeap trivial hoperation, fun m _ m' heq => .here ?_⟩
  simp only [onHeap] at heq
  split at heq
  · cases heq
  · cases heq
  · next heap hconflict => exact hoperation.exists_conflict_iff.1 ⟨heap, hconflict⟩

private theorem breaksDownThere_look (ref : Nat) {f : Option Closure → Eval α}
    (hnone : BreaksDownThere α (f none)) (hsome : ∀ closure : Closure,
      closure.IsLegalAt (fun _ => True) (fun _ => True) → BreaksDownThere α (f (some closure))) :
    BreaksDownThere α (fromHeap (fun h => h.closures[ref]?) >>= f) := by
  refine ⟨isClosed_staysLegal.look ref hnone.1 fun c hc => (hsome c hc).1, fun m hm m' heq => ?_⟩
  refine .next (a := m.heap.closures[ref]?) rfl ?_
  cases hfound : m.heap.closures[ref]? with
  | none =>
    simp only [Bind.bind, EStateM.bind, fromHeap, hfound] at heq
    exact hnone.2 m hm m' heq
  | some closure =>
    simp only [Bind.bind, EStateM.bind, fromHeap, hfound] at heq
    exact (hsome closure (hm closure (Array.mem_of_getElem? hfound)).isLegalAt).2 m hm m' heq

theorem isClosed_breaksDownThere : BreaksDownThere.IsClosed (fun _ => True) fun _ => True :=
  have h := isClosed_staysLegal
  { pure := fun a => breaksDownThere_of_ne (h.pure a) fun _ _ heq => by cases heq
    outOfFuel := fun α => breaksDownThere_of_ne (h.outOfFuel α) fun _ _ heq => by cases heq
    bind := BreaksDownThere.bind
    tick := fun hplace => breaksDownThere_of_ne (h.tick hplace) fun m m' heq => by
      simp only [tick] at heq
      split at heq <;> cases heq
    within := fun _ hx => hx.within _
    fail := fun α _ hplace _ hcause => breaksDownThere_of_ne (h.fail α hplace hcause) fun _ _ heq => by cases heq
    onHeap := fun _ => breaksDownThere_onHeap _
    fromHeap := fun look => breaksDownThere_of_ne (h.fromHeap look) fun _ _ heq => by cases heq
    getIndex := fun hplace object key => breaksDownThere_of_ne (h.getIndex hplace object key) fun m m' heq => by
      simp only [readHeap] at heq
      split at heq <;> cases heq
    getMember := fun hplace object name => breaksDownThere_of_ne (h.getMember hplace object name) fun m m' heq => by
      simp only [readHeap] at heq
      split at heq <;> cases heq
    openScope := fun scope => breaksDownThere_of_ne (h.openScope scope) fun _ _ heq => by cases heq
    find? := fun scope name => breaksDownThere_of_ne (h.find? scope name) fun _ _ heq => by cases heq
    define := fun scope name value => breaksDownThere_of_ne (h.define scope name value) fun _ _ heq => by cases heq
    declare := fun scope name binding _ hplace =>
      breaksDownThere_of_ne (h.declare scope name binding hplace) fun m m' heq => by
        simp only [declare] at heq
        split at heq <;> cases heq
    assign := fun scope name value _ hplace =>
      breaksDownThere_of_ne (h.assign scope name value hplace) fun m m' heq => by
        simp only [assign] at heq
        split at heq <;> cases heq
    newClosure := fun hclosure => breaksDownThere_of_ne (h.newClosure hclosure) fun _ _ heq => by cases heq
    look := breaksDownThere_look
    checkCalls := fun hplace => breaksDownThere_of_ne (h.checkCalls hplace) fun m m' heq => by
      simp only [checkCalls] at heq
      split at heq <;> cases heq
    print := fun shown => breaksDownThere_of_ne (h.print shown) fun m m' heq => by
      simp only [print] at heq
      split at heq <;> cases heq
    input := fun prompt => breaksDownThere_of_ne (h.input prompt) fun m m' heq => by
      simp only [input] at heq
      split at heq <;> cases heq }

end

/-- A run of a legal program breaks down if it gets to an operation that runs into a conflict, and only
    then. -/
theorem runProgram_conflict_iff {program : Program} (hlegal : ∀ c ∈ program, c.IsLegal false false)
    (fuel : Nat) {m : Machine} (hm : m.IsLegal) :
    (∃ m', runProgram fuel program m = .error .conflict m') ↔
      (runProgram fuel program).GetsToConflict m :=
  ⟨fun ⟨m', heq⟩ => (isClosed_breaksDownThere.runProgram fuel hlegal).2 m hm m' heq,
    GetsToConflict.eq_error⟩

theorem Machine.isLegal_start (w : Watchdog) (maxCalls : Nat) (answers : List Text)
    (cancelAfter : Option Nat) : (Machine.start w maxCalls answers cancelAfter).IsLegal :=
  fun c hc => absurd hc (Array.not_mem_empty c)

end Script

open Script

/-- Of a run that did not run out of fuel, a failure of the machine is reported if it broke down, and
    only then. -/
theorem Transcript.execution_mem_ofResult_iff (translation : Translation) (limits : Limits)
    (ids : Nat → Text) (answered : Nat) {result : Result}
    (hfuel : result.ending ≠ .unwound .outOfFuel) :
    (∃ report, .error report ∈ (ofResult translation limits ids answered result).events ∧
      report.phase = .execution) ↔ result.ending = .unwound .conflict := by
  obtain ⟨log, ending⟩ := result
  have hlog (report : Report) : .error report ∉ eventsFrom ids 0 log := fun hmem => by
    have hterminal := isTerminal_of_mem_eventsFrom _ hmem
    cases hterminal
  cases ending with
  | done => simp [ofResult, hlog]
  | unwound why =>
    -- the other ways to end have phases of their own
    cases why with
    | failed f =>
      have hphase : (Report.ofError translation f.cause.name f.cause.message f.stack f.position).phase
          = .runtime := rfl
      simp [ofResult, failed, hlog, hphase]
    | timedOut place =>
      have hphase : (Report.ofTimeout translation limits.budget place).phase = .timeout := rfl
      simp [ofResult, failed, hlog, hphase]
    | cancelled => simp [ofResult, hlog]
    | conflict =>
      have hphase (cause : Text) : (Report.ofInternal cause).phase = .execution := rfl
      simp [ofResult, brokenDown, failed, hlog, hphase]
    | outOfFuel => exact absurd rfl hfuel

namespace Script

/-- The run of an accepted script breaks down if it gets to an operation that sets the length of an
    array, or fills it, with a value whose conversion looks at the array itself, and only then; so it
    is whatever the limits, the answers and the moment of a cancellation. And only then a failure of
    the machine is reported. -/
theorem Program.conflict_iff {t : Text} {program : Program} (hparse : Program.parse t = .ok program) :
    (∀ fuel w maxCalls answers cancelAfter,
      let m := Machine.start w maxCalls answers cancelAfter
      (∃ m', runProgram fuel program m = .error .conflict m') ↔
        (runProgram fuel program).GetsToConflict m) ∧
    ∀ translation limits ids answers,
      let m := Machine.start (Watchdog.start limits.budget limits.policy) limits.maxCalls answers none
      (∃ report, .error report ∈
          (Transcript.ofScript translation (.ok program) limits ids answers).events ∧
        report.phase = .execution) ↔ (runProgram (m.fuel program) program).GetsToConflict m := by
  have hlegal := Program.isLegal_of_parse hparse
  refine ⟨fun fuel w maxCalls answers cancelAfter => ?_, fun translation limits ids answers => ?_⟩
  · exact runProgram_conflict_iff hlegal fuel (Machine.isLegal_start _ _ _ _)
  · intro m
    -- a run has all the fuel that it needs
    have hfuel : (program.run m).ending ≠ .unwound .outOfFuel :=
      ending_ne_outOfFuel program rfl limits.maxCalls answers none
    rw [Transcript.ofScript, Transcript.execution_mem_ofResult_iff translation limits ids _ hfuel,
      run_eq_ofEnd, ← runProgram_conflict_iff hlegal _ (Machine.isLegal_start _ _ _ _)]
    cases runProgram (m.fuel program) program m <;> simp [Result.ofEnd]

/-- A conflict ended a run. -/
private def isConflict : EStateM.Result Unwind Machine Unit → Bool
  | .error .conflict _ => true
  | _ => false

private theorem exists_of_isConflict {r : EStateM.Result Unwind Machine Unit}
    (h : isConflict r = true) : ∃ m', r = .error .conflict m' := by
  rcases r with _ | ⟨why, m'⟩
  · cases h
  · cases why <;> first | exact ⟨m', rfl⟩ | cases h

/-- The length of an array is set to an array around it. -/
theorem Program.conflict_iff_around : ∃ program,
    Program.parse (text "let a = []; a.length = [[a]];") = .ok program ∧
      (runProgram 20 program).GetsToConflict (Machine.start (.counting 20 0) 5 [] none) := by
  let program : Program := [
    .declaration .let [⟨⟨1, 5⟩, text "a", some (.array ⟨1, 9⟩ [])⟩],
    .expression (.assign ⟨1, 13⟩ .plain (.member ⟨1, 15⟩ (.identifier ⟨1, 13⟩ (text "a"))
      (text "length")) (.array ⟨1, 24⟩ [.array ⟨1, 25⟩ [.identifier ⟨1, 26⟩ (text "a")]]))]
  have hparse : Program.parse (text "let a = []; a.length = [[a]];") = .ok program := by
    set_option maxRecDepth 2000 in with_unfolding_all rfl
  have hends : isConflict (runProgram 20 program (Machine.start (.counting 20 0) 5 [] none)) = true := by
    decide +kernel
  exact ⟨program, hparse, ((Program.conflict_iff hparse).1 20 (.counting 20 0) 5 [] none).1
    (exists_of_isConflict hends)⟩

end Script

namespace Execution

/-- An array is given the length that it converts to itself. -/
def ownLength : Text := text "Algorithm A\nvar a = []\na[\"length\"] = a\nEndAlgorithm"

/-- An array is filled from the place on that it converts to itself. -/
def ownStart : Text := text "Algorithm A\nvar a = []\na.fill(null, a)\nEndAlgorithm"

/-- A failure of the machine is among the events of a run without input. -/
def breaksDown (source : Text) : Bool :=
  (Exchange.events ((ofSource source .default fun _ => []).converse []).1).any fun e => match e with
    | .error report => report.phase = .execution
    | _ => false

/-- The machine fails on sources in which nothing is wrong. -/
theorem breaksDown_own : (validate ownLength = [] ∧ breaksDown ownLength = true) ∧
    validate ownStart = [] ∧ breaksDown ownStart = true := by
  decide +kernel

end Execution

end Pseudocode
