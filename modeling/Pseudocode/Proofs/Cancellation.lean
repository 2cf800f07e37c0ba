import Pseudocode.Proofs.EvaluationProperty
import Pseudocode.Proofs.Lateness

/-!
# What a cancelled run still says

A run that is cancelled right after a print says nothing more, unless calls nest in an expression. Then
each active function says at most as much as calls nest around one of its calls.

* `Hushes`                  what evaluation says late, for each kind of expression and statement
* `hushes_all`              it does, however much fuel it is given
* `Program.speaks_late`     what a whole run says late
-/

namespace Pseudocode.Script

open Eval

/-- Evaluation with fuel `fuel` says nothing once the run is cancelled. Before that, each function that
    may still be called adds the calls around one of its calls to what is said late, and so does the
    expression itself. -/
structure Hushes (inner n fuel : Nat) : Prop where
  evaluate {depth late : Nat} (scope : Scope) (e : Expression) :
    depth * inner + e.callNesting ≤ late → Speaks inner n depth 0 late (evaluate fuel scope e)
  evaluateAll {depth late : Nat} (scope : Scope) (es : List Expression) :
    depth * inner + Expression.callNestingAll es ≤ late →
      Speaks inner n depth 0 late (evaluateAll fuel scope es)
  store {depth late : Nat} (scope : Scope) (target : Expression) (value : Value) :
    depth * inner + target.callNesting ≤ late →
      Speaks inner n depth 0 late (store fuel scope target value)
  callClosure {depth late : Nat} (ref : Nat) (values : List Value) (place : Position) :
    depth * inner + 1 ≤ late → Speaks inner n depth 0 late (callClosure fuel ref values place)
  runDeclarators {depth : Nat} (scope : Scope) (kind : BindingKind)
      (ds : List (Declarator Expression Position)) : declaratorsNesting ds ≤ inner + 1 →
    Speaks inner n depth 0 (depth * inner + (inner + 1)) (runDeclarators fuel scope kind ds)
  runBlock {depth : Nat} (scope : Scope) (commands : List Command) :
    Command.callNestingAll commands ≤ inner + 1 →
      Speaks inner n depth 0 (depth * inner + (inner + 1)) (runBlock fuel scope commands)
  runAll {depth : Nat} (scope : Scope) (commands : List Command) :
    Command.callNestingAll commands ≤ inner + 1 →
      Speaks inner n depth 0 (depth * inner + (inner + 1)) (runAll fuel scope commands)
  runLoop {depth : Nat} (scope : Scope) (place : Position) (test update : Option Expression)
      (body : Command) : optionalNesting test ≤ inner + 1 → optionalNesting update ≤ inner + 1 →
    body.callNesting ≤ inner + 1 →
      Speaks inner n depth 0 (depth * inner + (inner + 1)) (runLoop fuel scope place test update body)
  run {depth : Nat} (scope : Scope) (c : Command) : c.callNesting ≤ inner + 1 →
    Speaks inner n depth 0 (depth * inner + (inner + 1)) (run fuel scope c)

section

variable {inner n fuel depth late : Nat}

private theorem evaluate_hushes (ih : Hushes inner n fuel) (scope : Scope) (e : Expression)
    (hlate : depth * inner + e.callNesting ≤ late) :
    Speaks inner n depth 0 late (evaluate (fuel + 1) scope e) := by
  cases e with
  | number | string | bool | null | undefined => exact speaks_pure _
  | array place items =>
    simp only [evaluate]
    exact (ih.evaluateAll scope items hlate).bind fun values =>
      speaks_onHeap place (Heap.newArray_keepsClosures _)
  | identifier place name =>
    simp only [evaluate]
    exact speaks_find scope name place
  | unary place operator operand =>
    by_cases htypeOf : ∃ p name, operator = .typeOf ∧ operand = .identifier p name
    · obtain ⟨p, name, rfl, rfl⟩ := htypeOf
      simp only [evaluate]
      exact (speaks_find? scope name).bind fun found => speaks_pure _
    · rw [evaluate_unary fuel scope place htypeOf]
      exact (ih.evaluate scope operand hlate).bind fun value => speaks_unary operator value
  | binary place operator left right =>
    simp only [Expression.callNesting] at hlate
    have hleft : Speaks inner n depth 0 late (evaluate fuel scope left) := ih.evaluate scope left (by omega)
    have hright : Speaks inner n depth 0 late (evaluate fuel scope right) := ih.evaluate scope right (by omega)
    cases operator with
    | and =>
      simp only [evaluate]
      refine hleft.bind fun value => ?_
      split
      · exact hright
      · exact speaks_pure value
    | or =>
      simp only [evaluate]
      refine hleft.bind fun value => ?_
      split
      · exact speaks_pure value
      · exact hright
    | _ =>
      simp only [evaluate]
      exact hleft.bind fun a => hright.bind fun b => speaks_fromHeap _
  | conditional place test yes no =>
    simp only [Expression.callNesting] at hlate
    simp only [evaluate]
    refine (ih.evaluate scope test (by omega)).bind fun value => ?_
    split
    · exact ih.evaluate scope yes (by omega)
    · exact ih.evaluate scope no (by omega)
  | assign place operator target value =>
    simp only [Expression.callNesting] at hlate
    simp only [evaluate]
    cases operator.binary? with
    | none =>
      exact (ih.evaluate scope value (by omega)).bind fun v =>
        (ih.store scope target v (by omega)).bind fun _ => speaks_pure v
    | some operator =>
      exact (ih.evaluate scope target (by omega)).bind fun current =>
        (ih.evaluate scope value (by omega)).bind fun operand => (speaks_fromHeap _).bind fun v =>
          (ih.store scope target v (by omega)).bind fun _ => speaks_pure v
  | call place callee operands =>
    by_cases hmember : ∃ p object method, callee = .member p object method
    · obtain ⟨p, object, method, rfl⟩ := hmember
      simp only [Expression.callNesting, Expression.isMember, if_true] at hlate
      simp only [evaluate]
      exact Speaks.check place <| (ih.evaluate scope object (by omega)).bind fun v =>
        (ih.evaluateAll scope operands (by omega)).bind fun values =>
          speaks_callMethod v method values _ place
    · have hfunction : callee.isMember = false := by
        cases callee <;> first | rfl | exact absurd ⟨_, _, _, rfl⟩ hmember
      simp only [Expression.callNesting, hfunction, Bool.false_eq_true, if_false] at hlate
      rw [evaluate_call fuel scope place operands hmember]
      -- a print among the operands may cancel the run, and then the function is still called
      let operandsLate := depth * inner + max callee.callNesting (Expression.callNestingAll operands)
      have hcallee : Speaks inner n depth 0 operandsLate (evaluate fuel scope callee) :=
        ih.evaluate scope callee (by omega)
      have hoperands : Speaks inner n depth 0 operandsLate (evaluateAll fuel scope operands) :=
        ih.evaluateAll scope operands (by omega)
      refine Speaks.check place <| hcallee.bindLast (fun function => hoperands.bindLast (fun values => ?_)
        (by omega : operandsLate + 1 ≤ late)) (by omega)
      split
      · exact (ih.callClosure _ values place (by omega)).mono (Nat.zero_le 1) (Nat.le_refl late)
      · exact (speaks_callNative _ values place).mono (Nat.le_refl 1) (by omega)
      · exact speaks_fail place _
  | index place object key =>
    simp only [Expression.callNesting] at hlate
    simp only [evaluate]
    exact (ih.evaluate scope object (by omega)).bind fun object =>
      (ih.evaluate scope key (by omega)).bind fun key => speaks_readHeap place _
  | member place object name =>
    simp only [evaluate]
    exact (ih.evaluate scope object hlate).bind fun object => speaks_readHeap place _
  | construct place name operands =>
    simp only [evaluate]
    refine Speaks.check place <| (speaks_find scope name place).bind fun constructor =>
      (ih.evaluateAll scope operands hlate).bind fun values => ?_
    split
    · exact speaks_onHeap place (Heap.constructArray_keepsClosures values)
    · exact speaks_fail place _

private theorem store_hushes (ih : Hushes inner n fuel) (scope : Scope) (target : Expression)
    (value : Value) (hlate : depth * inner + target.callNesting ≤ late) :
    Speaks inner n depth 0 late (store (fuel + 1) scope target value) := by
  -- the calls stand in object and key, the write itself says nothing
  cases target with
  | identifier place name => exact speaks_assign scope name value place
  | index place object key =>
    simp only [Expression.callNesting] at hlate
    simp only [store]
    exact (ih.evaluate scope object (by omega)).bind fun object =>
      (ih.evaluate scope key (by omega)).bind fun key => (speaks_fromHeap _).bind fun name =>
        speaks_onHeap place (Heap.setProperty_keepsClosures _ _ _)
  | member place object name =>
    simp only [store]
    exact (ih.evaluate scope object hlate).bind fun object =>
      speaks_onHeap place (Heap.setProperty_keepsClosures _ _ _)
  | _ =>
    simp only [store]
    exact speaks_fail _ _

/-- A function says late what its own expressions do, with one call less that may be active. -/
private theorem enter_hushes (ih : Hushes inner n fuel) (ref : Nat) (values : List Value)
    (place : Position) :
    Speaks inner n (depth + 1) 0 ((depth + 1) * inner + 1) (enter fuel ref values place) := by
  refine speaks_look ref (speaks_pure _) fun closure hclosure => ?_
  refine (speaks_openScope _).bind fun scope => (speaks_bindParameters scope _ values).bind fun _ => ?_
  have hblock : Speaks inner n depth 0 (depth * inner + (inner + 1)) (runBlock fuel scope closure.body) :=
    ih.runBlock scope closure.body hclosure
  rw [Nat.succ_mul, Nat.add_assoc]
  refine (hblock.within _).bind fun flow => ?_
  split <;> exact speaks_pure _

private theorem callClosure_hushes (ih : Hushes inner n fuel) (ref : Nat) (values : List Value)
    (place : Position) (hlate : depth * inner + 1 ≤ late) :
    Speaks inner n depth 0 late (callClosure (fuel + 1) ref values place) := by
  have hcall (depth : Nat) : Speaks inner n (depth + 1) 0 ((depth + 1) * inner + 1)
      (callClosure (fuel + 1) ref values place) := by
    rw [callClosure_eq_enter]
    exact (speaks_checkCalls place).bind fun _ => enter_hushes ih ref values place
  cases depth with
  | succ depth => exact (hcall depth).mono (Nat.le_refl 0) hlate
  | zero =>
    -- no call is left, so the run fails; if it is cancelled already, then it does not matter
    refine ⟨(hcall 0).cancelled, fun m hm => ?_⟩
    have hdeep : m.maxCalls < m.calls.length := hm.calls
    have hfails : callClosure (fuel + 1) ref values place m = fail place .callDepth m := by
      simp only [callClosure, Bind.bind, EStateM.bind, checkCalls, if_pos hdeep, fail]
    rw [hfails]
    exact .inl hm.countP_lt

private theorem runDeclarators_hushes (ih : Hushes inner n fuel) (scope : Scope) (kind : BindingKind)
    (ds : List (Declarator Expression Position)) (hds : declaratorsNesting ds ≤ inner + 1) :
    Speaks inner n depth 0 (depth * inner + (inner + 1)) (runDeclarators (fuel + 1) scope kind ds) := by
  cases ds with
  | nil => exact speaks_pure ()
  | cons d ds =>
    simp only [declaratorsNesting] at hds
    simp only [runDeclarators]
    -- with its value the name is bound, and the other names follow
    have hrest (value : Value) : Speaks inner n depth 0 (depth * inner + (inner + 1)) (do
        bindDeclared scope kind d.name value d.place
        runDeclarators fuel scope kind ds) :=
      (speaks_bindDeclared scope kind d.name value d.place).bind fun _ =>
        ih.runDeclarators scope kind ds (by omega)
    cases hvalue : d.value with
    | none => exact Speaks.check d.place <| Speaks.bind (speaks_pure _) hrest
    | some e =>
      rw [hvalue, optionalNesting] at hds
      exact Speaks.check d.place <| (ih.evaluate scope e (by omega)).bind hrest

private theorem runAll_hushes (ih : Hushes inner n fuel) (scope : Scope) (commands : List Command)
    (hcommands : Command.callNestingAll commands ≤ inner + 1) :
    Speaks inner n depth 0 (depth * inner + (inner + 1)) (runAll (fuel + 1) scope commands) := by
  cases commands with
  | nil => exact speaks_pure _
  | cons c cs =>
    simp only [Command.callNestingAll] at hcommands
    simp only [runAll]
    refine (ih.run scope c (by omega)).bind fun flow => ?_
    cases flow with
    | normal => exact ih.runAll scope cs (by omega)
    | _ => exact speaks_pure _

private theorem runLoop_hushes (ih : Hushes inner n fuel) (scope : Scope) (place : Position)
    (test update : Option Expression) (body : Command) (htest : optionalNesting test ≤ inner + 1)
    (hupdate : optionalNesting update ≤ inner + 1) (hbody : body.callNesting ≤ inner + 1) :
    Speaks inner n depth 0 (depth * inner + (inner + 1))
      (runLoop (fuel + 1) scope place test update body) := by
  have hagain : Speaks inner n depth 0 (depth * inner + (inner + 1))
      (runLoop fuel scope place test update body) :=
    ih.runLoop scope place test update body htest hupdate hbody
  -- one round, then the loop again with less fuel
  rw [runLoop_eq_rounds]
  refine Speaks.check place (Speaks.bind ?_ fun onward => ?_)
  · cases test with
    | none => exact speaks_pure true
    | some e =>
      simp only [optionalNesting] at htest
      exact (ih.evaluate scope e (by omega)).bind fun _ => speaks_pure _
  · split
    · refine (ih.run scope body hbody).bind fun flow => ?_
      cases flow with
      | broken | returned => exact speaks_pure _
      | normal | continued =>
        cases update with
        | none => exact hagain
        | some e =>
          simp only [optionalNesting] at hupdate
          exact (ih.evaluate scope e (by omega)).bind fun _ => hagain
    · exact speaks_pure _

private theorem run_hushes (ih : Hushes inner n fuel) (scope : Scope) (c : Command)
    (hc : c.callNesting ≤ inner + 1) :
    Speaks inner n depth 0 (depth * inner + (inner + 1)) (run (fuel + 1) scope c) := by
  -- the calls in a part are nested no deeper than those in the command
  cases c with
  | expression e =>
    simp only [Command.callNesting] at hc
    simp only [run]
    exact Speaks.check e.position <| (ih.evaluate scope e (by omega)).bind fun _ => speaks_pure _
  | declaration kind ds =>
    simp only [run]
    exact (ih.runDeclarators scope kind ds hc).bind fun _ => speaks_pure _
  | function | empty => exact speaks_pure _
  | returning place value =>
    simp only [run]
    cases value with
    | none => exact Speaks.check place (speaks_pure _)
    | some e =>
      simp only [Command.callNesting, optionalNesting] at hc
      exact Speaks.check place <| (ih.evaluate scope e (by omega)).bind fun _ => speaks_pure _
  | branch test yes no =>
    unfold Command.callNesting at hc
    simp only [run]
    refine Speaks.check test.position <| (ih.evaluate scope test (by omega)).bind fun value => ?_
    split
    · exact ih.run scope yes (by omega)
    · cases no with
      | none => exact speaks_pure _
      | some no =>
        simp only at hc
        exact ih.run scope no (by omega)
  | whileLoop test body =>
    simp only [Command.callNesting] at hc
    simp only [run]
    exact ih.runLoop scope test.position (some test) none body (by simp only [optionalNesting]; omega)
      (Nat.zero_le _) (by omega)
  | forLoop place start test update body =>
    simp only [Command.callNesting] at hc
    simp only [run]
    have hloop (scope : Scope) : Speaks inner n depth 0 (depth * inner + (inner + 1))
        (runLoop fuel scope place test update body) :=
      ih.runLoop scope place test update body (by omega) (by omega) (by omega)
    refine (speaks_openScope scope).bind fun scope => ?_
    cases start with
    | none => exact hloop scope
    | some start =>
      cases start with
      | declaration kind ds =>
        simp only [loopStartNesting] at hc
        exact (ih.runDeclarators scope kind ds (by omega)).bind fun _ => hloop scope
      | expression e =>
        simp only [loopStartNesting] at hc
        exact (ih.evaluate scope e (by omega)).bind fun _ => hloop scope
  | block body =>
    simp only [run]
    exact (speaks_openScope scope).bind fun scope => ih.runBlock scope body hc
  | breaking place | continuing place =>
    simp only [run]
    exact Speaks.check place (speaks_pure _)

end

/-- Evaluation says late what it may, however much fuel it is given. -/
theorem hushes_all (inner n fuel : Nat) : Hushes inner n fuel := by
  induction fuel with
  | zero => constructor <;> intros <;> exact speaks_outOfFuel
  | succ fuel ih =>
    exact {
      evaluate := fun scope e => evaluate_hushes ih scope e
      evaluateAll := fun scope es hlate => by
        cases es with
        | nil => exact speaks_pure _
        | cons e es =>
          simp only [Expression.callNestingAll] at hlate
          simp only [evaluateAll]
          exact (ih.evaluate scope e (by omega)).bind fun v =>
            (ih.evaluateAll scope es (by omega)).bind fun vs => speaks_pure _
      store := fun scope target value => store_hushes ih scope target value
      callClosure := fun ref values place => callClosure_hushes ih ref values place
      runDeclarators := fun scope kind ds => runDeclarators_hushes ih scope kind ds
      runBlock := fun scope commands hcommands => by
        simp only [runBlock]
        exact (speaks_hoist scope hcommands).bind fun _ => ih.runAll scope commands hcommands
      runAll := fun scope commands => runAll_hushes ih scope commands
      runLoop := fun scope place test update body => runLoop_hushes ih scope place test update body
      run := fun scope c => run_hushes ih scope c }

/-! ## Runs -/

theorem runProgram_speaks {inner : Nat} (n fuel maxCalls : Nat) {program : Program}
    (hprogram : Command.callNestingAll program ≤ inner + 1) :
    Speaks inner n (maxCalls + 1) 0 ((maxCalls + 1) * inner + 1) (runProgram fuel program) := by
  have hushes := hushes_all inner n fuel
  have hblock : Speaks inner n maxCalls 0 ((maxCalls + 1) * inner + 1)
      (runBlock fuel Machine.globalScope program) := by
    rw [Nat.succ_mul, Nat.add_assoc]
    exact hushes.runBlock _ program hprogram
  simp only [runProgram]
  refine (hblock.within _).bind fun _ => (speaks_find? _ _).bind fun found => ?_
  split
  · refine (speaks_fromHeap _).bind fun closure => ?_
    split
    · exact (hushes.callClosure _ _ _ (Nat.le_refl _)).bind fun _ => speaks_pure ()
    · exact speaks_pure ()
  · exact speaks_pure ()

/-- The log breaks off before its `n + 1`-th print, or no more than `late` comes after it. -/
def FallsSilent (n late : Nat) (log : List Interaction) : Prop :=
  log.countP Interaction.isPrint ≤ n ∨
    ∃ before shown since, log = before ++ .print shown :: since ∧
      before.countP Interaction.isPrint = n ∧ since.length ≤ late

/-- A machine keeps its log with the last event first. -/
theorem EndsBy.fallsSilent {inner n depth late : Nat} {result : EStateM.Result Unwind Machine Unit}
    (h : EndsBy inner (n + 1) depth (late + 1) result) : FallsSilent n late (Result.ofEnd result).log := by
  -- the machine keeps its log backwards
  have hreverse {m : Machine}
      (h : m.log.countP Interaction.isPrint < n + 1 ∨ m.AddedSince (n + 1) (late + 1)) :
      FallsSilent n late m.log.reverse := by
    rcases h with hfew | ⟨since, shown, before, hlog, hn, hsince⟩
    · left
      rw [List.countP_reverse]
      omega
    · right
      refine ⟨before.reverse, shown, since.reverse, by simp [hlog], ?_, ?_⟩
      · rw [List.countP_reverse]
        omega
      · rw [List.length_reverse]
        omega
  cases result with
  | ok u m => exact hreverse (h.imp Machine.Awaits.countP_lt And.right)
  | error u m => exact hreverse h

/-- A run that is to be cancelled right after a print never gets to it, or says no more afterwards than
    calls nest around a call, once for every function that may be active. So the print is the last that
    is seen of it if no call stands in another one. -/
theorem Program.speaks_late (program : Program) (w : Watchdog) (maxCalls : Nat) (answers : List Text)
    (n : Nat) :
    let r := program.run (Machine.start { w with cancelIn := none } maxCalls answers (some (n + 1)))
    FallsSilent n ((maxCalls + 1) * (Command.callNestingAll program - 1)) r.log ∧
    (Command.callNestingAll program ≤ 1 → r.log.countP Interaction.isPrint ≤ n ∨
      ∃ before shown, r.log = before ++ [.print shown] ∧ before.countP Interaction.isPrint = n) := by
  intro r
  let m := Machine.start { w with cancelIn := none } maxCalls answers (some (n + 1))
  let inner := Command.callNestingAll program - 1
  have hm : m.Awaits inner (n + 1) (maxCalls + 1) :=
    ⟨fun c hc => absurd hc (Array.not_mem_empty c), Nat.le_of_eq (Nat.zero_add _).symm, rfl, n, rfl,
      Nat.zero_add _⟩
  have hspeaks := runProgram_speaks (n + 1) (m.fuel program) maxCalls
    (by omega : Command.callNestingAll program ≤ inner + 1)
  have hsilent : FallsSilent n ((maxCalls + 1) * inner) r.log := by
    rw [show r = .ofEnd (runProgram (m.fuel program) program m) from run_eq_ofEnd program m]
    exact (hspeaks.awaiting m hm).fallsSilent
  refine ⟨hsilent, fun hflat => hsilent.imp_right ?_⟩
  rintro ⟨before, shown, since, hlog, hbefore, hsince⟩
  -- without nested calls nothing is left to be said
  have hinner : inner = 0 := by omega
  rw [hinner, Nat.mul_zero, Nat.le_zero, List.length_eq_zero_iff] at hsince
  subst since
  exact ⟨before, shown, hlog, hbefore⟩

/-- Two prints, one after the other. -/
theorem Program.speaks_late_in_turn :
    let say (b : Bool) : Command := .expression
      (.call ⟨2, 1⟩ (.identifier ⟨2, 1⟩ (text "print")) [.bool ⟨2, 7⟩ b])
    let program : Program := [.function ⟨1, 1⟩ entryPoint ⟨1, 16⟩ [text "print", text "input"] true
      [say true, say false]]
    let r := program.run (Machine.start (.start 1000 .cumulative) 5 []
      (some 1))
    Command.callNestingAll program ≤ 1 ∧ r.log = [.print (text "true")] ∧
      (r.log.countP Interaction.isPrint ≤ 0 ∨
        ∃ before shown, r.log = before ++ [.print shown] ∧ before.countP Interaction.isPrint = 0) := by
  intro say program r
  have hflat : Command.callNestingAll program ≤ 1 := by decide +kernel
  exact ⟨hflat, by decide +kernel,
    (program.speaks_late (.start 1000 .cumulative) 5 [] 0).2 hflat⟩

/-- A print whose operand is a print has been checked when the inner one cancels the run. -/
theorem Program.speaks_late_nested :
    ∃ program, Program.parse (Translation.wrapped (text "print(print(true));")) = .ok program ∧
      (program.run (Machine.start (.start 1000 .cumulative) 5 [] (some 1))).log =
        [.print (text "true"), .print (text "undefined")] := by
  let program : Program := [.function ⟨1, 1⟩ (text "__program__") ⟨1, 16⟩
    [text "print", text "input"] true
    [.expression (.call ⟨2, 1⟩ (.identifier ⟨2, 1⟩ (text "print"))
      [.call ⟨2, 7⟩ (.identifier ⟨2, 7⟩ (text "print")) [.bool ⟨2, 13⟩ true]])]]
  have hparse : Program.parse (Translation.wrapped (text "print(print(true));")) = .ok program := by
    set_option maxRecDepth 2000 in with_unfolding_all rfl
  exact ⟨program, hparse, by decide +kernel⟩

end Pseudocode.Script
