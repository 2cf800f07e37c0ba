import Pseudocode.Proofs.Discipline

/-!
# Evaluation is disciplined

Expressions and statements of a sound program do nothing to the frames but what the declarations of
the program allow, by induction on the fuel.

* `EvaluationObeys`            evaluation with some fuel obeys
* `evaluationObeys`            evaluation with any fuel does
* `Program.obeys_runProgram`   a whole run does
-/

namespace Pseudocode.Script

open Eval

/-! ## Operations on values -/

namespace Heap

theorem newArray_noSyntaxError (items : Array Value) : NoSyntaxError (newArray · items) :=
  fun _ _ _ heq => by cases heq

theorem constructArray_noSyntaxError (values : List Value) :
    NoSyntaxError (constructArray · values) := by
  intro h cause h' heq
  simp only [constructArray] at heq
  split at heq
  · split at heq
    · cases heq
      simp [ErrorCause.name]
    · cases heq
  · cases heq

theorem callArray_noSyntaxError (ref : Nat) (method : ArrayMethod) (values : List Value) :
    NoSyntaxError (callArray · ref method values) := by
  intro h cause h' heq
  cases method <;> simp only [callArray, reduceCtorEq] at heq
  all_goals
    repeat' split at heq
    all_goals cases heq <;> simp [ErrorCause.name]

theorem callString_noSyntaxError (t : Text) (method : StringMethod) (values : List Value) :
    NoSyntaxError (callString · t method values) := by
  intro h cause h' heq
  cases method <;> simp only [callString, newArray, reduceCtorEq] at heq

theorem callNumber_noSyntaxError (x : Float) (method : NumberMethod) (values : List Value) :
    NoSyntaxError (callNumber · x method values) := by
  intro h cause h' heq
  cases method <;> simp only [callNumber, reduceCtorEq] at heq
  all_goals
    repeat' split at heq
    all_goals cases heq <;> simp [ErrorCause.name]

theorem method?_noSyntaxError {object : Value} {name : Text}
    {call : Heap → List Value → Outcome Value} (hmethod : method? object name = some call)
    (values : List Value) : NoSyntaxError (call · values) := by
  cases object <;> simp only [method?, Option.map_eq_some_iff, reduceCtorEq] at hmethod
  case math =>
    obtain ⟨f, _, rfl⟩ := hmethod
    exact fun _ _ _ heq => by cases heq
  case array ref =>
    obtain ⟨f, _, rfl⟩ := hmethod
    exact callArray_noSyntaxError ref f values
  case string t =>
    obtain ⟨f, _, rfl⟩ := hmethod
    exact callString_noSyntaxError t f values
  case number x =>
    obtain ⟨f, _, rfl⟩ := hmethod
    exact callNumber_noSyntaxError x f values
  all_goals
    split at hmethod
    · simp only [Option.some.injEq] at hmethod
      subst hmethod
      exact fun _ _ _ heq => by cases heq
    · cases hmethod

theorem callNative_noSyntaxError (function : Native) (values : List Value) :
    NoSyntaxError (callNative · function values) := by
  intro h cause h' heq
  cases function <;> simp only [callNative, reduceCtorEq] at heq
  case array => exact constructArray_noSyntaxError values h cause h' heq
  case print | input =>
    cases heq
    simp [ErrorCause.name]

theorem setProperty_noSyntaxError (object : Value) (key : Text) (value : Value) :
    NoSyntaxError (setProperty · object key value) := by
  intro h cause h' heq
  cases object <;> simp only [setProperty, reduceCtorEq] at heq
  case undefined | null =>
    cases heq
    simp [ErrorCause.name]
  case array ref =>
    repeat' split at heq
    all_goals cases heq <;> simp [ErrorCause.name]

theorem getMember_noSyntaxError (object : Value) (name : Text) (h : Heap) (cause : ErrorCause)
    (heq : h.getMember object name = .error cause) : cause.name ≠ .syntaxError := by
  cases object <;> simp only [getMember, reduceCtorEq] at heq
  case undefined | null =>
    cases heq
    simp [ErrorCause.name]
  case function ref => split at heq <;> cases heq

theorem getIndex_noSyntaxError (object key : Value) (h : Heap) (cause : ErrorCause)
    (heq : h.getIndex object key = .error cause) : cause.name ≠ .syntaxError := by
  simp only [getIndex] at heq
  split at heq
  · cases heq
  · cases heq
  · exact getMember_noSyntaxError _ _ _ _ heq

end Heap

section

variable {strict : Prop} {scope : Scope} {isVariable : Text → Prop} {declared : List Text}

/-! ## Parts of statements -/

theorem obeys_unary (operator : UnaryOperator) (value : Value) :
    Obeys strict scope isVariable declared declared (unary operator value) := by
  cases operator <;> simp only [Eval.unary]
  case not | typeOf | await => exact obeys_pure _
  case negate | plus => exact obeys_fromHeap _

theorem obeys_callMethod (object : Value) (method : Text) (values : List Value)
    (description : Text) (place : Position) :
    Obeys strict scope isVariable declared declared
      (callMethod object method values description place) := by
  unfold Eval.callMethod
  split
  · exact obeys_fail place (by simp [ErrorCause.name])
  · exact obeys_fail place (by simp [ErrorCause.name])
  · split
    · rename_i hmethod
      exact obeys_onHeap place (Heap.method?_keepsClosures hmethod values)
        (Heap.method?_noSyntaxError hmethod values)
    · exact obeys_fail place (by simp [ErrorCause.name])

theorem obeys_callNative (function : Native) (values : List Value) (place : Position) :
    Obeys strict scope isVariable declared declared (callNative function values place) := by
  cases function with
  | print => exact (obeys_fromHeap _).bind fun shown => (obeys_print shown).bind fun _ => obeys_pure _
  | input => exact (obeys_fromHeap _).bind fun prompt => (obeys_input prompt).bind fun _ => obeys_pure _
  | _ =>
    simp only [Eval.callNative]
    exact obeys_onHeap place (Heap.callNative_keepsClosures _ values)
      (Heap.callNative_noSyntaxError _ values)

theorem obeys_bindParameters {parameters : List Text} (hparameters : ∀ p ∈ parameters, isVariable p) :
    ∀ values, Obeys strict scope isVariable declared declared
      (bindParameters scope parameters values) := by
  induction parameters with
  | nil => exact fun _ => obeys_pure ()
  | cons p ps ih =>
    obtain ⟨hp, hps⟩ := List.forall_mem_cons.1 hparameters
    intro values
    cases values with
    | nil => exact (obeys_define hp .undefined).bind fun _ => ih hps []
    | cons v vs => exact (obeys_define hp v).bind fun _ => ih hps vs

/-- The functions of a block are variables of it. -/
theorem obeys_hoist {commands : List Command} (hsound : ∀ c ∈ commands, c.IsSound strict)
    (hvars : ∀ name ∈ varsAll commands, isVariable name) :
    Obeys strict scope isVariable declared declared (hoist scope commands) := by
  induction commands with
  | nil => exact obeys_pure ()
  | cons c rest ih =>
    obtain ⟨hc, hrest⟩ := List.forall_mem_cons.1 hsound
    simp only [varsAll, List.flatMap_cons, List.forall_mem_append] at hvars
    have ih' := ih hrest hvars.2
    -- only functions are declared ahead
    cases c with
    | function place name namePlace parameters isAsync body =>
      cases hc with
      | function hnames hbody =>
        have hname : isVariable name := hvars.1 name (by simp [Command.vars])
        have hnew : Obeys strict scope isVariable declared declared
            (newClosure ⟨name, parameters, body, place, scope⟩) :=
          obeys_newClosure ⟨hnames, hbody⟩ rfl
        exact hnew.bind fun v => (obeys_define hname v).bind fun _ => ih'
    | _ => exact ih'

/-- A declared name is a variable of its block, or it is new. -/
theorem obeys_bindDeclared {kind : BindingKind} {name : Text} (value : Value) (place : Position)
    (hvar : ∀ x ∈ (kind.split [name]).1, isVariable x)
    (hlexical : ∀ x ∈ (kind.split [name]).2, ¬isVariable x)
    (hnodup : (declared ++ (kind.split [name]).2).Nodup) :
    Obeys strict scope isVariable declared (declared ++ (kind.split [name]).2)
      (bindDeclared scope kind name value place) := by
  cases kind with
  | var =>
    simp only [BindingKind.split, if_true, List.append_nil]
    exact obeys_define (hvar name (by simp [BindingKind.split])) value
  | «let» | const =>
    simp only [BindingKind.split, reduceCtorEq, if_false] at hlexical hnodup ⊢
    have hnew : name ∉ declared := fun hmem =>
      List.disjoint_of_nodup_append hnodup hmem (List.mem_singleton_self name)
    exact obeys_declare (hlexical name (List.mem_singleton_self name)) hnew _ place

/-! ## Expressions and statements -/

/-- The names that a statement declares have not been declared in its block before, and its variables
    are variables of the block. -/
structure Fits (isVariable : Text → Prop) (declared vars lexicals : List Text) : Prop where
  of_vars : ∀ name ∈ vars, isVariable name
  of_lexicals : ∀ name ∈ lexicals, ¬isVariable name
  nodup : (declared ++ lexicals).Nodup

/-- Names that are declared once fit into a block of their own. -/
theorem DeclaresOnce.fits {vars lexicals : List Text} (h : DeclaresOnce vars lexicals) :
    Fits (· ∈ vars) [] vars lexicals :=
  ⟨fun _ => id, h.apart, h.nodup⟩

theorem Fits.left {vars vars' lexicals lexicals' : List Text}
    (h : Fits isVariable declared (vars ++ vars') (lexicals ++ lexicals')) :
    Fits isVariable declared vars lexicals := by
  refine ⟨fun name hname => h.of_vars name (List.mem_append_left _ hname),
    fun name hname => h.of_lexicals name (List.mem_append_left _ hname), ?_⟩
  have hnodup := h.nodup
  rw [← List.append_assoc] at hnodup
  exact hnodup.of_append_left

theorem Fits.right {vars vars' lexicals lexicals' : List Text}
    (h : Fits isVariable declared (vars ++ vars') (lexicals ++ lexicals')) :
    Fits isVariable (declared ++ lexicals) vars' lexicals' := by
  refine ⟨fun name hname => h.of_vars name (List.mem_append_right _ hname),
    fun name hname => h.of_lexicals name (List.mem_append_right _ hname), ?_⟩
  rw [List.append_assoc]
  exact h.nodup

/-- The second alternative of a branch does not see what the first one declares. -/
theorem Fits.skip {vars vars' lexicals lexicals' : List Text}
    (h : Fits isVariable declared (vars ++ vars') (lexicals ++ lexicals')) :
    Fits isVariable declared vars' lexicals' := by
  refine ⟨h.right.of_vars, h.right.of_lexicals, h.nodup.sublist ?_⟩
  exact (List.sublist_append_right lexicals lexicals').append_left declared

end

/-- Evaluation with some fuel keeps the declarations of sound expressions and statements. -/
structure EvaluationObeys (strict : Prop) (n : Nat) : Prop where
  evaluate (scope : Scope) (isVariable : Text → Prop) (declared : List Text) (e : Expression)
    (he : e.IsSound) : Obeys strict scope isVariable declared declared (evaluate n scope e)
  evaluateAll (scope : Scope) (isVariable : Text → Prop) (declared : List Text)
    (es : List Expression) (hes : ∀ e ∈ es, e.IsSound) :
    Obeys strict scope isVariable declared declared (evaluateAll n scope es)
  store (scope : Scope) (isVariable : Text → Prop) (declared : List Text) (target : Expression)
    (value : Value) (htarget : target.IsSound) (hisTarget : target.isTarget = true) :
    Obeys strict scope isVariable declared declared (store n scope target value)
  callClosure (scope : Scope) (isVariable : Text → Prop) (declared : List Text) (ref : Nat)
    (values : List Value) (place : Position) :
    Obeys strict scope isVariable declared declared (callClosure n ref values place)
  runDeclarators (scope : Scope) (isVariable : Text → Prop) (declared : List Text)
    (kind : BindingKind) (ds : List (Declarator Expression Position)) (hds : AreSound ds)
    (hfits : Fits isVariable declared (kind.split (ds.map Declarator.name)).1
      (kind.split (ds.map Declarator.name)).2) :
    Obeys strict scope isVariable declared (declared ++ (kind.split (ds.map Declarator.name)).2)
      (runDeclarators n scope kind ds)
  runBlock (scope : Scope) (isVariable : Text → Prop) (declared : List Text)
    (commands : List Command) (hsound : ∀ c ∈ commands, c.IsSound strict)
    (hfits : Fits isVariable declared (varsAll commands) (lexicalsAll commands)) :
    Obeys strict scope isVariable declared (declared ++ lexicalsAll commands)
      (runBlock n scope commands)
  runAll (scope : Scope) (isVariable : Text → Prop) (declared : List Text)
    (commands : List Command) (hsound : ∀ c ∈ commands, c.IsSound strict)
    (hfits : Fits isVariable declared (varsAll commands) (lexicalsAll commands)) :
    Obeys strict scope isVariable declared (declared ++ lexicalsAll commands)
      (runAll n scope commands)
  runLoop (scope : Scope) (isVariable : Text → Prop) (declared : List Text) (place : Position)
    (test update : Option Expression) (body : Command) (htest : ∀ e ∈ test, e.IsSound)
    (hupdate : ∀ e ∈ update, e.IsSound) (hbody : body.IsSound strict)
    (hround : strict → body.lexicals = [])
    (hfits : Fits isVariable declared body.vars body.lexicals) :
    Obeys strict scope isVariable declared declared (runLoop n scope place test update body)
  run (scope : Scope) (isVariable : Text → Prop) (declared : List Text) (c : Command)
    (hsound : c.IsSound strict) (hfits : Fits isVariable declared c.vars c.lexicals) :
    Obeys strict scope isVariable declared (declared ++ c.lexicals) (run n scope c)

section

variable {strict : Prop} {n : Nat} (ih : EvaluationObeys strict n) (scope : Scope)
  (isVariable : Text → Prop) (declared : List Text)

include ih

private theorem evaluate_obeys {e : Expression} (he : e.IsSound) :
    Obeys strict scope isVariable declared declared (evaluate (n + 1) scope e) := by
  have hevaluate (e : Expression) := ih.evaluate scope isVariable declared e
  have hevaluateAll (es : List Expression) := ih.evaluateAll scope isVariable declared es
  cases he with
  | number | string | bool | null | undefined => exact obeys_pure _
  | @array place items hitems =>
    simp only [evaluate]
    exact (hevaluateAll items hitems).bind fun values =>
      obeys_onHeap place (Heap.newArray_keepsClosures _) (Heap.newArray_noSyntaxError _)
  | @identifier place name =>
    simp only [evaluate]
    exact obeys_find name place
  | @unary place operator operand hoperand =>
    by_cases htypeOf : ∃ p name, operator = .typeOf ∧ operand = .identifier p name
    · obtain ⟨p, name, rfl, rfl⟩ := htypeOf
      simp only [evaluate]
      exact (obeys_find? name).bind fun found => obeys_pure _
    · rw [evaluate_unary n scope place htypeOf]
      exact (hevaluate operand hoperand).bind fun value => obeys_unary operator value
  | @binary place operator left right hleft hright =>
    -- `and` and `or` may leave their right operand alone
    cases operator with
    | and =>
      simp only [evaluate]
      refine (hevaluate left hleft).bind fun value => ?_
      split
      · exact hevaluate right hright
      · exact obeys_pure value
    | or =>
      simp only [evaluate]
      refine (hevaluate left hleft).bind fun value => ?_
      split
      · exact obeys_pure value
      · exact hevaluate right hright
    | _ =>
      simp only [evaluate]
      exact (hevaluate left hleft).bind fun a => (hevaluate right hright).bind fun b =>
        obeys_fromHeap _
  | @conditional place test yes no htest hyes hno =>
    simp only [evaluate]
    refine (hevaluate test htest).bind fun value => ?_
    split
    · exact hevaluate yes hyes
    · exact hevaluate no hno
  | @assign place operator target value htarget hisTarget hvalue =>
    have hstore (v : Value) := ih.store scope isVariable declared target v htarget hisTarget
    simp only [evaluate]
    cases operator.binary? with
    | none => exact (hevaluate value hvalue).bind fun v => (hstore v).bind fun _ => obeys_pure v
    | some operator =>
      exact (hevaluate target htarget).bind fun current => (hevaluate value hvalue).bind fun operand =>
        (obeys_fromHeap _).bind fun v => (hstore v).bind fun _ => obeys_pure v
  | @call place callee operands hcallee hoperands =>
    by_cases hmember : ∃ p object method, callee = .member p object method
    · obtain ⟨p, object, method, rfl⟩ := hmember
      cases hcallee with
      | member hobject =>
        simp only [evaluate]
        exact (obeys_tick place).bind fun _ => (hevaluate object hobject).bind fun v =>
          (hevaluateAll operands hoperands).bind fun values => obeys_callMethod v method values _ place
    · rw [evaluate_call n scope place operands hmember]
      refine (obeys_tick place).bind fun _ => (hevaluate callee hcallee).bind fun function =>
        (hevaluateAll operands hoperands).bind fun values => ?_
      split
      · exact ih.callClosure scope isVariable declared _ values place
      · exact obeys_callNative _ values place
      · exact obeys_fail place (by simp [ErrorCause.name])
  | @index place object key hobject hkey =>
    simp only [evaluate]
    exact (hevaluate object hobject).bind fun object => (hevaluate key hkey).bind fun key =>
      obeys_readHeap place (Heap.getIndex_noSyntaxError object key)
  | @member place object name hobject =>
    simp only [evaluate]
    exact (hevaluate object hobject).bind fun object =>
      obeys_readHeap place (Heap.getMember_noSyntaxError object name)
  | @construct place name operands hoperands =>
    simp only [evaluate]
    refine (obeys_tick place).bind fun _ => (obeys_find name place).bind fun constructor =>
      (hevaluateAll operands hoperands).bind fun values => ?_
    split
    · exact obeys_onHeap place (Heap.constructArray_keepsClosures _)
        (Heap.constructArray_noSyntaxError _)
    · exact obeys_fail place (by simp [ErrorCause.name])

private theorem store_obeys {target : Expression} (value : Value) (htarget : target.IsSound)
    (hisTarget : target.isTarget = true) :
    Obeys strict scope isVariable declared declared (store (n + 1) scope target value) := by
  have hevaluate (e : Expression) := ih.evaluate scope isVariable declared e
  cases htarget with
  | @identifier place name => exact obeys_assign name value place
  | @index place object key hobject hkey =>
    simp only [store]
    exact (hevaluate object hobject).bind fun object => (hevaluate key hkey).bind fun key =>
      (obeys_fromHeap _).bind fun name => obeys_onHeap place (Heap.setProperty_keepsClosures _ _ _)
        (Heap.setProperty_noSyntaxError _ _ _)
  | @member place object name hobject =>
    simp only [store]
    exact (hevaluate object hobject).bind fun object =>
      obeys_onHeap place (Heap.setProperty_keepsClosures _ _ _) (Heap.setProperty_noSyntaxError _ _ _)
  | _ => cases hisTarget

/-- A call opens a scope of its own, inside of the one that the function was declared in. -/
private theorem callClosure_obeys (ref : Nat) (values : List Value) (place : Position) :
    Obeys strict scope isVariable declared declared (callClosure (n + 1) ref values place) := by
  simp only [callClosure]
  refine (obeys_checkCalls place).bind fun _ => obeys_look ref (obeys_pure _)
    fun closure hclosure m hm hs hagrees hscope => ?_
  have hfits := hclosure.names.fits
  refine .enter hm hs hagrees hscope (· ∈ closure.parameters ++ varsAll closure.body)
    (lexicalsAll closure.body) ?_
  refine (obeys_bindParameters (fun p hp => List.mem_append_left _ hp) values).bind fun _ => ?_
  refine ((ih.runBlock _ _ [] closure.body hclosure.body ?_).within _).bind fun flow => ?_
  · exact ⟨fun name hname => List.mem_append_right _ hname, hfits.of_lexicals, hfits.nodup⟩
  · split <;> exact obeys_pure _

private theorem runDeclarators_obeys (kind : BindingKind)
    {ds : List (Declarator Expression Position)} (hds : AreSound ds)
    (hfits : Fits isVariable declared (kind.split (ds.map Declarator.name)).1
      (kind.split (ds.map Declarator.name)).2) :
    Obeys strict scope isVariable declared (declared ++ (kind.split (ds.map Declarator.name)).2)
      (runDeclarators (n + 1) scope kind ds) := by
  cases ds with
  | nil =>
    have hnone : (kind.split []).2 = [] := by cases kind <;> rfl
    simp only [List.map_nil, hnone, List.append_nil]
    exact obeys_pure ()
  | cons d ds =>
    obtain ⟨hd, hrest⟩ := List.forall_mem_cons.1 hds
    rw [List.map_cons, BindingKind.split_cons] at hfits ⊢
    rw [← List.append_assoc]
    have hone := hfits.left
    simp only [runDeclarators]
    refine (obeys_tick d.place).bind fun _ => ?_
    -- the names behind the first one are declared after it, with its name among the old ones
    have hbind (value : Value) : Obeys strict scope isVariable declared
        (declared ++ (kind.split [d.name]).2 ++ (kind.split (ds.map Declarator.name)).2) (do
          bindDeclared scope kind d.name value d.place
          runDeclarators n scope kind ds) :=
      (obeys_bindDeclared value d.place hone.of_vars hone.of_lexicals hone.nodup).bind fun _ =>
        ih.runDeclarators scope isVariable _ kind ds hrest hfits.right
    cases hvalue : d.value with
    | none => exact (obeys_pure _).bind hbind
    | some e =>
      exact (ih.evaluate scope isVariable declared e (hd e (by simp [hvalue]))).bind hbind

private theorem runBlock_obeys {commands : List Command}
    (hsound : ∀ c ∈ commands, c.IsSound strict)
    (hfits : Fits isVariable declared (varsAll commands) (lexicalsAll commands)) :
    Obeys strict scope isVariable declared (declared ++ lexicalsAll commands)
      (runBlock (n + 1) scope commands) := by
  simp only [runBlock]
  exact (obeys_hoist hsound hfits.of_vars).bind fun _ =>
    ih.runAll scope isVariable declared commands hsound hfits

private theorem runAll_obeys {commands : List Command} (hsound : ∀ c ∈ commands, c.IsSound strict)
    (hfits : Fits isVariable declared (varsAll commands) (lexicalsAll commands)) :
    Obeys strict scope isVariable declared (declared ++ lexicalsAll commands)
      (runAll (n + 1) scope commands) := by
  cases commands with
  | nil =>
    simp only [lexicalsAll, List.flatMap_nil, List.append_nil]
    exact obeys_pure _
  | cons c cs =>
    obtain ⟨hc, hcs⟩ := List.forall_mem_cons.1 hsound
    simp only [varsAll, lexicalsAll, List.flatMap_cons] at hfits ⊢
    rw [← List.append_assoc]
    simp only [runAll]
    refine (ih.run scope isVariable declared c hc hfits.left).bind fun flow => ?_
    -- what breaks off leaves the names that follow undeclared
    cases flow with
    | normal => exact ih.runAll scope isVariable _ cs hcs hfits.right
    | _ => exact (obeys_pure _).mono (List.subset_append_left _ _)

private theorem runLoop_obeys (place : Position) {test update : Option Expression} {body : Command}
    (htest : ∀ e ∈ test, e.IsSound) (hupdate : ∀ e ∈ update, e.IsSound)
    (hbody : body.IsSound strict) (hround : strict → body.lexicals = [])
    (hfits : Fits isVariable declared body.vars body.lexicals) :
    Obeys strict scope isVariable declared declared
      (runLoop (n + 1) scope place test update body) := by
  have hevaluate (e : Expression) := ih.evaluate scope isVariable declared e
  -- what a round declares is forgotten, so every round begins alike
  have hagain := ih.runLoop scope isVariable declared place test update body htest hupdate hbody hround
    hfits
  have hrun : Obeys strict scope isVariable declared declared (run n scope body) :=
    (ih.run scope isVariable declared body hbody hfits).forget fun hstrict => by
      rw [hround hstrict, List.append_nil]
  have hgoesOn : Obeys strict scope isVariable declared declared (goesOn n scope test) := by
    cases test with
    | none => exact obeys_pure true
    | some e => exact (hevaluate e (htest e rfl)).bind fun _ => obeys_pure _
  rw [runLoop_eq_rounds]
  refine (obeys_tick place).bind fun _ => hgoesOn.bind fun onward => ?_
  split
  · refine hrun.bind fun flow => ?_
    cases flow with
    | broken => exact obeys_pure _
    | returned value => exact obeys_pure _
    | normal | continued =>
      cases update with
      | none => exact hagain
      | some e => exact (hevaluate e (hupdate e rfl)).bind fun _ => hagain
  · exact obeys_pure _

private theorem run_obeys {c : Command} (hsound : c.IsSound strict)
    (hfits : Fits isVariable declared c.vars c.lexicals) :
    Obeys strict scope isVariable declared (declared ++ c.lexicals) (run (n + 1) scope c) := by
  have hevaluate (e : Expression) := ih.evaluate scope isVariable declared e
  cases hsound with
  | @expression e he =>
    simp only [run, Command.lexicals, List.append_nil]
    exact (obeys_tick e.position).bind fun _ => (hevaluate e he).bind fun _ => obeys_pure _
  | @declaration kind ds hds =>
    rw [Command.vars_declaration, Command.lexicals_declaration] at hfits
    rw [Command.lexicals_declaration]
    simp only [run]
    exact (ih.runDeclarators scope isVariable declared kind ds hds hfits).bind fun _ => obeys_pure _
  | function | empty =>
    simp only [run, Command.lexicals, List.append_nil]
    exact obeys_pure _
  | @returning place value hvalue =>
    simp only [run, Command.lexicals, List.append_nil]
    refine (obeys_tick place).bind fun _ => ?_
    cases value with
    | none => exact obeys_pure _
    | some e => exact (hevaluate e (hvalue e rfl)).bind fun _ => obeys_pure _
  | @branch test yes no htest hyes hno =>
    simp only [Command.vars, Command.lexicals] at hfits ⊢
    simp only [run]
    refine (obeys_tick test.position).bind fun _ => (hevaluate test htest).bind fun value => ?_
    -- the names of both branches count as declared, whichever is taken
    split
    · refine (ih.run scope isVariable declared yes hyes hfits.left).mono ?_
      exact List.append_subset.2 ⟨List.subset_append_left _ _,
        List.subset_append_of_subset_right _ (List.subset_append_left _ _)⟩
    · cases no with
      | none => exact (obeys_pure _).mono (List.subset_append_left _ _)
      | some no =>
        refine (ih.run scope isVariable declared no (hno no rfl) hfits.skip).mono ?_
        exact List.append_subset.2 ⟨List.subset_append_left _ _,
          List.subset_append_of_subset_right _ (List.subset_append_right _ _)⟩
  | @whileLoop test body htest hbody hround =>
    simp only [Command.vars, Command.lexicals] at hfits ⊢
    simp only [run]
    exact (ih.runLoop scope isVariable declared test.position (some test) none body
      (by simpa using htest) (by simp) hbody hround hfits).mono (List.subset_append_left _ _)
  | @forLoop place start test update body hstart htest hupdate hbody hround hnames =>
    simp only [Command.lexicals, List.append_nil]
    simp only [run]
    -- the scope of the loop has the variable that it counts and the names of a body that is no block
    refine obeys_openScope (· ∈ (loopDeclaration start).vars ++ body.vars)
      (loopDeclaration start).lexicals fun id => ?_
    have hloop := ih.runLoop (id :: scope) (· ∈ (loopDeclaration start).vars ++ body.vars)
      (loopDeclaration start).lexicals place test update body htest hupdate hbody hround
      hnames.fits.right
    cases start with
    | none => exact hloop
    | some start =>
      cases start with
      | declaration kind ds =>
        have hfirst := hnames.fits.left
        simp only [loopDeclaration, Command.vars_declaration, Command.lexicals_declaration]
          at hfirst hloop ⊢
        exact (ih.runDeclarators (id :: scope) _ [] kind ds (hstart _ rfl) hfirst).bind fun _ => hloop
      | expression e =>
        exact (ih.evaluate (id :: scope) _ [] e (hstart _ rfl)).bind fun _ => hloop
  | @block body hnames hbody =>
    simp only [Command.lexicals, List.append_nil]
    simp only [run]
    exact obeys_openScope _ _ fun id => ih.runBlock (id :: scope) _ [] body hbody hnames.fits
  | @breaking place | @continuing place =>
    simp only [run, Command.lexicals, List.append_nil]
    exact (obeys_tick place).bind fun _ => obeys_pure _

end

/-- Evaluation keeps the declarations of sound expressions and statements, however much fuel it is
    given. -/
theorem evaluationObeys (strict : Prop) (n : Nat) : EvaluationObeys strict n := by
  -- on the fuel, with one lemma for each of the mutual functions
  induction n with
  | zero => constructor <;> intros <;> exact obeys_outOfFuel
  | succ n ih =>
    exact {
      evaluate := fun scope isVariable declared e he => evaluate_obeys ih scope isVariable declared he
      evaluateAll := fun scope isVariable declared es hes => by
        cases es with
        | nil => exact obeys_pure _
        | cons e es =>
          obtain ⟨he, hes⟩ := List.forall_mem_cons.1 hes
          simp only [evaluateAll]
          exact (ih.evaluate scope isVariable declared e he).bind fun v =>
            (ih.evaluateAll scope isVariable declared es hes).bind fun vs => obeys_pure _
      store := fun scope isVariable declared target value => store_obeys ih scope isVariable declared value
      callClosure := fun scope isVariable declared => callClosure_obeys ih scope isVariable declared
      runDeclarators := fun scope isVariable declared kind ds =>
        runDeclarators_obeys ih scope isVariable declared kind
      runBlock := fun scope isVariable declared commands => runBlock_obeys ih scope isVariable declared
      runAll := fun scope isVariable declared commands => runAll_obeys ih scope isVariable declared
      runLoop := fun scope isVariable declared place test update body =>
        runLoop_obeys ih scope isVariable declared place
      run := fun scope isVariable declared c => run_obeys ih scope isVariable declared }

/-- A run of a whole program keeps its declarations. -/
theorem obeys_runProgram {strict : Prop} {isVariable : Text → Prop} (n : Nat) {program : Program}
    (hsound : ∀ c ∈ program, c.IsSound strict)
    (hfits : Fits isVariable [] (varsAll program) (lexicalsAll program)) :
    Obeys strict Machine.globalScope isVariable [] (lexicalsAll program) (runProgram n program) := by
  have hobeys := evaluationObeys strict n
  simp only [runProgram]
  refine ((hobeys.runBlock Machine.globalScope isVariable [] program hsound hfits).within _).bind
    fun _ => (obeys_find? _).bind fun found => ?_
  split
  · refine (obeys_fromHeap _).bind fun closure => ?_
    split
    · exact (hobeys.callClosure _ _ _ _ _ _).bind fun _ => obeys_pure ()
    · exact obeys_pure ()
  · exact obeys_pure ()

end Pseudocode.Script
