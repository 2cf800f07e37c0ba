import Pseudocode.Proofs.Declarations
import Pseudocode.Proofs.EvaluationRelation

/-!
# Legal statements

What the checks before a run guarantee about jumps. A `break` or `continue` stands in a loop of its
own function, and a `return` stands in a function; so statements never end by a jump that nobody
waits for.

* `Command.IsLegal`              jumps have something to jump out of, assignments have targets
* `Program.isLegal_of_parse`     programs are legal, outside of loops and functions
* `flow_isLegal`                 legal statements end by legal jumps only
-/

namespace Pseudocode.Script

open Eval

/-- Jumps inside a statement have something to jump out of, and assignments have targets. The
    statement may stand inside of a loop or a function. -/
inductive Command.IsLegal : (inLoop inFunction : Bool) → Command → Prop where
  | expression {inLoop inFunction : Bool} {e : Expression} (he : e.IsSound) :
    IsLegal inLoop inFunction (.expression e)
  | declaration {inLoop inFunction : Bool} {kind : BindingKind}
    {ds : List (Declarator Expression Position)} (hds : AreSound ds) :
    IsLegal inLoop inFunction (.declaration kind ds)
  /-- A function has nothing to do with the loops around it. -/
  | function {inLoop inFunction : Bool} {place namePlace : Position} {name : Text}
    {parameters : List Text} {isAsync : Bool} {body : List Command}
    (hbody : ∀ c ∈ body, IsLegal false true c) :
    IsLegal inLoop inFunction (.function place name namePlace parameters isAsync body)
  | returning {inLoop : Bool} {place : Position} {value : Option Expression}
    (hvalue : ∀ e ∈ value, e.IsSound) : IsLegal inLoop true (.returning place value)
  | branch {inLoop inFunction : Bool} {test : Expression} {yes : Command} {no : Option Command}
    (htest : test.IsSound) (hyes : IsLegal inLoop inFunction yes)
    (hno : ∀ c ∈ no, IsLegal inLoop inFunction c) : IsLegal inLoop inFunction (.branch test yes no)
  | whileLoop {inLoop inFunction : Bool} {test : Expression} {body : Command} (htest : test.IsSound)
    (hbody : IsLegal true inFunction body) : IsLegal inLoop inFunction (.whileLoop test body)
  | forLoop {inLoop inFunction : Bool} {place : Position}
    {start : Option (LoopStart Expression Position)} {test update : Option Expression}
    {body : Command} (hstart : ∀ s ∈ start, s.IsSound) (htest : ∀ e ∈ test, e.IsSound)
    (hupdate : ∀ e ∈ update, e.IsSound) (hbody : IsLegal true inFunction body) :
    IsLegal inLoop inFunction (.forLoop place start test update body)
  | block {inLoop inFunction : Bool} {body : List Command}
    (hbody : ∀ c ∈ body, IsLegal inLoop inFunction c) : IsLegal inLoop inFunction (.block body)
  | breaking {inFunction : Bool} {place : Position} : IsLegal true inFunction (.breaking place)
  | continuing {inFunction : Bool} {place : Position} : IsLegal true inFunction (.continuing place)
  | empty {inLoop inFunction : Bool} : IsLegal inLoop inFunction .empty

/-! ## Checked statements -/

mutual

/-- A checked statement is legal in its surroundings. -/
theorem Statement.isLegal_of_check {around : Surroundings} {declared declared' : Declared}
    {c : Command} : ∀ s : Sentence, s.check around declared = .ok (c, declared') →
      c.IsLegal around.inLoop around.inFunction
  | .expression p, h => by
    simp only [Statement.check, Checked.bind_eq_ok, Checked.pure_eq_ok, Prod.mk.injEq] at h
    obtain ⟨e, hp, rfl, rfl⟩ := h
    exact .expression (p.isSound_of_checkWhole hp)
  | .declaration kind ds, h => by
    simp only [Statement.check, Checked.bind_eq_ok, Checked.pure_eq_ok, Prod.mk.injEq,
      Prod.exists] at h
    obtain ⟨_, _, hds, rfl, rfl⟩ := h
    exact .declaration (Declarator.declares_of_check hds).2
  | .function start name namePlace parameters isAsync body, h => by
    simp only [Statement.check, Checked.bind_eq_ok, Checked.pure_eq_ok, Prod.mk.injEq,
      Prod.exists] at h
    obtain ⟨_, _, _, _, hbody, rfl, rfl⟩ := h
    -- the body is checked with no loop around it, and with a function around it
    exact .function (Statement.isLegal_of_checkAll body hbody)
  | .returning start value, h => by
    simp only [Statement.check] at h
    split at h
    -- only a `return` inside of a function passes the check
    · rename_i hfunction
      simp only [Checked.bind_eq_ok, Checked.pure_eq_ok, Prod.mk.injEq] at h
      obtain ⟨_, hvalue, rfl, rfl⟩ := h
      rw [hfunction]
      exact .returning (Phrase.isSound_of_checkOptional hvalue)
    · cases h
  | .branch test yes no, h => by
    simp only [Statement.check, Checked.bind_eq_ok, Prod.exists] at h
    obtain ⟨_, htest, yes', between, hyes, h⟩ := h
    have htestSound := test.isSound_of_checkWhole htest
    have hyesLegal := Statement.isLegal_of_check yes hyes
    cases no with
    | none =>
      simp only [Checked.pure_eq_ok, Prod.mk.injEq] at h
      obtain ⟨rfl, rfl⟩ := h
      exact .branch htestSound hyesLegal (by simp)
    | some no =>
      simp only [Checked.bind_eq_ok, Checked.pure_eq_ok, Prod.mk.injEq, Prod.exists] at h
      obtain ⟨no', _, hno, rfl, rfl⟩ := h
      have hnoLegal := Statement.isLegal_of_check no hno
      exact .branch htestSound hyesLegal (by simpa using hnoLegal)
  | .whileLoop test body, h => by
    simp only [Statement.check, Checked.bind_eq_ok, Checked.pure_eq_ok, Prod.mk.injEq,
      Prod.exists] at h
    obtain ⟨_, htest, _, _, hbody, rfl, rfl⟩ := h
    exact .whileLoop (test.isSound_of_checkWhole htest) (Statement.isLegal_of_check body hbody)
  | .forLoop start init test update body, h => by
    simp only [Statement.check, Checked.bind_eq_ok, Checked.pure_eq_ok, Prod.mk.injEq,
      Prod.exists] at h
    obtain ⟨_, _, hinit, _, htest, _, hupdate, _, _, hbody, rfl, rfl⟩ := h
    exact .forLoop (LoopStart.declares_of_check hinit).2 (Phrase.isSound_of_checkOptional htest)
      (Phrase.isSound_of_checkOptional hupdate) (Statement.isLegal_of_check body hbody)
  | .block body, h => by
    simp only [Statement.check, Checked.bind_eq_ok, Checked.pure_eq_ok, Prod.mk.injEq,
      Prod.exists] at h
    obtain ⟨_, _, hbody, rfl, rfl⟩ := h
    exact .block (Statement.isLegal_of_checkAll body hbody)
  | .breaking start, h | .continuing start, h => by
    simp only [Statement.check] at h
    split at h
    -- only a jump inside of a loop passes the check
    · rename_i hloop
      simp only [Except.ok.injEq, Prod.mk.injEq] at h
      obtain ⟨rfl, rfl⟩ := h
      rw [hloop]
      constructor
    · cases h
  | .empty, h => by
    simp only [Statement.check, Except.ok.injEq, Prod.mk.injEq] at h
    obtain ⟨rfl, rfl⟩ := h
    exact .empty

/-- The same for the statements of a block. -/
theorem Statement.isLegal_of_checkAll {around : Surroundings} {declared declared' : Declared}
    {cs : List Command} : ∀ ss : List Sentence,
      Statement.checkAll around declared ss = .ok (cs, declared') →
        ∀ c ∈ cs, c.IsLegal around.inLoop around.inFunction
  | [], h => by
    simp only [Statement.checkAll, Except.ok.injEq, Prod.mk.injEq] at h
    obtain ⟨rfl, rfl⟩ := h
    simp
  | s :: ss, h => by
    simp only [Statement.checkAll, Checked.bind_eq_ok, Checked.pure_eq_ok, Prod.mk.injEq,
      Prod.exists] at h
    obtain ⟨_, _, hs, _, _, hss, rfl, rfl⟩ := h
    exact List.forall_mem_cons.2
      ⟨Statement.isLegal_of_check s hs, Statement.isLegal_of_checkAll ss hss⟩

end

/-- The statements of a program are legal outside of loops and functions. -/
theorem Program.isLegal_of_parse {t : Text} {program : Program} (h : Program.parse t = .ok program) :
    ∀ c ∈ program, c.IsLegal false false := by
  obtain ⟨ss, declared, -, hcheck⟩ := Program.exists_of_parse h
  exact Statement.isLegal_of_checkAll ss hcheck

/-! ## Ends of statements -/

/-- A statement may end in this way where it stands. -/
def Flow.IsLegal (inLoop inFunction : Bool) : Flow → Prop
  | .normal => True
  | .returned _ => inFunction = true
  | .broken | .continued => inLoop = true

/-- Every value that something ends with. -/
def Yields {α : Type} (Q : α → Prop) (x : Eval α) : Prop := ∀ m a m', x m = .ok a m' → Q a

section

variable {α β : Type} {Q : α → Prop} {R : β → Prop}

theorem yields_pure {a : α} (ha : Q a) : Yields Q (pure a : Eval α) := by
  intro m b m' h
  cases h
  exact ha

theorem yields_outOfFuel : Yields Q (throw .outOfFuel : Eval α) := fun _ _ _ h => by cases h

/-- What is done first decides what comes next, whatever that yields. -/
theorem Yields.bind {x : Eval α} {f : α → Eval β} (hx : Yields Q x)
    (hf : ∀ a, Q a → Yields R (f a)) : Yields R (x >>= f) := by
  intro m b m'' h
  simp only [Bind.bind, EStateM.bind] at h
  cases hrun : x m with
  | error u m' =>
    rw [hrun] at h
    cases h
  | ok a m' =>
    rw [hrun] at h
    exact hf a (hx m a m' hrun) m' b m'' h

theorem yields_after {x : Eval α} {f : α → Eval β} (hf : ∀ a, Yields R (f a)) :
    Yields R (x >>= f) :=
  Yields.bind (Q := fun _ => True) (fun _ _ _ _ => trivial) fun a _ => hf a

end

/-- With some fuel, legal statements end by legal jumps only, on whatever machine. -/
structure FlowsLegally (n : Nat) : Prop where
  runBlock (scope : Scope) (inLoop inFunction : Bool) (commands : List Command)
    (hlegal : ∀ c ∈ commands, c.IsLegal inLoop inFunction) :
    Yields (Flow.IsLegal inLoop inFunction) (runBlock n scope commands)
  runAll (scope : Scope) (inLoop inFunction : Bool) (commands : List Command)
    (hlegal : ∀ c ∈ commands, c.IsLegal inLoop inFunction) :
    Yields (Flow.IsLegal inLoop inFunction) (runAll n scope commands)
  runLoop (scope : Scope) (inLoop inFunction : Bool) (place : Position)
    (test update : Option Expression) (body : Command) (hbody : body.IsLegal true inFunction) :
    Yields (Flow.IsLegal inLoop inFunction) (runLoop n scope place test update body)
  run (scope : Scope) (inLoop inFunction : Bool) (c : Command)
    (hlegal : c.IsLegal inLoop inFunction) :
    Yields (Flow.IsLegal inLoop inFunction) (run n scope c)

section

variable {n : Nat} (ih : FlowsLegally n) (scope : Scope) {inLoop inFunction : Bool}
include ih

/-- A loop takes the jumps of its body that are meant for it. -/
private theorem runLoop_flowsLegally (place : Position) {test update : Option Expression}
    {body : Command} (hbody : body.IsLegal true inFunction) :
    Yields (Flow.IsLegal inLoop inFunction) (runLoop (n + 1) scope place test update body) := by
  have hagain := ih.runLoop scope inLoop inFunction place test update body hbody
  rw [runLoop_eq_rounds]
  -- neither the check of the round nor its test says how the loop ends
  refine yields_after fun _ => yields_after fun onward => ?_
  split
  · refine (ih.run scope true inFunction body hbody).bind fun flow hflow => ?_
    cases flow with
    | broken => exact yields_pure trivial
    | returned value => exact yields_pure hflow
    | normal | continued =>
      cases update with
      | none => exact hagain
      | some e => exact yields_after fun _ => hagain
  · exact yields_pure trivial

private theorem run_flowsLegally {c : Command} (hlegal : c.IsLegal inLoop inFunction) :
    Yields (Flow.IsLegal inLoop inFunction) (run (n + 1) scope c) := by
  -- a command ends early by one of its parts, which is legal where it stands
  cases hlegal with
  | expression =>
    simp only [run]
    exact yields_after fun _ => yields_after fun _ => yields_pure trivial
  | declaration =>
    simp only [run]
    exact yields_after fun _ => yields_pure trivial
  | function | empty =>
    simp only [run]
    exact yields_pure trivial
  | @returning _ place value hvalue =>
    simp only [run]
    apply yields_after
    intro _
    cases value with
    | none => exact yields_pure rfl
    | some e => exact yields_after fun _ => yields_pure rfl
  | @branch _ _ test yes no htest hyes hno =>
    simp only [run]
    apply yields_after
    intro _
    apply yields_after
    intro value
    split
    · exact ih.run scope _ _ yes hyes
    · cases no with
      | none => exact yields_pure trivial
      | some no => exact ih.run scope _ _ no (hno no rfl)
  | @whileLoop _ _ test body htest hbody =>
    simp only [run]
    exact ih.runLoop scope _ _ test.position (some test) none body hbody
  | @forLoop _ _ place start test update body hstart htest hupdate hbody =>
    simp only [run]
    apply yields_after
    intro scope
    have hloop := ih.runLoop scope inLoop inFunction place test update body hbody
    cases start with
    | none => exact hloop
    | some start => cases start <;> exact yields_after fun _ => hloop
  | @block _ _ body hbody =>
    simp only [run]
    exact yields_after fun scope => ih.runBlock scope _ _ body hbody
  | breaking | continuing =>
    simp only [run]
    exact yields_after fun _ => yields_pure rfl

end

/-- Legal statements end by legal jumps only, however much fuel they are given. -/
theorem flow_isLegal (n : Nat) : FlowsLegally n := by
  -- on the fuel, because a loop runs its own round again with less of it
  induction n with
  | zero => constructor <;> intros <;> exact yields_outOfFuel
  | succ n ih =>
    refine ⟨fun scope inLoop inFunction commands hlegal => ?_,
      fun scope inLoop inFunction commands hlegal => ?_,
      fun scope _ _ place test update body hbody => runLoop_flowsLegally ih scope place hbody,
      fun scope _ _ c hlegal => run_flowsLegally ih scope hlegal⟩
    · simp only [runBlock]
      exact yields_after fun _ => ih.runAll scope inLoop inFunction commands hlegal
    · cases commands with
      | nil => exact yields_pure trivial
      | cons c cs =>
        obtain ⟨hc, hcs⟩ := List.forall_mem_cons.1 hlegal
        simp only [runAll]
        -- the first statement that does not end normally decides
        refine (ih.run scope inLoop inFunction c hc).bind fun flow hflow => ?_
        cases flow with
        | normal => exact ih.runAll scope inLoop inFunction cs hcs
        | _ => exact yields_pure hflow

end Pseudocode.Script
