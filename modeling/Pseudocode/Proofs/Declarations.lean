import Mathlib.Data.List.Nodup
import Pseudocode.Script.Program

/-!
# Declarations in programs

What the checks before a run guarantee about the names of a program. Every block declares a name with
`let` or `const` at most once, and never beside a variable, a function or a parameter of that name;
and every assignment has a target.

* `Command.vars`, `Command.lexicals`   the names that a statement declares in its own block
* `Expression.IsSound`, `Command.IsSound`   assignments have targets, blocks declare names once
* `Program.isSound_of_parse`                programs are sound
-/

namespace Pseudocode.Script

/-! ## Names -/

mutual

/-- The variables and functions that a statement declares in the block that it stands in. -/
def Command.vars : Command → List Text
  | .declaration .var ds => ds.map Declarator.name
  | .function _ name _ _ _ _ => [name]
  | .branch _ yes no => Command.vars yes ++ Command.varsOf no
  | .whileLoop _ body => Command.vars body
  | _ => []

/-- The variables and functions of a statement that need not be there. -/
def Command.varsOf : Option Command → List Text
  | none => []
  | some c => Command.vars c

end

mutual

/-- The names that a statement declares with `let` or `const` in the block that it stands in. -/
def Command.lexicals : Command → List Text
  | .declaration .let ds | .declaration .const ds => ds.map Declarator.name
  | .branch _ yes no => Command.lexicals yes ++ Command.lexicalsOf no
  | .whileLoop _ body => Command.lexicals body
  | _ => []

/-- The names that a statement declares with `let` or `const`, if it is there. -/
def Command.lexicalsOf : Option Command → List Text
  | none => []
  | some c => Command.lexicals c

end

/-- The variables and functions of a block. -/
def varsAll (cs : List Command) : List Text := cs.flatMap Command.vars

/-- The names that a block declares with `let` or `const`. -/
def lexicalsAll (cs : List Command) : List Text := cs.flatMap Command.lexicals

/-- The declaration that a loop starts with, as a statement. -/
def loopDeclaration : Option (LoopStart Expression Position) → Command
  | some (.declaration kind ds) => .declaration kind ds
  | _ => .empty

/-- Names declared with `let` or `const` are declared once, and are no variables. -/
structure DeclaresOnce (vars lexicals : List Text) : Prop where
  nodup : lexicals.Nodup
  apart : ∀ name ∈ lexicals, name ∉ vars

mutual

/-- No round of a loop declares a name with `let` or `const` outside of a block. -/
def Command.LoopsDeclareNothing : Command → Prop
  | .function _ _ _ _ _ body | .block body => Command.LoopsDeclareNothingAll body
  | .branch _ yes no => Command.LoopsDeclareNothing yes ∧ Command.LoopsDeclareNothingOf no
  | .whileLoop _ body | .forLoop _ _ _ _ body =>
    Command.lexicals body = [] ∧ Command.LoopsDeclareNothing body
  | _ => True

/-- The same for a statement that need not be there. -/
def Command.LoopsDeclareNothingOf : Option Command → Prop
  | none => True
  | some c => Command.LoopsDeclareNothing c

/-- The same for all statements of a block. -/
def Command.LoopsDeclareNothingAll : List Command → Prop
  | [] => True
  | c :: cs => Command.LoopsDeclareNothing c ∧ Command.LoopsDeclareNothingAll cs

end

/-! ## Sound programs -/

/-- Every assignment inside an expression has a target. -/
inductive Expression.IsSound : Expression → Prop where
  | number {place : Position} {x : Float} : IsSound (.number place x)
  | string {place : Position} {t : Text} : IsSound (.string place t)
  | bool {place : Position} {b : Bool} : IsSound (.bool place b)
  | null {place : Position} : IsSound (.null place)
  | undefined {place : Position} : IsSound (.undefined place)
  | array {place : Position} {items : List Expression} (items_sound : ∀ e ∈ items, IsSound e) :
    IsSound (.array place items)
  | identifier {place : Position} {name : Text} : IsSound (.identifier place name)
  | unary {place : Position} {operator : UnaryOperator} {operand : Expression}
    (operand_sound : IsSound operand) : IsSound (.unary place operator operand)
  | binary {place : Position} {operator : BinaryOperator} {left right : Expression}
    (left_sound : IsSound left) (right_sound : IsSound right) :
    IsSound (.binary place operator left right)
  | conditional {place : Position} {test yes no : Expression} (test_sound : IsSound test)
    (yes_sound : IsSound yes) (no_sound : IsSound no) : IsSound (.conditional place test yes no)
  | assign {place : Position} {operator : AssignmentOperator} {target value : Expression}
    (target_sound : IsSound target) (isTarget : target.isTarget = true)
    (value_sound : IsSound value) : IsSound (.assign place operator target value)
  | call {place : Position} {callee : Expression} {operands : List Expression}
    (callee_sound : IsSound callee) (operands_sound : ∀ e ∈ operands, IsSound e) :
    IsSound (.call place callee operands)
  | index {place : Position} {object key : Expression} (object_sound : IsSound object)
    (key_sound : IsSound key) : IsSound (.index place object key)
  | member {place : Position} {object : Expression} {name : Text} (object_sound : IsSound object) :
    IsSound (.member place object name)
  | construct {place : Position} {name : Text} {operands : List Expression}
    (operands_sound : ∀ e ∈ operands, IsSound e) : IsSound (.construct place name operands)

/-- The values of declarators are sound. -/
def AreSound (ds : List (Declarator Expression Position)) : Prop :=
  ∀ d ∈ ds, ∀ e ∈ d.value, e.IsSound

/-- The start of a loop is sound. -/
def LoopStart.IsSound : LoopStart Expression Position → Prop
  | .declaration _ ds => AreSound ds
  | .expression e => e.IsSound

/-- Every block inside a statement declares its names once, and every assignment has a target. If
    `strict` holds, no round of a loop declares a name with `let` or `const` outside of a block. -/
inductive Command.IsSound (strict : Prop) : Command → Prop where
  | expression {e : Expression} (he : e.IsSound) : IsSound strict (.expression e)
  | declaration {kind : BindingKind} {ds : List (Declarator Expression Position)}
    (hds : AreSound ds) : IsSound strict (.declaration kind ds)
  | function {place namePlace : Position} {name : Text} {parameters : List Text} {isAsync : Bool}
    {body : List Command} (hnames : DeclaresOnce (parameters ++ varsAll body) (lexicalsAll body))
    (hbody : ∀ c ∈ body, IsSound strict c) :
    IsSound strict (.function place name namePlace parameters isAsync body)
  | returning {place : Position} {value : Option Expression} (hvalue : ∀ e ∈ value, e.IsSound) :
    IsSound strict (.returning place value)
  | branch {test : Expression} {yes : Command} {no : Option Command} (htest : test.IsSound)
    (hyes : IsSound strict yes) (hno : ∀ c ∈ no, IsSound strict c) :
    IsSound strict (.branch test yes no)
  | whileLoop {test : Expression} {body : Command} (htest : test.IsSound)
    (hbody : IsSound strict body) (hround : strict → body.lexicals = []) :
    IsSound strict (.whileLoop test body)
  | forLoop {place : Position} {start : Option (LoopStart Expression Position)}
    {test update : Option Expression} {body : Command} (hstart : ∀ s ∈ start, s.IsSound)
    (htest : ∀ e ∈ test, e.IsSound) (hupdate : ∀ e ∈ update, e.IsSound)
    (hbody : IsSound strict body) (hround : strict → body.lexicals = [])
    (hnames : DeclaresOnce ((loopDeclaration start).vars ++ body.vars)
      ((loopDeclaration start).lexicals ++ body.lexicals)) :
    IsSound strict (.forLoop place start test update body)
  | block {body : List Command} (hnames : DeclaresOnce (varsAll body) (lexicalsAll body))
    (hbody : ∀ c ∈ body, IsSound strict c) : IsSound strict (.block body)
  | breaking {place : Position} : IsSound strict (.breaking place)
  | continuing {place : Position} : IsSound strict (.continuing place)
  | empty : IsSound strict .empty

/-! ## Checked expressions -/

theorem Checked.bind_eq_ok {α β : Type} {x : Checked α} {f : α → Checked β} {b : β} :
    (x >>= f) = .ok b ↔ ∃ a, x = .ok a ∧ f a = .ok b := by
  cases x <;> simp [bind, Except.bind]

theorem Checked.pure_eq_ok {α : Type} {a b : α} : (pure a : Checked α) = .ok b ↔ a = b := by
  simp [pure, Except.pure]

section

variable {index : LineIndex}

mutual

/-- Checked expressions are sound. -/
theorem Phrase.isSound_of_check {entered : Level} {depth links : Nat} {e : Expression} :
    ∀ p : Phrase, p.check index entered depth = .ok (e, links) → e.IsSound
  | .number _ _, h | .string _ _, h | .bool _ _, h | .null _, h | .undefined _, h
  | .identifier _ _, h => by
    simp only [Phrase.check, Checked.bind_eq_ok, Checked.pure_eq_ok, Prod.mk.injEq] at h
    obtain ⟨_, -, rfl, -⟩ := h
    constructor
  | .array _ items, h => by
    simp only [Phrase.check, Checked.bind_eq_ok, Checked.pure_eq_ok, Prod.mk.injEq] at h
    obtain ⟨_, -, _, hitems, rfl, -⟩ := h
    exact .array (Phrase.isSound_of_checkAll items hitems)
  | .construct _ _ operands, h => by
    simp only [Phrase.check, Checked.bind_eq_ok, Checked.pure_eq_ok, Prod.mk.injEq] at h
    obtain ⟨_, -, _, hoperands, rfl, -⟩ := h
    exact .construct (Phrase.isSound_of_checkAll operands hoperands)
  | .group _ inner, h => by
    simp only [Phrase.check, Checked.bind_eq_ok, Checked.pure_eq_ok, Prod.mk.injEq, Prod.exists] at h
    obtain ⟨_, -, _, _, hinner, rfl, -⟩ := h
    exact inner.isSound_of_check hinner
  | .call callee _ operands, h => by
    simp only [Phrase.check, Checked.bind_eq_ok, Checked.pure_eq_ok, Prod.mk.injEq, Prod.exists] at h
    obtain ⟨_, -, _, _, hcallee, _, -, _, hoperands, rfl, -⟩ := h
    exact .call (callee.isSound_of_check hcallee) (Phrase.isSound_of_checkAll operands hoperands)
  | .index object _ key, h => by
    simp only [Phrase.check, Checked.bind_eq_ok, Checked.pure_eq_ok, Prod.mk.injEq, Prod.exists] at h
    obtain ⟨_, -, _, _, hobject, _, -, _, _, hkey, rfl, -⟩ := h
    exact .index (object.isSound_of_check hobject) (key.isSound_of_check hkey)
  | .member object _ _ _, h => by
    simp only [Phrase.check, Checked.bind_eq_ok, Checked.pure_eq_ok, Prod.mk.injEq, Prod.exists] at h
    obtain ⟨_, -, _, _, hobject, _, -, rfl, -⟩ := h
    exact .member (object.isSound_of_check hobject)
  | .unary _ _ operand, h => by
    simp only [Phrase.check, Checked.bind_eq_ok, Prod.exists] at h
    obtain ⟨_, -, _, _, hoperand, h⟩ := h
    have hunary := operand.isSound_of_check hoperand
    split at h <;> simp only [Checked.bind_eq_ok, Checked.pure_eq_ok, Prod.mk.injEq] at h <;>
      obtain ⟨_, -, rfl, -⟩ := h <;> exact .unary hunary
  | .binary left _ _ right, h => by
    simp only [Phrase.check, Checked.bind_eq_ok, Checked.pure_eq_ok, Prod.mk.injEq, Prod.exists] at h
    obtain ⟨_, -, _, _, hleft, _, -, _, _, hright, rfl, -⟩ := h
    exact .binary (left.isSound_of_check hleft) (right.isSound_of_check hright)
  | .conditional test yes no, h => by
    simp only [Phrase.check, Checked.bind_eq_ok, Checked.pure_eq_ok, Prod.mk.injEq, Prod.exists] at h
    obtain ⟨_, -, _, _, htest, _, _, hyes, _, _, hno, rfl, -⟩ := h
    exact .conditional (test.isSound_of_check htest) (yes.isSound_of_check hyes)
      (no.isSound_of_check hno)
  | .assign target _ value, h => by
    simp only [Phrase.check, Checked.bind_eq_ok, Prod.exists] at h
    obtain ⟨_, -, checked, _, htarget, h⟩ := h
    -- what is no target is reported before the value is looked at
    cases hisTarget : checked.isTarget with
    | false => simp [hisTarget, faultAt, bind, Except.bind] at h
    | true =>
      simp only [hisTarget, Bool.not_true, Bool.false_eq_true, if_false, Checked.bind_eq_ok,
        Checked.pure_eq_ok, Prod.mk.injEq, Prod.exists] at h
      obtain ⟨_, _, hvalue, rfl, -⟩ := h
      exact .assign (target.isSound_of_check htarget) hisTarget (value.isSound_of_check hvalue)

theorem Phrase.isSound_of_checkAll {depth : Nat} {es : List Expression} :
    ∀ ps : List Phrase, Phrase.checkAll index depth ps = .ok es → ∀ e ∈ es, e.IsSound
  | [], h => by
    simp only [Phrase.checkAll, Except.ok.injEq] at h
    simp [← h]
  | p :: ps, h => by
    simp only [Phrase.checkAll, Checked.bind_eq_ok, Checked.pure_eq_ok, Prod.exists] at h
    obtain ⟨_, _, hp, _, hps, rfl⟩ := h
    exact List.forall_mem_cons.2 ⟨p.isSound_of_check hp, Phrase.isSound_of_checkAll ps hps⟩

end

theorem Phrase.isSound_of_checkWhole {p : Phrase} {e : Expression}
    (h : p.checkWhole index = .ok e) : e.IsSound := by
  simp only [checkWhole, Checked.bind_eq_ok, Checked.pure_eq_ok, Prod.exists] at h
  obtain ⟨_, _, hp, rfl⟩ := h
  exact p.isSound_of_check hp

theorem Phrase.isSound_of_checkOptional {p : Option Phrase} {value : Option Expression}
    (h : Phrase.checkOptional index p = .ok value) : ∀ e ∈ value, e.IsSound := by
  cases p with
  | none =>
    simp only [checkOptional, Except.ok.injEq] at h
    simp [← h]
  | some p =>
    simp only [checkOptional, Checked.bind_eq_ok, Checked.pure_eq_ok] at h
    obtain ⟨e, hp, rfl⟩ := h
    simpa using p.isSound_of_checkWhole hp

end

/-! ## Checked statements -/

/-- How the names of a block grow when more are declared. -/
structure Declares (declared declared' : Declared) (vars lexicals : List Text) : Prop where
  kept {name : Text} {kind : BindingKind} : declared.lookup name = some kind →
    declared'.lookup name = some kind
  of_variable : ∀ name ∈ vars, declared'.lookup name = some .var
  of_lexical : ∀ name ∈ lexicals, declared.lookup name = none ∧
    ∃ kind, declared'.lookup name = some kind ∧ kind ≠ .var
  nodup : lexicals.Nodup

namespace Declares

variable {declared declared' declared'' : Declared} {vars vars' lexicals lexicals' : List Text}

theorem refl (declared : Declared) : Declares declared declared [] [] :=
  ⟨id, by simp, by simp, List.nodup_nil⟩

theorem trans (h : Declares declared declared' vars lexicals)
    (h' : Declares declared' declared'' vars' lexicals') :
    Declares declared declared'' (vars ++ vars') (lexicals ++ lexicals') where
  kept hname := h'.kept (h.kept hname)
  of_variable name hname := by
    rcases List.mem_append.1 hname with hname | hname
    · exact h'.kept (h.of_variable name hname)
    · exact h'.of_variable name hname
  of_lexical name hname := by
    rcases List.mem_append.1 hname with hname | hname
    · obtain ⟨hnone, kind, hkind, hne⟩ := h.of_lexical name hname
      exact ⟨hnone, kind, h'.kept hkind, hne⟩
    · obtain ⟨hnone, hkind⟩ := h'.of_lexical name hname
      refine ⟨Option.eq_none_iff_forall_ne_some.2 fun kind hsome => ?_, hkind⟩
      rw [h.kept hsome] at hnone
      cases hnone
  -- a name of the second part cannot be new there if the first part declares it
  nodup := by
    refine List.Nodup.append h.nodup h'.nodup fun name hname hname' => ?_
    obtain ⟨-, kind, hkind, -⟩ := h.of_lexical name hname
    rw [(h'.of_lexical name hname').1] at hkind
    cases hkind

/-- What a block declares it declares once. -/
theorem declaresOnce (h : Declares declared declared' vars lexicals) :
    DeclaresOnce vars lexicals where
  nodup := h.nodup
  apart name hname hvariable := by
    obtain ⟨-, kind, hkind, hne⟩ := h.of_lexical name hname
    rw [h.of_variable name hvariable, Option.some.injEq] at hkind
    exact hne hkind.symm

end Declares

/-- The names that declarators declare. -/
def BindingKind.split (kind : BindingKind) (names : List Text) : List Text × List Text :=
  if kind = .var then (names, []) else ([], names)

section

variable {index : LineIndex}

theorem Declared.declares_of_add {offset : Nat} {name : Text} {kind : BindingKind}
    {declared declared' : Declared} (h : declared.add index offset name kind = .ok declared') :
    Declares declared declared' (kind.split [name]).1 (kind.split [name]).2 := by
  unfold Declared.add at h
  cases hlookup : declared.lookup name with
  | none =>
    simp only [hlookup, Except.ok.injEq] at h
    subst h
    -- the name is new, so it hides none of the names before it
    have hkept {other : Text} {k : BindingKind} (hother : declared.lookup other = some k) :
        List.lookup other ((name, kind) :: declared) = some k := by
      have hne : (other == name) = false := by
        rw [beq_eq_false_iff_ne]
        rintro rfl
        rw [hlookup] at hother
        cases hother
      rw [List.lookup_cons, hne]
      exact hother
    by_cases hvar : kind = .var
    · simp only [BindingKind.split, if_pos hvar]
      exact ⟨hkept, by simp [hvar], by simp, List.nodup_nil⟩
    · simp only [BindingKind.split, if_neg hvar]
      refine ⟨hkept, by simp, ?_, List.nodup_singleton name⟩
      rintro other hother
      obtain rfl := List.mem_singleton.1 hother
      exact ⟨hlookup, kind, by simp, hvar⟩
  | some earlier =>
    simp only [hlookup] at h
    split at h
    · cases h
    -- only a variable may repeat a variable, and then nothing changes
    · rename_i hvars
      simp only [not_or, ne_eq, Decidable.not_not] at hvars
      obtain ⟨rfl, rfl⟩ := hvars
      obtain rfl : declared = declared' := by simpa using h
      exact ⟨id, by simp [BindingKind.split, hlookup], by simp [BindingKind.split], List.nodup_nil⟩

theorem BindingKind.split_cons (kind : BindingKind) (name : Text) (names : List Text) :
    kind.split (name :: names) = ((kind.split [name]).1 ++ (kind.split names).1,
      (kind.split [name]).2 ++ (kind.split names).2) := by
  unfold split
  split <;> rfl

theorem Declarator.declares_of_check {kind : BindingKind} {ds : List (Declarator Phrase Nat)} :
    ∀ {declared declared' : Declared} {checked : List (Declarator Expression Position)},
      Declarator.check index kind declared ds = .ok (checked, declared') →
        Declares declared declared' (kind.split (checked.map Declarator.name)).1
          (kind.split (checked.map Declarator.name)).2 ∧ AreSound checked := by
  induction ds with
  | nil =>
    intro declared declared' checked h
    simp only [Declarator.check, Except.ok.injEq, Prod.mk.injEq] at h
    obtain ⟨rfl, rfl⟩ := h
    have hsplit : kind.split [] = ([], []) := by
      unfold BindingKind.split
      split <;> rfl
    simp only [List.map_nil, hsplit]
    exact ⟨.refl declared, fun d hd => by cases hd⟩
  | cons d ds ih =>
    intro declared declared' checked h
    simp only [Declarator.check, Checked.bind_eq_ok] at h
    obtain ⟨between, hadd, h⟩ := h
    -- with or without a value, the rest is checked with the name added
    have hcons : ∃ value rest, (∀ e ∈ value, e.IsSound) ∧
        Declarator.check index kind between ds = .ok (rest, declared') ∧
        checked = ⟨index.position d.place, d.name, value⟩ :: rest := by
      cases hd : d.value with
      | none =>
        simp only [hd] at h
        split at h
        · cases h
        · simp only [Checked.bind_eq_ok, Checked.pure_eq_ok, Prod.mk.injEq, Prod.exists] at h
          obtain ⟨_, rfl, rest, _, hrest, rfl, rfl⟩ := h
          exact ⟨none, rest, by simp, hrest, rfl⟩
      | some p =>
        simp only [hd, Checked.bind_eq_ok, Checked.pure_eq_ok, Prod.mk.injEq, Prod.exists] at h
        obtain ⟨e, _, hp, _, rfl, rest, _, hrest, rfl, rfl⟩ := h
        exact ⟨some e, rest, by simpa using p.isSound_of_check hp, hrest, rfl⟩
    obtain ⟨value, rest, hvalueSound, hrest, rfl⟩ := hcons
    obtain ⟨hnames, hsound⟩ := ih hrest
    refine ⟨?_, List.forall_mem_cons.2 ⟨hvalueSound, hsound⟩⟩
    rw [List.map_cons, BindingKind.split_cons]
    exact (Declared.declares_of_add hadd).trans hnames

end

theorem Command.vars_declaration (kind : BindingKind)
    (ds : List (Declarator Expression Position)) :
    Command.vars (.declaration kind ds) = (kind.split (ds.map Declarator.name)).1 := by
  cases kind <;> simp [Command.vars, BindingKind.split]

theorem Command.lexicals_declaration (kind : BindingKind)
    (ds : List (Declarator Expression Position)) :
    Command.lexicals (.declaration kind ds) = (kind.split (ds.map Declarator.name)).2 := by
  cases kind <;> simp [Command.lexicals, BindingKind.split]

theorem LoopStart.declares_of_check {index : LineIndex} {start : Option (LoopStart Phrase Nat)}
    {checked : Option (LoopStart Expression Position)} {declared : Declared}
    (h : LoopStart.check index start = .ok (checked, declared)) :
    Declares [] declared (loopDeclaration checked).vars (loopDeclaration checked).lexicals ∧
      ∀ s ∈ checked, s.IsSound := by
  cases start with
  | none =>
    simp only [LoopStart.check, Except.ok.injEq, Prod.mk.injEq] at h
    obtain ⟨rfl, rfl⟩ := h
    exact ⟨by simpa [loopDeclaration, Command.vars, Command.lexicals] using .refl [], by simp⟩
  | some start =>
    cases start with
    | expression p =>
      simp only [LoopStart.check, Checked.bind_eq_ok, Checked.pure_eq_ok, Prod.mk.injEq] at h
      obtain ⟨e, hp, rfl, rfl⟩ := h
      exact ⟨by simpa [loopDeclaration, Command.vars, Command.lexicals] using .refl [],
        by simpa [LoopStart.IsSound] using p.isSound_of_checkWhole hp⟩
    | declaration kind ds =>
      simp only [LoopStart.check, Checked.bind_eq_ok, Checked.pure_eq_ok, Prod.mk.injEq,
        Prod.exists] at h
      obtain ⟨_, _, hds, rfl, rfl⟩ := h
      obtain ⟨hnames, hsound⟩ := Declarator.declares_of_check hds
      rw [loopDeclaration, Command.vars_declaration, Command.lexicals_declaration]
      exact ⟨hnames, by simpa [LoopStart.IsSound] using hsound⟩

/-- The names of parameters. -/
theorem declares_parameters (parameters : List Text) :
    ∀ name ∈ parameters,
      List.lookup name (parameters.map fun p => (p, BindingKind.var)) = some .var := by
  induction parameters with
  | nil => simp
  | cons p ps ih =>
    intro name hname
    rw [List.map_cons, List.lookup_cons]
    split
    · rfl
    · rename_i hne
      refine ih name ((List.mem_cons.1 hname).resolve_left fun heq => ?_)
      simp [heq] at hne

section

variable {strict : Prop}

mutual

/-- A checked statement declares its names in its block, and is sound. -/
theorem Statement.declares_of_check {around : Surroundings} {declared declared' : Declared}
    {c : Command} : ∀ s : Sentence, s.check around declared = .ok (c, declared') →
      Declares declared declared' c.vars c.lexicals ∧
        ((strict → c.LoopsDeclareNothing) → c.IsSound strict)
  | .expression p, h => by
    simp only [Statement.check, Checked.bind_eq_ok, Checked.pure_eq_ok, Prod.mk.injEq] at h
    obtain ⟨e, hp, rfl, rfl⟩ := h
    exact ⟨by simpa [Command.vars, Command.lexicals] using .refl declared,
      fun _ => .expression (p.isSound_of_checkWhole hp)⟩
  | .declaration kind ds, h => by
    simp only [Statement.check, Checked.bind_eq_ok, Checked.pure_eq_ok, Prod.mk.injEq,
      Prod.exists] at h
    obtain ⟨_, _, hds, rfl, rfl⟩ := h
    obtain ⟨hnames, hsound⟩ := Declarator.declares_of_check hds
    rw [Command.vars_declaration, Command.lexicals_declaration]
    exact ⟨hnames, fun _ => .declaration hsound⟩
  | .function start name namePlace parameters isAsync body, h => by
    simp only [Statement.check, Checked.bind_eq_ok, Checked.pure_eq_ok, Prod.mk.injEq,
      Prod.exists] at h
    obtain ⟨between, hadd, _, inside, hbody, rfl, rfl⟩ := h
    obtain ⟨hnames, hsound⟩ := Statement.declares_of_checkAll body hbody
    refine ⟨by simpa [Command.vars, Command.lexicals, BindingKind.split]
      using Declared.declares_of_add hadd, fun hloops => .function ?_ (hsound ?_)⟩
    · refine ⟨hnames.nodup, fun lexical hlexical hvariable => ?_⟩
      -- the body is checked with the parameters declared before it
      rcases List.mem_append.1 hvariable with hparameter | hvariable
      · have hnone := (hnames.of_lexical lexical hlexical).1
        rw [declares_parameters parameters lexical hparameter] at hnone
        cases hnone
      · exact hnames.declaresOnce.apart lexical hlexical hvariable
    · simpa [Command.LoopsDeclareNothing] using hloops
  | .returning start value, h => by
    simp only [Statement.check] at h
    split at h
    · simp only [Checked.bind_eq_ok, Checked.pure_eq_ok, Prod.mk.injEq] at h
      obtain ⟨_, hvalue, rfl, rfl⟩ := h
      exact ⟨by simpa [Command.vars, Command.lexicals] using .refl declared,
        fun _ => .returning (Phrase.isSound_of_checkOptional hvalue)⟩
    · cases h
  | .branch test yes no, h => by
    simp only [Statement.check, Checked.bind_eq_ok, Prod.exists] at h
    obtain ⟨_, htest, yes', between, hyes, h⟩ := h
    obtain ⟨hyesNames, hyesSound⟩ := Statement.declares_of_check yes hyes
    have htestSound := test.isSound_of_checkWhole htest
    cases no with
    | none =>
      simp only [Checked.pure_eq_ok, Prod.mk.injEq] at h
      obtain ⟨rfl, rfl⟩ := h
      refine ⟨by simpa [Command.vars, Command.lexicals, Command.varsOf, Command.lexicalsOf]
        using hyesNames, fun hloops => .branch htestSound (hyesSound fun hstrict => ?_) (by simp)⟩
      have hboth := hloops hstrict
      rw [Command.LoopsDeclareNothing] at hboth
      exact hboth.1
    | some no =>
      simp only [Checked.bind_eq_ok, Checked.pure_eq_ok, Prod.mk.injEq, Prod.exists] at h
      obtain ⟨no', _, hno, rfl, rfl⟩ := h
      obtain ⟨hnoNames, hnoSound⟩ := Statement.declares_of_check no hno
      refine ⟨by simpa [Command.vars, Command.lexicals, Command.varsOf, Command.lexicalsOf]
        using hyesNames.trans hnoNames, fun hloops => ?_⟩
      simp only [Command.LoopsDeclareNothing, Command.LoopsDeclareNothingOf] at hloops
      have hnoSound' := hnoSound fun hstrict => (hloops hstrict).2
      exact .branch htestSound (hyesSound fun hstrict => (hloops hstrict).1) (by simpa using hnoSound')
  | .whileLoop test body, h => by
    simp only [Statement.check, Checked.bind_eq_ok, Checked.pure_eq_ok, Prod.mk.injEq,
      Prod.exists] at h
    obtain ⟨_, htest, _, _, hbody, rfl, rfl⟩ := h
    obtain ⟨hnames, hsound⟩ := Statement.declares_of_check body hbody
    refine ⟨by simpa only [Command.vars, Command.lexicals] using hnames, fun hloops => ?_⟩
    simp only [Command.LoopsDeclareNothing] at hloops
    exact .whileLoop (test.isSound_of_checkWhole htest) (hsound fun hstrict => (hloops hstrict).2)
      fun hstrict => (hloops hstrict).1
  | .forLoop start init test update body, h => by
    simp only [Statement.check, Checked.bind_eq_ok, Checked.pure_eq_ok, Prod.mk.injEq,
      Prod.exists] at h
    obtain ⟨_, _, hinit, _, htest, _, hupdate, _, _, hbody, rfl, rfl⟩ := h
    obtain ⟨hinitNames, hinitSound⟩ := LoopStart.declares_of_check hinit
    obtain ⟨hnames, hsound⟩ := Statement.declares_of_check body hbody
    -- the loop has a block of its own, so nothing is declared around it
    refine ⟨by simpa [Command.vars, Command.lexicals] using .refl declared, fun hloops => ?_⟩
    simp only [Command.LoopsDeclareNothing] at hloops
    exact .forLoop hinitSound (Phrase.isSound_of_checkOptional htest)
      (Phrase.isSound_of_checkOptional hupdate) (hsound fun hstrict => (hloops hstrict).2)
      (fun hstrict => (hloops hstrict).1) (hinitNames.trans hnames).declaresOnce
  | .block body, h => by
    simp only [Statement.check, Checked.bind_eq_ok, Checked.pure_eq_ok, Prod.mk.injEq,
      Prod.exists] at h
    obtain ⟨_, _, hbody, rfl, rfl⟩ := h
    obtain ⟨hnames, hsound⟩ := Statement.declares_of_checkAll body hbody
    refine ⟨by simpa [Command.vars, Command.lexicals] using .refl declared, fun hloops => ?_⟩
    simp only [Command.LoopsDeclareNothing] at hloops
    exact .block hnames.declaresOnce (hsound hloops)
  | .breaking start, h => by
    simp only [Statement.check] at h
    split at h
    · simp only [Except.ok.injEq, Prod.mk.injEq] at h
      obtain ⟨rfl, rfl⟩ := h
      exact ⟨by simpa [Command.vars, Command.lexicals] using .refl declared, fun _ => .breaking⟩
    · cases h
  | .continuing start, h => by
    simp only [Statement.check] at h
    split at h
    · simp only [Except.ok.injEq, Prod.mk.injEq] at h
      obtain ⟨rfl, rfl⟩ := h
      exact ⟨by simpa [Command.vars, Command.lexicals] using .refl declared, fun _ => .continuing⟩
    · cases h
  | .empty, h => by
    simp only [Statement.check, Except.ok.injEq, Prod.mk.injEq] at h
    obtain ⟨rfl, rfl⟩ := h
    exact ⟨by simpa [Command.vars, Command.lexicals] using .refl declared, fun _ => .empty⟩

/-- The same for the statements of a block. -/
theorem Statement.declares_of_checkAll {around : Surroundings} {declared declared' : Declared}
    {cs : List Command} : ∀ ss : List Sentence,
      Statement.checkAll around declared ss = .ok (cs, declared') →
        Declares declared declared' (varsAll cs) (lexicalsAll cs) ∧
          ((strict → Command.LoopsDeclareNothingAll cs) → ∀ c ∈ cs, c.IsSound strict)
  | [], h => by
    simp only [Statement.checkAll, Except.ok.injEq, Prod.mk.injEq] at h
    obtain ⟨rfl, rfl⟩ := h
    exact ⟨.refl declared, fun _ => by simp⟩
  | s :: ss, h => by
    simp only [Statement.checkAll, Checked.bind_eq_ok, Checked.pure_eq_ok, Prod.mk.injEq,
      Prod.exists] at h
    -- `between` is declared where the other sentences begin
    obtain ⟨c, between, hs, cs, _, hss, rfl, rfl⟩ := h
    obtain ⟨hnames, hsound⟩ := Statement.declares_of_check s hs
    obtain ⟨hnamesAll, hsoundAll⟩ := Statement.declares_of_checkAll ss hss
    refine ⟨hnames.trans hnamesAll, fun hloops => ?_⟩
    simp only [Command.LoopsDeclareNothingAll] at hloops
    exact List.forall_mem_cons.2 ⟨hsound fun hstrict => (hloops hstrict).1,
      hsoundAll fun hstrict => (hloops hstrict).2⟩

end

end

/-- What is not read is refused where the reader got to. -/
theorem Program.parse_of_read_error {t : Text} {reach : Nat} (h : read t = .error reach) :
    Program.parse t
      = .error ⟨Position.scan t reach, .unexpected (Unexpected.ofText (t.drop reach))⟩ := by
  unfold Program.parse
  rw [h]

/-- What has been read is checked outside of loops and functions, before anything is declared. -/
theorem Program.parse_of_read {t : Text} {ss : List Sentence} (h : read t = .ok ss) :
    Program.parse t
      = (Statement.checkAll ⟨LineIndex.ofText t, false, false⟩ [] ss).map Prod.fst := by
  unfold Program.parse
  rw [h]

/-- A program has been read and checked. -/
theorem Program.exists_of_parse {t : Text} {program : Program} (h : Program.parse t = .ok program) :
    ∃ ss declared, read t = .ok ss ∧
      Statement.checkAll ⟨LineIndex.ofText t, false, false⟩ [] ss = .ok (program, declared) := by
  unfold Program.parse at h
  split at h
  · cases h
  · rename_i ss hread
    cases hcheck : Statement.checkAll ⟨LineIndex.ofText t, false, false⟩ [] ss with
    | error fault => simp [hcheck, Except.map] at h
    | ok checked =>
      obtain ⟨cs, declared⟩ := checked
      obtain rfl : cs = program := by simpa [hcheck, Except.map] using h
      exact ⟨ss, declared, hread, hcheck⟩

/-- Programs are sound, and their outermost block declares its names once as well. -/
theorem Program.isSound_of_parse (strict : Prop) {t : Text} {program : Program} (h : Program.parse t = .ok program) :
    DeclaresOnce (varsAll program) (lexicalsAll program) ∧
      ((strict → Command.LoopsDeclareNothingAll program) → ∀ c ∈ program, c.IsSound strict) := by
  obtain ⟨ss, declared, -, hcheck⟩ := Program.exists_of_parse h
  obtain ⟨hnames, hsound⟩ := Statement.declares_of_checkAll ss hcheck
  exact ⟨hnames.declaresOnce, hsound⟩

end Pseudocode.Script
