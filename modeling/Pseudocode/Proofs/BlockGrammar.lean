import Pseudocode.Source.Validation

/-!
# The grammar of structured programs

A program is a header, a body and a footer. `IsBody` generates the bodies: simple statements,
loops, functions and branches, each block closed by its own ending. A derivation carries the
blocks around a statement, so it also says where `return`, `break`, `continue` and the variables
of counting loops may stand.

`advance?` is the same language as a machine that keeps a stack of open blocks and reads one
statement after the other. The two main results are

* `IsPart.run`       a generated text leaves the stack as it was
* `completes_of_run` a text that empties the stack is what the grammar asks for
-/

namespace Pseudocode.Validation

/-! ## Places -/

/-- A block around a statement. -/
inductive Enclosing where
  | forLoop (name : Text)
  | whileLoop
  | branch
  | function
  deriving DecidableEq, Repr

namespace Enclosing

/-- The kind of the block. -/
def kind : Enclosing → BlockKind
  | forLoop _ => .forLoop
  | whileLoop => .whileLoop
  | branch => .branch
  | function => .function

@[simp] theorem kind_forLoop (name : Text) : (forLoop name).kind = .forLoop := rfl
@[simp] theorem kind_whileLoop : whileLoop.kind = .whileLoop := rfl
@[simp] theorem kind_branch : branch.kind = .branch := rfl
@[simp] theorem kind_function : function.kind = .function := rfl

/-- The variable of a counting loop. -/
def loopVariable : Enclosing → Option Text
  | forLoop name => some name
  | _ => none

end Enclosing

/-- Some block is a function. -/
def InFunction (around : List Enclosing) : Prop := ∃ e ∈ around, e.kind = .function

/-- Some block is a loop, and no function stands between it and the statement. Blocks are listed
    from the inside. -/
def InLoop (around : List Enclosing) : Prop :=
  ∃ inner e outer, around = inner ++ e :: outer ∧ e.kind.isLoop ∧ ∀ i ∈ inner, i.kind ≠ .function

/-- The variable of a counting loop is not the one of a loop around it. -/
def IsFresh (name : Text) (around : List Enclosing) : Prop :=
  ∀ e ∈ around, e.loopVariable ≠ some name

/-- A simple statement that may stand inside the blocks. A constant needs a value, and a line that
    was not understood stands nowhere. -/
def MayStand (around : List Enclosing) : Statement → Prop
  | .returning _ => InFunction around
  | .breaking | .continuing => InLoop around
  | .declaration kind _ _ init => kind.isMutable ∨ init.isSome
  | .blank | .comment _ | .set _ _ | .declare _ _ | .print _ | .input _ _ | .assignment _ _ _
  | .call _ => True
  | .header _ | .footer | .forLoop _ _ _ _ | .whileLoop _ | .branch _ | .elseIf _ | .otherwise
  | .function _ _ | .ending _ | .malformed _ _ | .raw _ => False

theorem not_inLoop_nil : ¬ InLoop [] := by
  rintro ⟨inner, e, outer, h, -⟩
  simp at h

/-- The nearest loop or function around the statement decides. -/
theorem inLoop_cons {e : Enclosing} {outer : List Enclosing} :
    InLoop (e :: outer) ↔ e.kind.isLoop ∨ e.kind ≠ .function ∧ InLoop outer := by
  -- this is the loop, or a loop lies further out with no function in between
  constructor
  · rintro ⟨inner, loop, rest, h, hloop, hinner⟩
    cases inner with
    | nil =>
      obtain ⟨rfl, -⟩ := List.cons.inj h
      exact .inl hloop
    | cons i inner =>
      obtain ⟨rfl, rfl⟩ := List.cons.inj h
      exact .inr ⟨hinner e (by simp), inner, loop, rest, rfl, hloop,
        fun j hj => hinner j (List.mem_cons_of_mem _ hj)⟩
  · rintro (hloop | ⟨he, inner, loop, rest, rfl, hloop, hinner⟩)
    · exact ⟨[], e, outer, rfl, hloop, by simp⟩
    · refine ⟨e :: inner, loop, rest, rfl, hloop, ?_⟩
      intro i hi
      rcases List.mem_cons.1 hi with rfl | hi
      · exact he
      · exact hinner i hi

theorem not_inLoop_function (outer : List Enclosing) : ¬ InLoop (.function :: outer) := by
  simp [inLoop_cons, BlockKind.isLoop]

theorem inLoop_branch {outer : List Enclosing} (h : InLoop (.branch :: outer)) : InLoop outer := by
  simpa [inLoop_cons, BlockKind.isLoop] using h

instance (around : List Enclosing) : Decidable (InFunction around) :=
  inferInstanceAs (Decidable (∃ e ∈ around, e.kind = .function))

instance (name : Text) (around : List Enclosing) : Decidable (IsFresh name around) :=
  inferInstanceAs (Decidable (∀ e ∈ around, e.loopVariable ≠ some name))

/-- Whether a loop is around a statement, from the inside out. -/
def decideInLoop : (around : List Enclosing) → Decidable (InLoop around)
  | [] => .isFalse not_inLoop_nil
  | e :: outer =>
    have := decideInLoop outer
    decidable_of_iff (e.kind.isLoop ∨ e.kind ≠ .function ∧ InLoop outer) inLoop_cons.symm

instance (around : List Enclosing) : Decidable (InLoop around) := decideInLoop around

instance (around : List Enclosing) (s : Statement) : Decidable (MayStand around s) :=
  match s with
  | .returning _ => inferInstanceAs (Decidable (InFunction around))
  | .breaking | .continuing => inferInstanceAs (Decidable (InLoop around))
  | .declaration kind _ _ init => inferInstanceAs (Decidable (kind.isMutable ∨ init.isSome))
  | .blank | .comment _ | .set _ _ | .declare _ _ | .print _ | .input _ _ | .assignment _ _ _
  | .call _ => inferInstanceAs (Decidable True)
  | .header _ | .footer | .forLoop _ _ _ _ | .whileLoop _ | .branch _ | .elseIf _ | .otherwise
  | .function _ _ | .ending _ | .malformed _ _ | .raw _ => inferInstanceAs (Decidable False)

/-! ## The grammar -/

/-- The parts of a program that the grammar generates. -/
inductive Part where
  /-- Statements and whole blocks. -/
  | body
  /-- What follows the first body of a branch: any number of `elseif` bodies, at most one `else`
      body, and the ending. -/
  | alternatives
  deriving DecidableEq, Repr

/-- `IsPart around part S`: inside the blocks `around`, the grammar generates `S` as a `part`. -/
inductive IsPart : List Enclosing → Part → List Statement → Prop where
  | nil {around : List Enclosing} : IsPart around .body []
  | simple {around : List Enclosing} {s : Statement} {rest : List Statement}
      (placed : MayStand around s) (others : IsPart around .body rest) :
      IsPart around .body (s :: rest)
  | whileLoop {around : List Enclosing} {condition : Text} {inside rest : List Statement}
      (body : IsPart (.whileLoop :: around) .body inside)
      (others : IsPart around .body rest) :
      IsPart around .body (.whileLoop condition :: (inside ++ .ending .whileLoop :: rest))
  | forLoop {around : List Enclosing} {name start stop : Text} {step : Option Text}
      {inside rest : List Statement} (fresh : IsFresh name around)
      (body : IsPart (.forLoop name :: around) .body inside)
      (others : IsPart around .body rest) :
      IsPart around .body (.forLoop name start stop step :: (inside ++ .ending .forLoop :: rest))
  | function {around : List Enclosing} {name : Text} {parameters : List Text}
      {inside rest : List Statement}
      (body : IsPart (.function :: around) .body inside)
      (others : IsPart around .body rest) :
      IsPart around .body (.function name parameters :: (inside ++ .ending .function :: rest))
  | branch {around : List Enclosing} {condition : Text} {inside tail rest : List Statement}
      (body : IsPart (.branch :: around) .body inside)
      (alternatives : IsPart around .alternatives tail)
      (others : IsPart around .body rest) :
      IsPart around .body (.branch condition :: (inside ++ (tail ++ rest)))
  | ending {around : List Enclosing} : IsPart around .alternatives [.ending .branch]
  | otherwise {around : List Enclosing} {inside : List Statement}
      (body : IsPart (.branch :: around) .body inside) :
      IsPart around .alternatives (.otherwise :: (inside ++ [.ending .branch]))
  | elseIf {around : List Enclosing} {condition : Text} {inside tail : List Statement}
      (body : IsPart (.branch :: around) .body inside)
      (alternatives : IsPart around .alternatives tail) :
      IsPart around .alternatives (.elseIf condition :: (inside ++ tail))

/-- The grammar generates `S` as a body inside the blocks `around`. -/
abbrev IsBody (around : List Enclosing) (S : List Statement) : Prop := IsPart around .body S

/-- A header, a body outside of any block, and a footer. -/
def IsProgram (S : List Statement) : Prop :=
  ∃ name body, S = .header name :: (body ++ [.footer]) ∧ IsBody [] body

/-! ## The stack machine -/

/-- A block that is open. -/
structure OpenBlock where
  block : Enclosing
  /-- Whether an `else` has been seen in an `if` block. -/
  hasElse : Bool
  deriving DecidableEq, Repr

/-- The blocks of a stack. -/
abbrev enclosing (stack : List OpenBlock) : List Enclosing := stack.map OpenBlock.block

/-- The open blocks after a statement, unless it may not stand there. -/
def advance? (stack : List OpenBlock) (s : Statement) : Option (List OpenBlock) :=
  match s, stack with
  | .forLoop name _ _ _, _ =>
    if IsFresh name (enclosing stack) then some (⟨.forLoop name, false⟩ :: stack) else none
  | .whileLoop _, _ => some (⟨.whileLoop, false⟩ :: stack)
  | .branch _, _ => some (⟨.branch, false⟩ :: stack)
  | .function _ _, _ => some (⟨.function, false⟩ :: stack)
  | .elseIf _, top :: _ => if top.block = .branch ∧ top.hasElse = false then some stack else none
  | .otherwise, top :: below =>
    if top.block = .branch ∧ top.hasElse = false then some ({ top with hasElse := true } :: below)
    else none
  | .ending kind, top :: below => if top.block.kind = kind then some below else none
  | s, _ => if MayStand (enclosing stack) s then some stack else none

/-- The open blocks after some statements. -/
abbrev run? (stack : List OpenBlock) (S : List Statement) : Option (List OpenBlock) :=
  S.foldlM advance? stack

theorem advance?_simple {stack : List OpenBlock} {s : Statement}
    (placed : MayStand (enclosing stack) s) : advance? stack s = some stack := by
  cases s <;> simp_all [advance?, MayStand]

/-! ## From the grammar to the machine -/

/-- What a part does to a stack: a body leaves it as it is, and the alternatives close the branch
    on top. -/
def Part.RunsOn (part : Part) (stack : List OpenBlock) (S : List Statement) : Prop :=
  match part with
  | .body => run? stack S = some stack
  | .alternatives => run? (⟨.branch, false⟩ :: stack) S = some stack

/-- The machine follows the grammar, whatever is open around the part. -/
theorem IsPart.run {around : List Enclosing} {part : Part} {S : List Statement}
    (h : IsPart around part S) :
    ∀ stack, enclosing stack = around → part.RunsOn stack S := by
  -- each case closes the block that it opens, so what follows starts from the same stack
  induction h with
  | nil => intro stack _; rfl
  | simple placed _ ih =>
    rintro stack rfl
    simpa [Part.RunsOn, advance?_simple placed] using ih stack rfl
  | whileLoop _ _ ihBody ihRest =>
    rintro stack rfl
    have hbody := ihBody (⟨.whileLoop, false⟩ :: stack) rfl
    have hrest := ihRest stack rfl
    simp_all [Part.RunsOn, advance?]
  | forLoop fresh _ _ ihBody ihRest =>
    rintro stack rfl
    rename_i name _ _ _ _ _ _ _
    have hbody := ihBody (⟨.forLoop name, false⟩ :: stack) rfl
    have hrest := ihRest stack rfl
    simp_all [Part.RunsOn, advance?]
  | function _ _ ihBody ihRest =>
    rintro stack rfl
    have hbody := ihBody (⟨.function, false⟩ :: stack) rfl
    have hrest := ihRest stack rfl
    simp_all [Part.RunsOn, advance?]
  | branch _ _ _ ihBody ihAlternatives ihRest =>
    rintro stack rfl
    have hbody := ihBody (⟨.branch, false⟩ :: stack) rfl
    have halternatives := ihAlternatives stack rfl
    have hrest := ihRest stack rfl
    simp_all [Part.RunsOn, advance?]
  | ending => intro stack _; rfl
  | otherwise _ ihBody =>
    rintro stack rfl
    have hbody := ihBody (⟨.branch, true⟩ :: stack) rfl
    simp_all [Part.RunsOn, advance?]
  | elseIf _ _ ihBody ihAlternatives =>
    rintro stack rfl
    have hbody := ihBody (⟨.branch, false⟩ :: stack) rfl
    have halternatives := ihAlternatives stack rfl
    simp_all [Part.RunsOn, advance?]

/-! ## From the machine to the grammar -/

/-- What closes an open block: its ending, or for a branch without an `else` also its alternatives. -/
def Closes (around : List Enclosing) (top : OpenBlock) (S : List Statement) : Prop :=
  S = [.ending top.block.kind] ∨
    top.block = .branch ∧ top.hasElse = false ∧ IsPart around .alternatives S

/-- What brings a stack to its end: a body inside the innermost block, what closes that block, and
    so on outwards. -/
def Completes : List OpenBlock → List Statement → Prop
  | [], S => IsBody [] S
  | top :: below, S =>
    ∃ inside tail rest, S = inside ++ (tail ++ rest) ∧
      IsBody (top.block :: enclosing below) inside ∧ Closes (enclosing below) top tail ∧
      Completes below rest

/-- Anything that extends every body by something in front extends what completes a stack. -/
theorem Completes.extend {stack : List OpenBlock} {S : List Statement}
    (h : Completes stack S) (first : List Statement)
    (body : ∀ rest, IsBody (enclosing stack) rest → IsBody (enclosing stack) (first ++ rest)) :
    Completes stack (first ++ S) := by
  cases stack with
  | nil => exact body S h
  | cons top below =>
    obtain ⟨inside, tail, rest, rfl, hinside, htail, hrest⟩ := h
    exact ⟨first ++ inside, tail, rest, by simp, body inside hinside, htail, hrest⟩

/-- A branch without an `else` is closed by alternatives, be it by none but the ending. -/
theorem Closes.alternatives {around : List Enclosing} {S : List Statement}
    (h : Closes around ⟨.branch, false⟩ S) : IsPart around .alternatives S := by
  rcases h with rfl | ⟨-, -, h⟩
  · exact .ending
  · exact h

/-- A loop or a function is closed by its ending only. -/
theorem Closes.eq_ending {around : List Enclosing} {top : OpenBlock} {S : List Statement}
    (h : Closes around top S) (hblock : top.block ≠ .branch) : S = [.ending top.block.kind] := by
  rcases h with rfl | ⟨hbranch, -, -⟩
  · rfl
  · exact absurd hbranch hblock

/-- What completes the stack with a block more on it also completes the stack without that block,
    once the opening statement stands in front. -/
private theorem completes_opening {stack : List OpenBlock} {top : OpenBlock} {s : Statement}
    {S : List Statement} (h : Completes (top :: stack) S)
    (block : ∀ inside tail rest, IsBody (top.block :: enclosing stack) inside →
      Closes (enclosing stack) top tail → IsBody (enclosing stack) rest →
      IsBody (enclosing stack) (s :: (inside ++ (tail ++ rest)))) :
    Completes stack (s :: S) := by
  obtain ⟨inside, tail, rest, rfl, hinside, htail, hrest⟩ := h
  have := hrest.extend (s :: (inside ++ tail))
    fun others hothers => by simpa using block inside tail others hinside htail hothers
  simpa using this

/-- A step of the machine takes what completes the new stack back to the old one. -/
theorem completes_of_advance {stack stack' : List OpenBlock} {s : Statement} {S : List Statement}
    (h : advance? stack s = some stack') (hS : Completes stack' S) : Completes stack (s :: S) := by
  -- a statement that leaves the stack alone extends the innermost body
  have simple (placed : MayStand (enclosing stack) s) (same : stack = stack') :
      Completes stack (s :: S) := by
    subst same
    exact hS.extend [s] fun rest hrest => .simple placed hrest
  cases s with
  | whileLoop condition =>
    obtain rfl := Option.some.inj h
    refine completes_opening hS fun inside tail rest hinside htail hrest => ?_
    rw [htail.eq_ending (by decide)]
    exact .whileLoop hinside hrest
  | function name parameters =>
    obtain rfl := Option.some.inj h
    refine completes_opening hS fun inside tail rest hinside htail hrest => ?_
    rw [htail.eq_ending (by decide)]
    exact .function hinside hrest
  | forLoop name start stop step =>
    simp only [advance?, Option.ite_none_right_eq_some, Option.some.injEq] at h
    obtain ⟨fresh, rfl⟩ := h
    refine completes_opening hS fun inside tail rest hinside htail hrest => ?_
    rw [htail.eq_ending (by simp)]
    exact .forLoop fresh hinside hrest
  | branch condition =>
    obtain rfl := Option.some.inj h
    exact completes_opening hS fun inside tail rest hinside htail hrest =>
      .branch hinside htail.alternatives hrest
  | elseIf condition =>
    match stack with
    | [] => simp [advance?, MayStand] at h
    | ⟨block, hasElse⟩ :: below =>
      simp only [advance?, Option.ite_none_right_eq_some, Option.some.injEq] at h
      obtain ⟨⟨rfl, rfl⟩, rfl⟩ := h
      obtain ⟨inside, tail, rest, rfl, hinside, htail, hrest⟩ := hS
      exact ⟨[], .elseIf condition :: (inside ++ tail), rest, by simp, .nil,
        .inr ⟨rfl, rfl, .elseIf hinside htail.alternatives⟩, hrest⟩
  | otherwise =>
    match stack with
    | [] => simp [advance?, MayStand] at h
    | ⟨block, hasElse⟩ :: below =>
      simp only [advance?, Option.ite_none_right_eq_some, Option.some.injEq] at h
      obtain ⟨⟨rfl, rfl⟩, rfl⟩ := h
      obtain ⟨inside, tail, rest, rfl, hinside, htail, hrest⟩ := hS
      -- the `else` has been seen, so only the ending is left
      obtain rfl : tail = [.ending .branch] := by
        rcases htail with rfl | ⟨-, helse, -⟩
        · rfl
        · cases helse
      exact ⟨[], .otherwise :: (inside ++ [.ending .branch]), rest, by simp, .nil,
        .inr ⟨rfl, rfl, .otherwise hinside⟩, hrest⟩
  | ending kind =>
    cases stack with
    | nil => simp [advance?, MayStand] at h
    | cons top below =>
      simp only [advance?, Option.ite_none_right_eq_some, Option.some.injEq] at h
      obtain ⟨rfl, rfl⟩ := h
      exact ⟨[], [.ending top.block.kind], S, rfl, .nil, .inl rfl, hS⟩
  | _ =>
    simp only [advance?, Option.ite_none_right_eq_some, Option.some.injEq] at h
    exact simple h.1 h.2

/-- A text that takes the machine from some open blocks to none completes those blocks. -/
theorem completes_of_run {stack : List OpenBlock} {S : List Statement}
    (h : run? stack S = some []) : Completes stack S := by
  induction S generalizing stack with
  | nil =>
    obtain rfl : stack = [] := Option.some.inj h
    exact .nil
  | cons s S ih =>
    simp only [run?, List.foldlM_cons, Option.bind_eq_bind, Option.bind_eq_some_iff] at h
    obtain ⟨stack', hs, hS⟩ := h
    exact completes_of_advance hs (ih hS)

/-- The grammar and the machine agree on the bodies of programs. -/
theorem isBody_iff_run {S : List Statement} : IsBody [] S ↔ run? [] S = some [] :=
  ⟨fun h => h.run [] rfl, completes_of_run⟩

end Pseudocode.Validation
