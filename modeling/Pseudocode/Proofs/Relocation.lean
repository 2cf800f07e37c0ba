import Pseudocode.Proofs.Positions

/-!
# Scripts whose places are moved

Phrases and sentences stand at offsets, and the expressions and commands that they become at
positions. Checking looks at places only to say where something stands: if the offsets of a script
are moved, the check ends in the same way, and all its positions are moved accordingly.

The line of an offset is such a move, into a text that has nothing but line feeds. So the lines of
the places in a script decide about the program that it becomes, up to columns.

* `Phrase.mapPlaces`, `Expression.mapPositions`, `Statement.map`   what is moved
* `Follows`                          one check ends like another one, moved
* `Moves.checkSentences`             the check of sentences that are moved
* `LineIndex.moves_lineOf`           offsets are moved to their lines
* `Program.agree_parse_of_read`      texts whose sentences are the same up to columns
-/

namespace Pseudocode.Script

/-! ## Moving places -/

mutual

/-- The phrase with its offsets moved. -/
def Phrase.mapPlaces (f : Nat → Nat) : Phrase → Phrase
  | .number start value => .number (f start) value
  | .string start value => .string (f start) value
  | .bool start value => .bool (f start) value
  | .null start => .null (f start)
  | .undefined start => .undefined (f start)
  | .array start items => .array (f start) (mapPlacesAll f items)
  | .identifier start name => .identifier (f start) name
  | .construct start name operands => .construct (f start) name (mapPlacesAll f operands)
  | .group start inner => .group (f start) (mapPlaces f inner)
  | .call callee start operands => .call (mapPlaces f callee) (f start) (mapPlacesAll f operands)
  | .index object start key => .index (mapPlaces f object) (f start) (mapPlaces f key)
  | .member object start namePlace name =>
    .member (mapPlaces f object) (f start) (f namePlace) name
  | .unary start operator operand => .unary (f start) operator (mapPlaces f operand)
  | .binary left start operator right =>
    .binary (mapPlaces f left) (f start) operator (mapPlaces f right)
  | .conditional test yes no =>
    .conditional (mapPlaces f test) (mapPlaces f yes) (mapPlaces f no)
  | .assign target operator value => .assign (mapPlaces f target) operator (mapPlaces f value)

/-- The phrases with their offsets moved. -/
def Phrase.mapPlacesAll (f : Nat → Nat) : List Phrase → List Phrase
  | [] => []
  | p :: ps => mapPlaces f p :: mapPlacesAll f ps

end

mutual

/-- The expression with its positions moved. -/
def Expression.mapPositions (g : Position → Position) : Expression → Expression
  | .number place value => .number (g place) value
  | .string place value => .string (g place) value
  | .bool place value => .bool (g place) value
  | .null place => .null (g place)
  | .undefined place => .undefined (g place)
  | .array place items => .array (g place) (mapPositionsAll g items)
  | .identifier place name => .identifier (g place) name
  | .unary place operator operand => .unary (g place) operator (mapPositions g operand)
  | .binary place operator left right =>
    .binary (g place) operator (mapPositions g left) (mapPositions g right)
  | .conditional place test yes no =>
    .conditional (g place) (mapPositions g test) (mapPositions g yes) (mapPositions g no)
  | .assign place operator target value =>
    .assign (g place) operator (mapPositions g target) (mapPositions g value)
  | .call place callee operands =>
    .call (g place) (mapPositions g callee) (mapPositionsAll g operands)
  | .index place object key => .index (g place) (mapPositions g object) (mapPositions g key)
  | .member place object name => .member (g place) (mapPositions g object) name
  | .construct place name operands => .construct (g place) name (mapPositionsAll g operands)

/-- The expressions with their positions moved. -/
def Expression.mapPositionsAll (g : Position → Position) : List Expression → List Expression
  | [] => []
  | e :: es => mapPositions g e :: mapPositionsAll g es

end

section

variable {ε ε' π π' : Type}

/-- The declarator with its expression and its place replaced. -/
def Declarator.map (onExpr : ε → ε') (onPlace : π → π') (d : Declarator ε π) : Declarator ε' π' :=
  ⟨onPlace d.place, d.name, d.value.map onExpr⟩

/-- The start of a counting loop with its expressions and places replaced. -/
def LoopStart.map (onExpr : ε → ε') (onPlace : π → π') : LoopStart ε π → LoopStart ε' π'
  | .declaration kind declarators =>
    .declaration kind (declarators.map (Declarator.map onExpr onPlace))
  | .expression e => .expression (onExpr e)

mutual

/-- The statement with its expressions and places replaced. -/
def Statement.map (onExpr : ε → ε') (onPlace : π → π') : Statement ε π → Statement ε' π'
  | .expression e => .expression (onExpr e)
  | .declaration kind declarators =>
    .declaration kind (declarators.map (Declarator.map onExpr onPlace))
  | .function place name namePlace parameters isAsync body =>
    .function (onPlace place) name (onPlace namePlace) parameters isAsync
      (Statement.mapAll onExpr onPlace body)
  | .returning place value => .returning (onPlace place) (value.map onExpr)
  | .branch test yes no =>
    .branch (onExpr test) (Statement.map onExpr onPlace yes) (match no with
      | some no => some (Statement.map onExpr onPlace no)
      | none => none)
  | .whileLoop test body => .whileLoop (onExpr test) (Statement.map onExpr onPlace body)
  | .forLoop place start test update body =>
    .forLoop (onPlace place) (start.map (LoopStart.map onExpr onPlace)) (test.map onExpr)
      (update.map onExpr) (Statement.map onExpr onPlace body)
  | .block body => .block (Statement.mapAll onExpr onPlace body)
  | .breaking place => .breaking (onPlace place)
  | .continuing place => .continuing (onPlace place)
  | .empty => .empty

/-- The statements with their expressions and places replaced. -/
def Statement.mapAll (onExpr : ε → ε') (onPlace : π → π') :
    List (Statement ε π) → List (Statement ε' π')
  | [] => []
  | s :: ss => Statement.map onExpr onPlace s :: Statement.mapAll onExpr onPlace ss

end

theorem Statement.mapAll_eq_map (onExpr : ε → ε') (onPlace : π → π') (ss : List (Statement ε π)) :
    Statement.mapAll onExpr onPlace ss = ss.map (Statement.map onExpr onPlace) := by
  induction ss with
  | nil => rfl
  | cons s ss ih => rw [Statement.mapAll, ih, List.map_cons]

end

/-- The sentence with its offsets moved. -/
abbrev Sentence.mapPlaces (f : Nat → Nat) : Sentence → Sentence :=
  Statement.map (Phrase.mapPlaces f) f

/-- The command with its positions moved. -/
abbrev Command.mapPositions (g : Position → Position) : Command → Command :=
  Statement.map (Expression.mapPositions g) g

namespace Phrase

variable (f : Nat → Nat)

theorem mapPlacesAll_eq_map (ps : List Phrase) : mapPlacesAll f ps = ps.map (mapPlaces f) := by
  induction ps with
  | nil => rfl
  | cons p ps ih => rw [mapPlacesAll, ih, List.map_cons]

@[simp] theorem start_mapPlaces : ∀ p : Phrase, (p.mapPlaces f).start = f p.start
  | .number _ _ | .string _ _ | .bool _ _ | .null _ | .undefined _ | .array _ _ | .identifier _ _
  | .construct _ _ _ | .group _ _ | .unary _ _ _ => rfl
  | .call p _ _ | .index p _ _ | .member p _ _ _ | .binary p _ _ _ | .conditional p _ _
  | .assign p _ _ => start_mapPlaces p

@[simp] theorem level_mapPlaces (p : Phrase) : (p.mapPlaces f).level = p.level := by
  cases p <;> rfl

@[simp] theorem linksAt_mapPlaces (level : Level) (p : Phrase) (links : Nat) :
    linksAt level (p.mapPlaces f) links = linksAt level p links := by
  rw [linksAt, linksAt, level_mapPlaces]

end Phrase

namespace Expression

variable (g : Position → Position)

@[simp] theorem position_mapPositions (e : Expression) :
    (e.mapPositions g).position = g e.position := by
  cases e <;> rfl

@[simp] theorem isTarget_mapPositions (e : Expression) :
    (e.mapPositions g).isTarget = e.isTarget := by
  cases e <;> rfl

end Expression

/-! ## Checks of what is moved -/

/-- The second check ends like the first one: with what `view` makes of the value, or with the same
    fault at the position that `g` moves it to. -/
def Follows {α β : Type} (g : Position → Position) (view : α → β) (r : Checked α) (r' : Checked β) :
    Prop :=
  r' = match r with
    | .ok a => .ok (view a)
    | .error fault => .error ⟨g fault.position, fault.cause⟩

section

variable {α β γ δ : Type} {g : Position → Position} {v : α → β} {w : γ → δ}

theorem follows_pure (a : α) : Follows g v (pure a) (pure (v a)) := rfl

theorem Follows.bind {r : Checked α} {r' : Checked β} {k : α → Checked γ} {k' : β → Checked δ}
    (h : Follows g v r r') (hk : ∀ a, Follows g w (k a) (k' (v a))) :
    Follows g w (r >>= k) (r' >>= k') := by
  cases r with
  | ok a => exact h.symm ▸ hk a
  | error fault =>
    cases h
    rfl

/-- Two checks that end like the same third one. -/
theorem Follows.eq_ok_or_eq_error {r s : Checked α} {q : Checked β} (hr : Follows g v r q)
    (hs : Follows g v s q) :
    (∃ a b, r = .ok a ∧ s = .ok b ∧ v a = v b) ∨
      ∃ fault fault', r = .error fault ∧ s = .error fault' := by
  cases r with
  | ok a =>
    cases s with
    | ok b => exact .inl ⟨a, b, rfl, rfl, Except.ok.inj (hr.symm.trans hs)⟩
    | error fault => cases hr.symm.trans hs
  | error fault =>
    cases s with
    | ok b => cases hr.symm.trans hs
    | error fault' => exact .inr ⟨fault, fault', rfl, rfl⟩

end

/-- The offsets that `f` moves have in one index the positions that `g` moves those of another index
    to. -/
def Moves (g : Position → Position) (f : Nat → Nat) (index index' : LineIndex) : Prop :=
  ∀ offset, index'.position (f offset) = g (index.position offset)

namespace Moves

variable {g : Position → Position} {f : Nat → Nat} {index index' : LineIndex}

section

variable (h : Moves g f index index')
include h

theorem faultAt {α β : Type} {view : α → β} (offset : Nat) (cause : Program.Cause) :
    Follows g view (faultAt index offset cause) (faultAt index' (f offset) cause) := by
  show _ = _
  rw [Script.faultAt, h offset]
  rfl

theorem deepen (offset depth levels : Nat) :
    Follows g id (deepen index offset depth levels) (deepen index' (f offset) depth levels) := by
  unfold Script.deepen
  split
  · exact h.faultAt offset _
  · exact follows_pure _

/-- A phrase of one token. -/
private theorem token {p : Phrase} {start : Nat} (make : Position → Expression)
    (hcheck : ∀ index entered depth, p.check index entered depth = (do
      let _ ← Script.deepen index start depth (Level.atom + 1 - entered)
      return (make (index.position start), 0)))
    (hcheck' : ∀ index entered depth, (p.mapPlaces f).check index entered depth = (do
      let _ ← Script.deepen index (f start) depth (Level.atom + 1 - entered)
      return (make (index.position (f start)), 0)))
    (hmake : ∀ place, (make place).mapPositions g = make (g place)) (entered : Level)
    (depth : Nat) :
    Follows g (Prod.map (Expression.mapPositions g) id) (p.check index entered depth)
      ((p.mapPlaces f).check index' entered depth) := by
  rw [hcheck, hcheck']
  refine (h.deepen start depth _).bind fun _ => ?_
  rw [h start, ← hmake]
  exact follows_pure (v := Prod.map (Expression.mapPositions g) id) (make (index.position start), 0)

end

mutual

/-- Moving a phrase moves what it becomes. -/
theorem check (h : Moves g f index index') (entered : Level) (depth : Nat) : ∀ p : Phrase,
    Follows g (Prod.map (Expression.mapPositions g) id) (p.check index entered depth)
      ((p.mapPlaces f).check index' entered depth)
  | .number start value =>
    h.token (.number · value) (fun _ _ _ => by rw [Phrase.check])
      (fun _ _ _ => by rw [Phrase.mapPlaces, Phrase.check]) (fun _ => rfl) entered depth
  | .string start value =>
    h.token (.string · value) (fun _ _ _ => by rw [Phrase.check])
      (fun _ _ _ => by rw [Phrase.mapPlaces, Phrase.check]) (fun _ => rfl) entered depth
  | .bool start value =>
    h.token (.bool · value) (fun _ _ _ => by rw [Phrase.check])
      (fun _ _ _ => by rw [Phrase.mapPlaces, Phrase.check]) (fun _ => rfl) entered depth
  | .null start =>
    h.token .null (fun _ _ _ => by rw [Phrase.check])
      (fun _ _ _ => by rw [Phrase.mapPlaces, Phrase.check]) (fun _ => rfl) entered depth
  | .undefined start =>
    h.token .undefined (fun _ _ _ => by rw [Phrase.check])
      (fun _ _ _ => by rw [Phrase.mapPlaces, Phrase.check]) (fun _ => rfl) entered depth
  | .identifier start name =>
    h.token (.identifier · name) (fun _ _ _ => by rw [Phrase.check])
      (fun _ _ _ => by rw [Phrase.mapPlaces, Phrase.check]) (fun _ => rfl) entered depth
  | .array start items => by
    rw [Phrase.mapPlaces, Phrase.check, Phrase.check]
    refine (h.deepen start depth _).bind fun depth => ?_
    refine (h.checkAllPhrases depth items).bind fun es => ?_
    rw [h start]
    exact follows_pure _
  | .construct start name operands => by
    rw [Phrase.mapPlaces, Phrase.check, Phrase.check]
    refine (h.deepen start depth _).bind fun depth => ?_
    refine (h.checkAllPhrases depth operands).bind fun es => ?_
    rw [h start]
    exact follows_pure _
  | .group start inner => by
    rw [Phrase.mapPlaces, Phrase.check, Phrase.check]
    refine (h.deepen start depth _).bind fun depth => ?_
    refine (h.check 0 depth inner).bind fun found => ?_
    exact follows_pure _
  | .call callee start operands => by
    rw [Phrase.mapPlaces, Phrase.check, Phrase.check, Phrase.start_mapPlaces]
    refine (h.deepen callee.start depth _).bind fun depth => ?_
    refine (h.check _ depth callee).bind fun found => ?_
    dsimp only [Prod.map, id]
    rw [Phrase.linksAt_mapPlaces]
    refine (h.deepen start depth _).bind fun _ => ?_
    refine (h.checkAllPhrases depth operands).bind fun es => ?_
    rw [Expression.position_mapPositions]
    exact follows_pure _
  | .index object start key => by
    rw [Phrase.mapPlaces, Phrase.check, Phrase.check, Phrase.start_mapPlaces]
    refine (h.deepen object.start depth _).bind fun depth => ?_
    refine (h.check _ depth object).bind fun found => ?_
    dsimp only [Prod.map, id]
    rw [Phrase.linksAt_mapPlaces]
    refine (h.deepen start depth _).bind fun _ => ?_
    refine (h.check 0 depth key).bind fun key => ?_
    rw [h start]
    exact follows_pure _
  | .member object start namePlace name => by
    rw [Phrase.mapPlaces, Phrase.check, Phrase.check, Phrase.start_mapPlaces]
    refine (h.deepen object.start depth _).bind fun depth => ?_
    refine (h.check _ depth object).bind fun found => ?_
    dsimp only [Prod.map, id]
    rw [Phrase.linksAt_mapPlaces]
    refine (h.deepen start depth _).bind fun _ => ?_
    rw [h namePlace]
    exact follows_pure _
  | .unary start operator operand => by
    rw [Phrase.mapPlaces, Phrase.check, Phrase.check]
    refine (h.deepen start depth _).bind fun inside => ?_
    refine (h.check _ inside operand).bind fun found => ?_
    dsimp only [Prod.map, id]
    rw [Phrase.linksAt_mapPlaces, h start]
    split
    · exact (h.deepen start inside _).bind fun _ => follows_pure _
    · exact follows_pure _
  | .binary left start operator right => by
    rw [Phrase.mapPlaces, Phrase.check, Phrase.check, Phrase.start_mapPlaces]
    refine (h.deepen left.start depth _).bind fun depth => ?_
    refine (h.check _ depth left).bind fun found => ?_
    dsimp only [Prod.map, id]
    rw [Phrase.linksAt_mapPlaces]
    refine (h.deepen start depth _).bind fun _ => ?_
    refine (h.check _ depth right).bind fun right => ?_
    rw [Expression.position_mapPositions]
    exact follows_pure _
  | .conditional test yes no => by
    rw [Phrase.mapPlaces, Phrase.check, Phrase.check, Phrase.start_mapPlaces]
    refine (h.deepen test.start depth _).bind fun depth => ?_
    refine (h.check _ depth test).bind fun test => ?_
    refine (h.check _ depth yes).bind fun yes => ?_
    refine (h.check _ depth no).bind fun no => ?_
    rw [h]
    exact follows_pure _
  | .assign target operator value => by
    rw [Phrase.mapPlaces, Phrase.check, Phrase.check, Phrase.start_mapPlaces]
    refine (h.deepen target.start depth _).bind fun depth => ?_
    refine (h.check _ depth target).bind fun found => ?_
    dsimp only [Prod.map, id]
    rw [Expression.isTarget_mapPositions]
    split
    · exact h.faultAt target.start .noTarget
    · refine (h.check _ depth value).bind fun value => ?_
      rw [h]
      exact follows_pure _

/-- Moving phrases moves what they become. -/
theorem checkAllPhrases (h : Moves g f index index') (depth : Nat) : ∀ ps : List Phrase,
    Follows g (Expression.mapPositionsAll g) (Phrase.checkAll index depth ps)
      (Phrase.checkAll index' depth (Phrase.mapPlacesAll f ps))
  | [] => by
    rw [Phrase.mapPlacesAll, Phrase.checkAll, Phrase.checkAll]
    exact follows_pure _
  | p :: ps => by
    rw [Phrase.mapPlacesAll, Phrase.checkAll, Phrase.checkAll]
    refine (h.check 0 depth p).bind fun found => ?_
    refine (h.checkAllPhrases depth ps).bind fun es => ?_
    exact follows_pure _

end

section

variable (h : Moves g f index index')
include h

theorem checkWhole (p : Phrase) :
    Follows g (Expression.mapPositions g) (p.checkWhole index)
      ((p.mapPlaces f).checkWhole index') :=
  (h.check 0 0 p).bind fun _ => follows_pure _

theorem checkOptional (p : Option Phrase) :
    Follows g (Option.map (Expression.mapPositions g)) (Phrase.checkOptional index p)
      (Phrase.checkOptional index' (p.map (Phrase.mapPlaces f))) := by
  cases p with
  | none => exact follows_pure _
  | some p => exact (h.checkWhole p).bind fun _ => follows_pure _

/-! ## Statements that are moved -/

theorem add (offset : Nat) (name : Text) (kind : BindingKind) (declared : Declared) :
    Follows g id (declared.add index offset name kind)
      (declared.add index' (f offset) name kind) := by
  unfold Declared.add
  split
  · exact follows_pure _
  · split
    · exact h.faultAt offset _
    · exact follows_pure _

theorem checkDeclarators (kind : BindingKind) (declared : Declared)
    (ds : List (Declarator Phrase Nat)) :
    Follows g (Prod.map (List.map (Declarator.map (Expression.mapPositions g) g)) id)
      (Declarator.check index kind declared ds)
      (Declarator.check index' kind declared (ds.map (Declarator.map (Phrase.mapPlaces f) f))) := by
  induction ds generalizing declared with
  | nil => exact follows_pure _
  | cons d ds ih =>
    -- what comes after the value is the same, whether there is a value or not
    have hlast (value : Option Expression) (declared : Declared) :
        Follows g (Prod.map (List.map (Declarator.map (Expression.mapPositions g) g)) id)
          (do
            let found ← Declarator.check index kind declared ds
            return (⟨index.position d.place, d.name, value⟩ :: found.1, found.2))
          (do
            let found ← Declarator.check index' kind declared
              (ds.map (Declarator.map (Phrase.mapPlaces f) f))
            return (⟨index'.position (f d.place), d.name,
              value.map (Expression.mapPositions g)⟩ :: found.1, found.2)) := by
      refine (ih declared).bind fun found => ?_
      rw [h d.place]
      exact follows_pure _
    rw [List.map_cons, Declarator.check, Declarator.check]
    refine (h.add d.place d.name kind declared).bind fun declared => ?_
    obtain ⟨place, name, value⟩ := d
    cases value with
    | none =>
      dsimp only [Declarator.map, Option.map]
      split
      · exact h.faultAt place .uninitialized
      · exact hlast none declared
    | some p =>
      dsimp only [Declarator.map, Option.map]
      exact (h.check _ 0 p).bind fun found => hlast (some found.1) declared

theorem checkLoopStart (start : Option (LoopStart Phrase Nat)) :
    Follows g (Prod.map (Option.map (LoopStart.map (Expression.mapPositions g) g)) id)
      (LoopStart.check index start)
      (LoopStart.check index' (start.map (LoopStart.map (Phrase.mapPlaces f) f))) := by
  cases start with
  | none => exact follows_pure _
  | some start =>
    cases start with
    | expression p => exact (h.checkWhole p).bind fun _ => follows_pure _
    | declaration kind ds => exact (h.checkDeclarators kind [] ds).bind fun _ => follows_pure _

end

mutual

/-- Moving a sentence moves what it becomes. -/
theorem checkSentence (h : Moves g f index index') (inLoop inFunction : Bool)
    (declared : Declared) : ∀ s : Sentence,
    Follows g (Prod.map (Command.mapPositions g) id)
      (s.check ⟨index, inLoop, inFunction⟩ declared)
      ((s.mapPlaces f).check ⟨index', inLoop, inFunction⟩ declared)
  | .expression p => by
    simp only [Statement.map, Statement.check]
    exact (h.checkWhole p).bind fun _ => follows_pure _
  | .declaration kind ds => by
    simp only [Statement.map, Statement.check]
    exact (h.checkDeclarators kind declared ds).bind fun _ => follows_pure _
  | .function start name namePlace parameters isAsync body => by
    simp only [Statement.map, Statement.check]
    refine (h.add namePlace name .var declared).bind fun declared => ?_
    refine (h.checkSentences false true _ body).bind fun body => ?_
    rw [h start, h namePlace]
    exact follows_pure _
  | .returning start value => by
    simp only [Statement.map, Statement.check]
    split
    · refine (h.checkOptional value).bind fun value => ?_
      rw [h start]
      exact follows_pure _
    · exact h.faultAt start _
  | .branch test yes none => by
    simp only [Statement.map, Statement.check]
    refine (h.checkWhole test).bind fun test => ?_
    exact (h.checkSentence inLoop inFunction declared yes).bind fun _ => follows_pure _
  | .branch test yes (some no) => by
    simp only [Statement.map, Statement.check]
    refine (h.checkWhole test).bind fun test => ?_
    refine (h.checkSentence inLoop inFunction declared yes).bind fun yes => ?_
    exact (h.checkSentence inLoop inFunction yes.2 no).bind fun _ => follows_pure _
  | .whileLoop test body => by
    simp only [Statement.map, Statement.check]
    refine (h.checkWhole test).bind fun test => ?_
    exact (h.checkSentence true inFunction declared body).bind fun _ => follows_pure _
  | .forLoop start init test update body => by
    simp only [Statement.map, Statement.check]
    refine (h.checkLoopStart init).bind fun init => ?_
    refine (h.checkOptional test).bind fun test => ?_
    refine (h.checkOptional update).bind fun update => ?_
    refine (h.checkSentence true inFunction init.2 body).bind fun body => ?_
    rw [h start]
    exact follows_pure _
  | .block body => by
    simp only [Statement.map, Statement.check]
    exact (h.checkSentences inLoop inFunction [] body).bind fun _ => follows_pure _
  | .breaking start => by
    simp only [Statement.map, Statement.check]
    split
    · rw [h start]
      exact follows_pure _
    · exact h.faultAt start _
  | .continuing start => by
    simp only [Statement.map, Statement.check]
    split
    · rw [h start]
      exact follows_pure _
    · exact h.faultAt start _
  | .empty => by
    simp only [Statement.map, Statement.check]
    exact follows_pure _

/-- Moving sentences moves what they become. -/
theorem checkSentences (h : Moves g f index index') (inLoop inFunction : Bool)
    (declared : Declared) : ∀ ss : List Sentence,
    Follows g (Prod.map (Statement.mapAll (Expression.mapPositions g) g) id)
      (Statement.checkAll ⟨index, inLoop, inFunction⟩ declared ss)
      (Statement.checkAll ⟨index', inLoop, inFunction⟩ declared
        (Statement.mapAll (Phrase.mapPlaces f) f ss))
  | [] => by
    rw [Statement.mapAll, Statement.checkAll, Statement.checkAll]
    exact follows_pure _
  | s :: ss => by
    rw [Statement.mapAll, Statement.checkAll, Statement.checkAll]
    refine (h.checkSentence inLoop inFunction declared s).bind fun found => ?_
    exact (h.checkSentences inLoop inFunction found.2 ss).bind fun _ => follows_pure _

end

end Moves

/-! ## Lines -/

/-- The line feeds before an offset. -/
def lineOf (t : Text) (offset : Nat) : Nat := (t.take offset).count '\n'

/-- The position of the beginning of the line. -/
def Position.withoutColumn (p : Position) : Position := ⟨p.line, 1⟩

namespace LineIndex

/-- Behind the end of a text all its lines are counted. -/
private theorem countFrom_of_length_le {t : Text} {offset : Nat} (h : t.length ≤ offset) :
    countFrom (ofText t).starts offset 0 (ofText t).starts.size = (ofText t).starts.size := by
  refine countFrom_eq (Nat.zero_le _) (Nat.le_refl _) (fun i hi => ?_) fun i hi hlt => by omega
  have hi : i < (0 :: startsFrom 0 t).length := hi
  rw [ofText, List.getElem?_toArray, List.getElem?_eq_getElem hi, Option.getD_some]
  rcases List.mem_cons.1 (List.getElem_mem hi) with h0 | hstart
  · rw [h0]
    exact Nat.zero_le _
  · have := (mem_startsFrom hstart).2
    omega

/-- The line of a position is one more than the line feeds before it, also behind the end. -/
theorem line_position (t : Text) (offset : Nat) :
    ((ofText t).position offset).line = lineOf t offset + 1 := by
  rcases Nat.le_total offset t.length with hle | hle
  · rw [position_ofText hle, Position.line_scan]
    rfl
  · have hlast := Position.line_scan t t.length
    rw [← position_ofText (Nat.le_refl _)] at hlast
    simp only [position, countFrom_of_length_le (Nat.le_refl _)] at hlast
    rw [lineOf, List.take_of_length_le hle]
    rw [List.take_length] at hlast
    simp only [position, countFrom_of_length_le hle, hlast]

/-- A text of nothing but line feeds has a line at each offset. -/
theorem position_replicate {lines n : Nat} (h : n ≤ lines) :
    (ofText (List.replicate lines '\n')).position n = ⟨n + 1, 1⟩ := by
  have hafter (m : Nat) (line : Nat) :
      Position.after ⟨line, 1⟩ (List.replicate m '\n') = ⟨line + m, 1⟩ := by
    induction m generalizing line with
    | zero => rfl
    | succ m ih =>
      rw [List.replicate_succ, Position.after, if_pos rfl, ih, Nat.add_right_comm, Nat.add_assoc]
  rw [position_ofText (by rwa [List.length_replicate]), Position.scan, List.take_replicate,
    Nat.min_eq_left h, hafter, Nat.add_comm]

/-- The lines of a text are the offsets of a text that has nothing but its line feeds. -/
theorem moves_lineOf (t : Text) : Moves Position.withoutColumn (lineOf t) (ofText t)
    (ofText (List.replicate (t.count '\n') '\n')) := by
  intro offset
  rw [position_replicate, Position.withoutColumn, line_position]
  exact (List.take_sublist offset t).count_le '\n'

end LineIndex

/-! ## Programs -/

/-- The results of parsing two texts agree up to columns: both texts are programs and the programs
    differ in nothing else, or neither text is a program. -/
inductive Program.Agree : Except Program.Fault Program → Except Program.Fault Program → Prop where
  | parsed {program program' : Program}
      (h : program.map (Command.mapPositions Position.withoutColumn) =
        program'.map (Command.mapPositions Position.withoutColumn)) :
      Agree (.ok program) (.ok program')
  | failed (fault fault' : Program.Fault) : Agree (.error fault) (.error fault')

/-- The program without columns is the same, if there is one. -/
theorem Program.Agree.toOption_eq {r r' : Except Program.Fault Program} (h : Program.Agree r r') :
    r.toOption.map (List.map (Command.mapPositions Position.withoutColumn)) =
      r'.toOption.map (List.map (Command.mapPositions Position.withoutColumn)) := by
  cases h with
  | parsed h => exact congrArg some h
  | failed => rfl

/-- Texts of as many lines, whose sentences stand on the same lines, are parsed to programs that agree
    up to columns. -/
theorem Program.agree_parse_of_read {t t' : Text} {ss ss' : List Sentence}
    (hcount : t.count '\n' = t'.count '\n') (hread : read t = .ok ss) (hread' : read t' = .ok ss')
    (h : ss.map (Sentence.mapPlaces (lineOf t)) = ss'.map (Sentence.mapPlaces (lineOf t'))) :
    Program.Agree (Program.parse t) (Program.parse t') := by
  have hmoved := (LineIndex.moves_lineOf t).checkSentences false false [] ss
  have hmoved' := (LineIndex.moves_lineOf t').checkSentences false false [] ss'
  -- both checks end like that of the same sentences
  rw [Statement.mapAll_eq_map, h, hcount] at hmoved
  rw [Statement.mapAll_eq_map] at hmoved'
  unfold Program.parse
  rw [hread, hread']
  rcases hmoved.eq_ok_or_eq_error hmoved' with ⟨found, found', hfound, hfound', heq⟩ |
    ⟨fault, fault', hfault, hfault'⟩
  · simp only [hfound, hfound', Except.map]
    have hcommands := congrArg Prod.fst heq
    simp only [Prod.map, Statement.mapAll_eq_map] at hcommands
    exact .parsed hcommands
  · simp only [hfault, hfault', Except.map]
    exact .failed fault fault'

end Pseudocode.Script
