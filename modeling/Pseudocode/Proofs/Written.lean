import Pseudocode.Proofs.Wrapper

/-!
# What is written in a text

A phrase that has been read stands in a text: its places are those of tokens, and its operands are
read at the levels of the grammar, so that a looser one has parentheses. What a place is depends on
the text, so the places are described by any property that the tokens of the text have.

* `Phrase.IsWritten`      a phrase as the grammar forms it, at certain places
* `Statement.Everywhere`  what holds of all expressions, places and function names of a statement
* `Grammar.finds_statement`   the grammar finds statements that are written in the text
* `read_isWritten`        the sentences of a text are written in it
-/

namespace Pseudocode.Script

/-! ## Phrases and statements -/

/-- The phrase is formed as the grammar forms it, and its places have the property. -/
inductive Phrase.IsWritten (Q : Nat → Prop) : Phrase → Prop where
  | number {place : Nat} {value : Float} (hplace : Q place) : IsWritten Q (.number place value)
  | string {place : Nat} {value : Text} (hplace : Q place) : IsWritten Q (.string place value)
  | bool {place : Nat} {value : Bool} (hplace : Q place) : IsWritten Q (.bool place value)
  | null {place : Nat} (hplace : Q place) : IsWritten Q (.null place)
  | undefined {place : Nat} (hplace : Q place) : IsWritten Q (.undefined place)
  | array {place : Nat} {items : List Phrase} (hplace : Q place)
    (hitems : ∀ p ∈ items, IsWritten Q p) : IsWritten Q (.array place items)
  | identifier {place : Nat} {name : Text} (hplace : Q place) : IsWritten Q (.identifier place name)
  | construct {place : Nat} {name : Text} {operands : List Phrase} (hplace : Q place)
    (hoperands : ∀ p ∈ operands, IsWritten Q p) : IsWritten Q (.construct place name operands)
  | group {place : Nat} {inner : Phrase} (hplace : Q place) (hinner : IsWritten Q inner) :
    IsWritten Q (.group place inner)
  | call {callee : Phrase} {place : Nat} {operands : List Phrase} (hcallee : IsWritten Q callee)
    (hlevel : Level.suffixed ≤ callee.level) (hplace : Q place)
    (hoperands : ∀ p ∈ operands, IsWritten Q p) : IsWritten Q (.call callee place operands)
  | index {object : Phrase} {place : Nat} {key : Phrase} (hobject : IsWritten Q object)
    (hlevel : Level.suffixed ≤ object.level) (hplace : Q place) (hkey : IsWritten Q key) :
    IsWritten Q (.index object place key)
  | member {object : Phrase} {place namePlace : Nat} {name : Text} (hobject : IsWritten Q object)
    (hlevel : Level.suffixed ≤ object.level) (hplace : Q place) (hnamePlace : Q namePlace) :
    IsWritten Q (.member object place namePlace name)
  | unary {place : Nat} {operator : UnaryOperator} {operand : Phrase} (hplace : Q place)
    (hoperand : IsWritten Q operand) (hlevel : Level.unary ≤ operand.level) :
    IsWritten Q (.unary place operator operand)
  | binary {left : Phrase} {place : Nat} {operator : BinaryOperator} {right : Phrase}
    (hleft : IsWritten Q left) (hleftLevel : operator.level ≤ left.level) (hplace : Q place)
    (hright : IsWritten Q right) (hrightLevel : operator.level + 1 ≤ right.level) :
    IsWritten Q (.binary left place operator right)
  | conditional {test yes no : Phrase} (htest : IsWritten Q test)
    (hlevel : Level.conditional + 1 ≤ test.level) (hyes : IsWritten Q yes) (hno : IsWritten Q no) :
    IsWritten Q (.conditional test yes no)
  | assign {target : Phrase} {operator : AssignmentOperator} {value : Phrase}
    (htarget : IsWritten Q target) (hlevel : Level.conditional ≤ target.level)
    (hvalue : IsWritten Q value) : IsWritten Q (.assign target operator value)

theorem Level.suffixed_le_atom : Level.suffixed ≤ Level.atom := by decide

/-- Every phrase is read at some level. -/
theorem Phrase.assignment_le_level : ∀ p : Phrase, Level.assignment ≤ p.level
  | .binary _ _ operator _ => by
    show 1 ≤ operator.level
    cases operator <;> decide
  | .number _ _ | .string _ _ | .bool _ _ | .null _ | .undefined _ | .array _ _ | .identifier _ _
  | .construct _ _ _ | .group _ _ | .call _ _ _ | .index _ _ _ | .member _ _ _ _ | .unary _ _ _
  | .conditional _ _ _ | .assign _ _ _ => by simp only [Phrase.level]; decide

theorem Phrase.IsWritten.start {Q : Nat → Prop} {p : Phrase} (h : p.IsWritten Q) : Q p.start := by
  induction h with
  | call _ _ _ _ ih | index _ _ _ _ ih | member _ _ _ _ ih | binary _ _ _ _ _ ih
  | conditional _ _ _ _ ih | assign _ _ _ ih => assumption
  | _ => assumption

section

variable {ε π : Type}

/-- The value has the property, if there is one, and so has the place. -/
def Declarator.Everywhere (E : ε → Prop) (P : π → Prop) (d : Declarator ε π) : Prop :=
  P d.place ∧ ∀ e ∈ d.value, E e

/-- The expressions and the places at the start of a counting loop have the properties. -/
def LoopStart.Everywhere (E : ε → Prop) (P : π → Prop) : LoopStart ε π → Prop
  | .declaration _ ds => ∀ d ∈ ds, d.Everywhere E P
  | .expression e => E e

/-- All expressions, all places and all function names of a statement have the properties. The places
    of functions have a property of their own, since nothing is done there. -/
inductive Statement.Everywhere (E : ε → Prop) (P M : π → Prop) (N : Text → Prop) :
    Statement ε π → Prop where
  | expression {e : ε} (he : E e) : Everywhere E P M N (.expression e)
  | declaration {kind : BindingKind} {ds : List (Declarator ε π)}
    (hds : ∀ d ∈ ds, d.Everywhere E P) : Everywhere E P M N (.declaration kind ds)
  | function {place namePlace : π} {name : Text} {parameters : List Text} {isAsync : Bool}
    {body : List (Statement ε π)} (hplace : M place) (hnamePlace : M namePlace) (hname : N name)
    (hbody : ∀ s ∈ body, Everywhere E P M N s) :
    Everywhere E P M N (.function place name namePlace parameters isAsync body)
  | returning {place : π} {value : Option ε} (hplace : P place) (hvalue : ∀ e ∈ value, E e) :
    Everywhere E P M N (.returning place value)
  | branch {test : ε} {yes : Statement ε π} {no : Option (Statement ε π)} (htest : E test)
    (hyes : Everywhere E P M N yes) (hno : ∀ s ∈ no, Everywhere E P M N s) :
    Everywhere E P M N (.branch test yes no)
  | whileLoop {test : ε} {body : Statement ε π} (htest : E test) (hbody : Everywhere E P M N body) :
    Everywhere E P M N (.whileLoop test body)
  | forLoop {place : π} {start : Option (LoopStart ε π)} {test update : Option ε}
    {body : Statement ε π} (hplace : P place) (hstart : ∀ s ∈ start, s.Everywhere E P)
    (htest : ∀ e ∈ test, E e) (hupdate : ∀ e ∈ update, E e) (hbody : Everywhere E P M N body) :
    Everywhere E P M N (.forLoop place start test update body)
  | block {body : List (Statement ε π)} (hbody : ∀ s ∈ body, Everywhere E P M N s) :
    Everywhere E P M N (.block body)
  | breaking {place : π} (hplace : P place) : Everywhere E P M N (.breaking place)
  | continuing {place : π} (hplace : P place) : Everywhere E P M N (.continuing place)
  | empty : Everywhere E P M N .empty

/-- Nothing is done at the place of a function. -/
theorem Statement.Everywhere.weaken {E : ε → Prop} {P M M' : π → Prop} {N : Text → Prop}
    {s : Statement ε π} (h : s.Everywhere E P M N) (hM : ∀ place, M place → M' place) :
    s.Everywhere E P M' N := by
  induction h with
  | expression he => exact .expression he
  | declaration hds => exact .declaration hds
  | function hplace hnamePlace hname _ ih => exact .function (hM _ hplace) (hM _ hnamePlace) hname ih
  | returning hplace hvalue => exact .returning hplace hvalue
  | branch htest _ _ ihyes ihno => exact .branch htest ihyes ihno
  | whileLoop htest _ ih => exact .whileLoop htest ih
  | forLoop hplace hstart htest hupdate _ ih => exact .forLoop hplace hstart htest hupdate ih
  | block _ ih => exact .block ih
  | breaking hplace => exact .breaking hplace
  | continuing hplace => exact .continuing hplace
  | empty => exact .empty

end

/-- A sentence is written at certain places, and its functions have certain names. -/
abbrev Sentence.IsWritten (Q : Nat → Prop) (N : Text → Prop) (s : Sentence) : Prop :=
  s.Everywhere (Phrase.IsWritten Q) Q Q N

/-! ## The grammar -/

namespace Grammar

open Reader

variable {I : Cursor → Prop} {Q : Nat → Prop} {N : Text → Prop} {fuel : Nat}

/-- The reader finds phrases that are written at a level, or at a tighter one. -/
abbrev FindsPhrase (I : Cursor → Prop) (Q : Nat → Prop) (level : Level) (r : Reader Phrase) : Prop :=
  Finds I (fun p => p.IsWritten Q ∧ level ≤ p.level) r

section

/-- Items between brackets may be missing altogether. -/
private theorem forall_mem_getD {α : Type} {P : α → Prop} {found : Option (List α)}
    (h : ∀ items ∈ found, ∀ a ∈ items, P a) : ∀ a ∈ found.getD [], P a := by
  cases found with
  | none => simp
  | some items => exact h items rfl

variable {self : Reader Phrase} (hI : Surveys I Q)
include hI

theorem finds_single {α : Type} {scan : Text → Option (α × Nat)} {phrase : Nat → α → Phrase}
    (hbegins : BeginsToken (token scan))
    (hphrase : ∀ p a, Q p → (phrase p a).IsWritten Q ∧ Level.suffixed ≤ (phrase p a).level) :
    FindsPhrase I Q Level.suffixed (single scan phrase) := by
  refine (hI.place_bind (fun _ => hbegins.bind) fun p hp => ?_).part
  exact (hI.token fun _ _ _ _ => trivial).bind fun a _ => finds_pure (hphrase p a hp)

variable (h : Finds I (Phrase.IsWritten Q) self)
include h

theorem finds_callArguments :
    Finds I (fun items => ∀ p ∈ items, p.IsWritten Q) (callArguments fuel self) := by
  refine Finds.part ?_
  refine (hI.sign '(').bind fun _ _ => (finds_commaList hI h).optional.bind fun found hfound => ?_
  exact (hI.sign ')').bind fun _ _ => finds_pure (forall_mem_getD hfound)

theorem finds_arrayLiteral : FindsPhrase I Q Level.suffixed (arrayLiteral fuel self) := by
  refine (hI.place_bind (fun _ => (beginsToken_sign (by decide)).bind) fun p hp => ?_).part
  refine (hI.sign '[').bind fun _ _ => ?_
  refine Finds.bind (P := fun found => ∀ items ∈ found, ∀ q ∈ items, q.IsWritten Q) ?_ ?_
  · refine Finds.optional ((finds_commaList hI h).bind fun items hitems => ?_)
    exact (hI.sign ',').optional.bind fun _ _ => finds_pure hitems
  · intro found hfound
    refine (hI.sign ']').bind fun _ _ => finds_pure ?_
    exact ⟨.array hp (forall_mem_getD hfound), Level.suffixed_le_atom⟩

theorem finds_construction : FindsPhrase I Q Level.suffixed (construction fuel self) := by
  refine (hI.place_bind (fun _ => (beginsToken_word (by decide)).part.bind) fun p hp => ?_).part
  refine (hI.word _).part.bind fun _ _ => ?_
  refine (hI.token (P := fun _ => True) fun _ _ _ _ => trivial).part.bind fun name _ => ?_
  refine (finds_callArguments hI h).optional.bind fun found hfound => ?_
  exact finds_pure ⟨.construct hp (forall_mem_getD hfound), Level.suffixed_le_atom⟩

theorem finds_group : FindsPhrase I Q Level.suffixed (group self) := by
  refine hI.place_bind (fun _ => (beginsToken_sign (by decide)).bind) fun p hp => ?_
  refine (hI.sign '(').bind fun _ _ => h.bind fun inner hinner => ?_
  exact (hI.sign ')').bind fun _ _ => finds_pure ⟨.group hp hinner, Nat.le_refl _⟩

theorem finds_primary : FindsPhrase I Q Level.suffixed (primary fuel self) := by
  have hatom := Level.suffixed_le_atom
  refine finds_oneOf ?_
  simp only [List.forall_mem_cons]
  refine ⟨finds_single hI ?number fun p a hp => ⟨.number hp, hatom⟩,
    finds_single hI ?string fun p a hp => ⟨.string hp, hatom⟩,
    finds_single hI (beginsToken_wordOf? (by decide)) fun p a hp => ⟨.bool hp, hatom⟩,
    finds_single hI (beginsToken_wordOf? (by decide)) fun p a hp => ⟨.null hp, hatom⟩,
    finds_single hI (beginsToken_wordOf? (by decide)) fun p a hp => ⟨.undefined hp, hatom⟩,
    finds_arrayLiteral hI h, finds_construction hI h,
    finds_single hI beginsToken_identifier? fun p a hp => ⟨.identifier hp, hatom⟩,
    finds_group hI h, List.forall_mem_nil _⟩
  case number => exact beginsToken_token rfl fun t => number?_eq_none (by decide) (by decide) t
  case string => exact beginsToken_token rfl fun t => string?_eq_none (by decide) t

/-- A suffix makes a phrase of the level of suffixes. -/
theorem finds_suffix {object : Phrase} (hobject : object.IsWritten Q)
    (hlevel : Level.suffixed ≤ object.level) :
    FindsPhrase I Q Level.suffixed (suffix fuel self object) := by
  have hsign (s : Char) (f : Unit → Reader Phrase) (hs : s ≠ '\x7d') : BeginsToken (sign s >>= f) :=
    (beginsToken_sign hs).bind
  refine hI.place_bind (fun p => beginsToken_oneOf ?_) fun p hp => finds_oneOf ?_
  all_goals simp only [List.forall_mem_cons]
  · exact ⟨(beginsToken_sign (by decide)).bind.part.bind, (hsign '[' _ (by decide)).part,
      (hsign '.' _ (by decide)).part, List.forall_mem_nil _⟩
  · refine ⟨?call, Finds.part ?index, Finds.part ?member, List.forall_mem_nil _⟩
    case call =>
      refine (finds_callArguments hI h).bind fun operands hoperands => ?_
      exact finds_pure ⟨.call hobject hlevel hp hoperands, Nat.le_refl _⟩
    case index =>
      refine (hI.sign '[').bind fun _ _ => h.bind fun key hkey => ?_
      exact (hI.sign ']').bind fun _ _ => finds_pure ⟨.index hobject hlevel hp hkey, Nat.le_refl _⟩
    case member =>
      refine (hI.sign '.').bind fun _ _ => ?_
      refine hI.place_bind (fun _ => beginsToken_name?.part.bind) fun namePlace hnamePlace => ?_
      refine (hI.token (P := fun _ => True) fun _ _ _ _ => trivial).part.bind fun name _ => ?_
      exact finds_pure ⟨.member hobject hlevel hp hnamePlace, Nat.le_refl _⟩

theorem finds_suffixed : FindsPhrase I Q Level.suffixed (suffixed fuel self) := by
  refine ((finds_primary hI h).bind fun object hobject => ?_).part
  exact Finds.iterate (fun object hobject => finds_suffix hI h hobject.1 hobject.2) hobject fuel

theorem finds_unary : FindsPhrase I Q Level.unary (unary fuel self) := by
  refine Finds.part ?_
  refine Finds.bind (P := fun operators => ∀ o ∈ operators, Q o.1) ?_ fun operators hoperators => ?_
  · refine Finds.many (Finds.part ?_) fuel
    refine hI.place_bind (fun _ => beginsToken_unaryOperator?.bind) fun p hp => ?_
    exact (hI.token (P := fun _ => True) fun _ _ _ _ => trivial).bind fun _ _ => finds_pure hp
  · refine (finds_suffixed hI h).bind fun operand hoperand => finds_pure ?_
    -- the operators are applied from the last one on
    induction operators with
    | nil => exact ⟨hoperand.1, Nat.le_trans (by decide) hoperand.2⟩
    | cons o operators ih =>
      obtain ⟨ho, hothers⟩ := List.forall_mem_cons.1 hoperators
      obtain ⟨hinner, hlevel⟩ := ih hothers
      exact ⟨.unary ho hinner hlevel, Nat.le_refl _⟩

omit h in
/-- Operands of a chain are read at a higher level than its operators. -/
theorem finds_chain {operand : Reader Phrase} (level : Level) {higher : Level}
    (h : FindsPhrase I Q higher operand) (hhigher : level + 1 = higher) :
    FindsPhrase I Q level (chain fuel level operand) := by
  subst hhigher
  refine Finds.part ?_
  refine h.bind fun first hfirst => ?_
  refine Finds.iterate (fun left hleft => ?_) ⟨hfirst.1, Nat.le_of_succ_le hfirst.2⟩ fuel
  refine hI.place_bind (fun _ => (beginsToken_binaryOperator? level).part.bind) fun p hp => ?_
  have hoperators : ∀ t operator n, Token.binaryOperator? level t = some (operator, n) →
      level = operator.level := fun _ _ _ hscan => (binaryOperator?_eq_some_iff.1 hscan).1
  refine (hI.token hoperators).part.bind fun operator hoperator => ?_
  subst hoperator
  refine h.bind fun right hright => finds_pure ?_
  exact ⟨.binary hleft.1 hleft.2 hp hright.1 hright.2, Nat.le_refl _⟩

theorem finds_binary : FindsPhrase I Q 3 (binary fuel self) := by
  simp only [binary, List.foldr_cons, List.foldr_nil]
  refine finds_chain hI 3 (finds_chain hI 4 (finds_chain hI 5 ?_ rfl) rfl) rfl
  exact finds_chain hI 6 (finds_chain hI 7 (finds_chain hI 8 (finds_unary hI h) rfl) rfl) rfl

theorem finds_conditional : FindsPhrase I Q Level.conditional (Grammar.conditional fuel self) := by
  refine ((finds_binary hI h).bind fun test htest => ?_).part
  refine Finds.bind (P := fun branches : Option (Phrase × Phrase) =>
    ∀ b ∈ branches, b.1.IsWritten Q ∧ b.2.IsWritten Q) ?_ fun branches hbranches => finds_pure ?_
  · refine Finds.optional ((hI.sign '?').bind fun _ _ => h.bind fun yes hyes => ?_)
    refine (hI.sign ':').bind fun _ _ => h.bind fun no hno => ?_
    exact finds_pure ⟨hyes, hno⟩
  · cases branches with
    | none => exact ⟨htest.1, Nat.le_trans (by decide) htest.2⟩
    | some b =>
      obtain ⟨hyes, hno⟩ := hbranches b rfl
      exact ⟨.conditional htest.1 htest.2 hyes hno, Nat.le_refl _⟩

theorem finds_assignment : Finds I (Phrase.IsWritten Q) (assignment fuel self) := by
  refine ((finds_conditional hI h).bind fun target htarget => ?_).part
  refine Finds.bind (P := fun assigned : Option (AssignmentOperator × Phrase) =>
    ∀ a ∈ assigned, a.2.IsWritten Q) ?_ fun assigned hassigned => finds_pure ?_
  · refine Finds.optional ?_
    refine (hI.token (P := fun _ => True) fun _ _ _ _ => trivial).part.bind fun operator _ => ?_
    exact h.bind fun value hvalue => finds_pure hvalue
  · cases assigned with
    | none => exact htarget.1
    | some a => exact .assign htarget.1 htarget.2 (hassigned a rfl)

omit h in
theorem finds_phrase (depth : Nat) : Finds I (Phrase.IsWritten Q) (phrase fuel depth) := by
  induction depth with
  | zero => exact finds_fail
  | succ depth ih => exact finds_assignment hI ih

omit h in
theorem finds_expression : Finds I (Phrase.IsWritten Q) (expression fuel) := finds_phrase hI fuel

end

/-! ## Statements -/

/-- Every identifier of a text has the property. -/
abbrev Names (N : Text → Prop) : Prop := ∀ t name n, Token.identifier? t = some (name, n) → N name

/-- What starts an identifier also continues one. -/
theorem isIdentifierChar_of_start {c : Char} (h : Text.isIdentifierStart c = true) :
    Text.isIdentifierChar c = true := by
  simp only [Text.isIdentifierStart, Text.isIdentifierChar, Char.isAlphanum, Bool.or_eq_true] at h ⊢
  rcases h with (h | h) | h <;> simp [h]

theorem names_isIdentifier : Names IsIdentifier := by
  intro t name n h
  obtain ⟨hname, hunreserved⟩ := Option.filter_eq_some_iff.1 h
  cases t with
  | nil => cases hname
  | cons c r =>
    obtain ⟨hstart, heq⟩ := Option.ite_none_right_eq_some.1 hname
    obtain ⟨rfl, -⟩ := Prod.mk.inj (Option.some.inj heq)
    refine ⟨⟨c, r.takeWhile Text.isIdentifierChar, ?_, hstart⟩, fun d hd => ?_, by simpa using hunreserved⟩
    · exact List.takeWhile_cons_of_pos (isIdentifierChar_of_start hstart)
    · exact List.mem_takeWhile_imp hd

section

variable {self : Reader Sentence} (hI : Surveys I Q) (hN : Names N)
include hI

theorem finds_tested {keyword : Text} : Finds I (Phrase.IsWritten Q) (tested fuel keyword) := by
  refine (hI.word _).part.bind fun _ _ => (hI.sign '(').bind fun _ _ => ?_
  refine (finds_expression hI).bind fun test htest => ?_
  exact (hI.sign ')').bind fun _ _ => finds_pure htest

theorem finds_declarator :
    Finds I (Declarator.Everywhere (Phrase.IsWritten Q) Q) (declarator fuel) := by
  refine (hI.place_bind (fun _ => beginsToken_identifier?.part.bind) fun p hp => ?_).part
  refine (hI.token (P := fun _ => True) fun _ _ _ _ => trivial).part.bind fun name _ => ?_
  refine (Finds.optional ((hI.sign '=').bind fun _ _ => finds_expression hI)).bind
    fun value hvalue => ?_
  exact finds_pure ⟨hp, hvalue⟩

theorem finds_declaration :
    Finds I (fun found : BindingKind × List (Declarator Phrase Nat) =>
      ∀ d ∈ found.2, d.Everywhere (Phrase.IsWritten Q) Q) (declaration fuel) := by
  refine Finds.part ?_
  refine (hI.token (P := fun _ => True) fun _ _ _ _ => trivial).part.bind fun kind _ => ?_
  exact (finds_commaList hI (finds_declarator hI)).bind fun ds hds => finds_pure hds

theorem finds_loopStart :
    Finds I (LoopStart.Everywhere (Phrase.IsWritten Q) Q) (loopStart fuel) := by
  refine Finds.part (Finds.orElse ?_ ?_)
  · exact (finds_declaration hI).bind fun d hd => finds_pure hd
  · exact (finds_expression hI).bind fun e he => finds_pure he

variable (h : Finds I (Sentence.IsWritten Q N) self)
include h

/-- What stands behind an opening brace, up to the one that closes. -/
theorem finds_inside : Finds I (fun ss => ∀ s ∈ ss, Sentence.IsWritten Q N s)
    (do let body ← many fuel self; sign '\x7d'; return body) :=
  (h.many fuel).bind fun _ hbody => (hI.sign '\x7d').bind fun _ _ => finds_pure hbody

theorem finds_braces : Finds I (fun ss => ∀ s ∈ ss, Sentence.IsWritten Q N s) (braces fuel self) :=
  ((hI.sign '\x7b').bind fun _ _ => finds_inside hI h).part

theorem finds_branch : Finds I (Sentence.IsWritten Q N) (branch fuel self) := by
  refine Finds.part ?_
  refine (finds_tested hI).bind fun test htest => h.bind fun yes hyes => ?_
  refine (Finds.optional ((hI.word _).part.bind fun _ _ => h)).bind fun no hno => ?_
  exact finds_pure (.branch htest hyes hno)

theorem finds_whileLoop : Finds I (Sentence.IsWritten Q N) (whileLoop fuel self) := by
  refine Finds.part ?_
  refine (finds_tested hI).bind fun test htest => h.bind fun body hbody => ?_
  exact finds_pure (.whileLoop htest hbody)

theorem finds_forLoop : Finds I (Sentence.IsWritten Q N) (forLoop fuel self) := by
  refine (hI.place_bind (fun _ => (beginsToken_word (by decide)).part.bind) fun p hp => ?_).part
  refine (hI.word _).part.bind fun _ _ => (hI.sign '(').bind fun _ _ => ?_
  refine (finds_loopStart hI).optional.bind fun init hinit => ?_
  refine (hI.sign ';').bind fun _ _ => (finds_expression hI).optional.bind fun test htest => ?_
  refine (hI.sign ';').bind fun _ _ => (finds_expression hI).optional.bind fun update hupdate => ?_
  refine (hI.sign ')').bind fun _ _ => h.bind fun body hbody => ?_
  exact finds_pure (.forLoop hp hinit htest hupdate hbody)

include hN

theorem finds_function : Finds I (Sentence.IsWritten Q N) (Grammar.function fuel self) := by
  refine (hI.place_bind (fun _ => ?_) fun p hp => ?_).part
  · exact (beginsToken_word (by decide)).part.optional_bind (beginsToken_word (by decide)).part.bind
  · refine (hI.word _).part.optional.bind fun mark _ => (hI.word _).part.bind fun _ _ => ?_
    refine hI.place_bind (fun _ => beginsToken_identifier?.part.bind) fun namePlace hnamePlace => ?_
    refine (hI.token hN).part.bind fun name hname => ?_
    refine (finds_parameters hI).bind fun names _ => ?_
    refine (finds_braces hI h).bind fun body hbody => ?_
    exact finds_pure (.function hp hnamePlace hname hbody)

theorem finds_sentence : Finds I (Sentence.IsWritten Q N) (sentence fuel self) := by
  have hword (w : Text) (f : Unit → Reader Sentence) (hw : w ≠ []) : BeginsToken (part (word w) >>= f) :=
    (beginsToken_word hw).part.bind
  refine finds_oneOf ?_
  simp only [List.forall_mem_cons]
  refine ⟨?block, finds_function hI hN h, finds_branch hI h, finds_whileLoop hI h,
    finds_forLoop hI h, Finds.part ?declaration, Finds.part ?returning, Finds.part ?breaking,
    Finds.part ?continuing, Finds.part ?empty, Finds.part ?expression, List.forall_mem_nil _⟩
  case block => exact (finds_braces hI h).bind fun body hbody => finds_pure (.block hbody)
  case declaration =>
    refine (finds_declaration hI).bind fun d hd => ?_
    exact (hI.sign ';').bind fun _ _ => finds_pure (.declaration hd)
  case returning =>
    refine hI.place_bind (fun _ => hword _ _ (by decide)) fun p hp => ?_
    refine (hI.word _).part.bind fun _ _ => (finds_expression hI).optional.bind fun value hvalue => ?_
    exact (hI.sign ';').bind fun _ _ => finds_pure (.returning hp hvalue)
  case breaking =>
    refine hI.place_bind (fun _ => hword _ _ (by decide)) fun p hp => ?_
    refine (hI.word _).part.bind fun _ _ => ?_
    exact (hI.sign ';').bind fun _ _ => finds_pure (.breaking hp)
  case continuing =>
    refine hI.place_bind (fun _ => hword _ _ (by decide)) fun p hp => ?_
    refine (hI.word _).part.bind fun _ _ => ?_
    exact (hI.sign ';').bind fun _ _ => finds_pure (.continuing hp)
  case empty => exact (hI.sign ';').bind fun _ _ => finds_pure .empty
  case expression =>
    refine (finds_expression hI).bind fun e he => ?_
    exact (hI.sign ';').bind fun _ _ => finds_pure (.expression he)

omit h in
theorem finds_statement (depth : Nat) : Finds I (Sentence.IsWritten Q N) (statement fuel depth) := by
  induction depth with
  | zero => exact finds_fail
  | succ depth ih => exact finds_sentence hI hN ih

end

end Grammar

/-- The sentences of a text are written in it. -/
theorem read_isWritten {I : Cursor → Prop} {Q : Nat → Prop} {N : Text → Prop} {t : Text}
    {ss : List Sentence} (hI : Reader.Surveys I Q) (hN : Grammar.Names N)
    (hstart : I (Cursor.ofText t)) (h : read t = .ok ss) : ∀ s ∈ ss, Sentence.IsWritten Q N s := by
  unfold read at h
  split at h
  · rename_i sentences c reach hprogram
    cases h
    have hresult : (Grammar.program (t.length + 1) (Cursor.ofText t)).result = some (ss, c) := by
      rw [hprogram]
    rw [Grammar.program, Reader.result_bind, Option.bind_eq_some_iff] at hresult
    obtain ⟨⟨found, c'⟩, hmany, hrest⟩ := hresult
    obtain ⟨hfound, -⟩ :=
      (Grammar.finds_statement hI hN (t.length + 1)).many (t.length + 1) _ _ _ hstart hmany
    rw [Reader.result_bind, Option.bind_eq_some_iff] at hrest
    obtain ⟨_, -, hpure⟩ := hrest
    obtain ⟨rfl, -⟩ := Prod.mk.inj (Option.some.inj hpure)
    exact hfound
  · cases h

end Pseudocode.Script
