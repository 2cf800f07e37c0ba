import Pseudocode.Proofs.Literal
import Pseudocode.Proofs.SentenceReading

/-!
# Expression trees

The expressions of the script as trees, and how they are written. Every operator has spaces around
it, and parentheses stand where the levels of the operators require them: an operand of a binary
operator binds tighter than the operator, or is its left operand on the same level; what is called,
indexed or asked for a member has no operator of its own; and a number is no object before a point.

* `Tree.source`       the text of a tree
* `Tree.expression`   what the tree means
* `Tree.starts`       how the text of a tree begins
-/

namespace Pseudocode.Script

open Reader

/-- A name of the script. -/
structure Identifier where
  chars : Text
  isIdentifier : IsIdentifier chars

/-- The name of a member, which may be a keyword. -/
structure MemberName where
  chars : Text
  start : ∃ c r, chars = c :: r ∧ Text.isIdentifierStart c = true
  isWord : ∀ c ∈ chars, Text.isIdentifierChar c = true

/-- An expression as a tree. -/
inductive Tree where
  | number (literal : Literal)
  | string (value : Text)
  | bool (value : Bool)
  | null
  | undefined
  | array (items : List Tree)
  | identifier (name : Identifier)
  /-- Between a sign and its operand a space may be left out. -/
  | unary (operator : UnaryOperator) (spaced : Bool) (operand : Tree)
  | binary (operator : BinaryOperator) (left right : Tree)
  | conditional (test yes no : Tree)
  | assign (operator : AssignmentOperator) (target value : Tree)
  | call (callee : Tree) (arguments : List Tree)
  | index (object key : Tree)
  | member (object : Tree) (name : MemberName)
  | construct (name : Identifier) (arguments : List Tree)
  /-- A tree in parentheses that it may not need. -/
  | group (inner : Tree)

/-- What stands between a unary operator and its operand. -/
def unaryGap (operator : UnaryOperator) (spaced : Bool) : Text :=
  match operator with
  | .typeOf | .await => [' ']
  | .not | .negate | .plus => if spaced then [' '] else []

/-- A text of a level, in parentheses where a higher level is required. -/
def enclose (required level : Level) (written : Text) : Text :=
  if level < required then '(' :: (written ++ [')']) else written

namespace Tree

/-- The level of the outermost operator. Where there is none, the tree is as tight as a name; but a
    number is no object of a member, because the point would belong to it. -/
def level : Tree → Level
  | number _ => .suffixed
  | unary _ _ _ => .unary
  | binary operator _ _ => operator.level
  | conditional _ _ _ => .conditional
  | assign _ _ _ => .assignment
  | _ => .atom

mutual

/-- The text of a tree. -/
def source : Tree → Text
  | number literal => literal.source
  | string value => quote value
  | bool value => if value then text "true" else text "false"
  | null => text "null"
  | undefined => text "undefined"
  | array items => '[' :: (Text.join (text ", ") (sources items) ++ [']'])
  | identifier name => name.chars
  | unary operator spaced operand =>
    operator.sign ++ (unaryGap operator spaced ++ enclose .unary operand.level operand.source)
  | binary operator left right =>
    enclose operator.level left.level left.source ++
      ' ' :: (operator.sign ++ ' ' :: enclose (operator.level + 1) right.level right.source)
  | conditional test yes no =>
    enclose (Level.conditional + 1) test.level test.source ++
      ' ' :: '?' :: ' ' :: (yes.source ++ ' ' :: ':' :: ' ' :: no.source)
  | assign operator target value =>
    enclose .conditional target.level target.source ++ ' ' :: (operator.sign ++ ' ' :: value.source)
  | call callee arguments =>
    enclose .suffixed callee.level callee.source ++
      '(' :: (Text.join (text ", ") (sources arguments) ++ [')'])
  | index object key => enclose .suffixed object.level object.source ++ '[' :: (key.source ++ [']'])
  | member object name => enclose .atom object.level object.source ++ '.' :: name.chars
  | construct name arguments =>
    text "new " ++ (name.chars ++ '(' :: (Text.join (text ", ") (sources arguments) ++ [')']))
  | group inner => '(' :: (inner.source ++ [')'])

/-- The texts of trees. -/
def sources : List Tree → List Text
  | [] => []
  | e :: es => e.source :: sources es

end

mutual

/-- What a tree means. -/
def expression : Tree → Expression
  | number literal => .number nowhere literal.value
  | string value => .string nowhere value
  | bool value => .bool nowhere value
  | null => .null nowhere
  | undefined => .undefined nowhere
  | array items => .array nowhere (expressions items)
  | identifier name => .identifier nowhere name.chars
  | unary operator _ operand => .unary nowhere operator operand.expression
  | binary operator left right => .binary nowhere operator left.expression right.expression
  | conditional test yes no => .conditional nowhere test.expression yes.expression no.expression
  | assign operator target value => .assign nowhere operator target.expression value.expression
  | call callee arguments => .call nowhere callee.expression (expressions arguments)
  | index object key => .index nowhere object.expression key.expression
  | member object name => .member nowhere object.expression name.chars
  | construct name arguments => .construct nowhere name.chars (expressions arguments)
  | group inner => inner.expression

/-- What trees mean. -/
def expressions : List Tree → List Expression
  | [] => []
  | e :: es => e.expression :: expressions es

end

/-- Trees between commas. -/
abbrev list (es : List Tree) : Text := Text.join (text ", ") (sources es)

theorem sources_eq_map (es : List Tree) : sources es = es.map source := by
  induction es with
  | nil => rfl
  | cons e es ih => rw [sources, ih, List.map_cons]

theorem expressions_eq_map (es : List Tree) : expressions es = es.map expression := by
  induction es with
  | nil => rfl
  | cons e es ih => rw [expressions, ih, List.map_cons]

end Tree

/-! ## Beginnings -/

/-- The text begins with a token of an expression, and with no word that a statement begins with. -/
structure Starts (w : Text) : Prop where
  head : ∃ c r, w = c :: r ∧ isGap c = false ∧ c ∉ ['/', '\x7b', ';', '=']
  word : ∀ t, EndsWord t → wordStart (w ++ t) ∉ sentenceWords.flatten

namespace Starts

variable {w : Text}

theorem skip_append (h : Starts w) (t : Text) : skip (w ++ t) = w ++ t := by
  obtain ⟨c, r, rfl, hgap, hsign⟩ := h.head
  exact skip_cons_of_token hgap (fun heq => hsign (by simp [heq])) (r ++ t)

theorem length_pos (h : Starts w) : 0 < w.length := by
  obtain ⟨c, r, rfl, -⟩ := h.head
  exact Nat.succ_pos _

/-- What goes on behind a word of an expression does not change how it begins. -/
theorem append (h : Starts w) {c : Char} (hc : Text.isIdentifierChar c = false) (v : Text) :
    Starts (w ++ c :: v) := by
  obtain ⟨d, r, rfl, hgap, hsign⟩ := h.head
  refine ⟨⟨d, r ++ c :: v, rfl, hgap, hsign⟩, fun t _ => ?_⟩
  rw [List.append_assoc, List.cons_append]
  apply h.word
  rintro _ ⟨⟩
  exact hc

/-- A sign begins no word. -/
theorem sign {c : Char} (hchar : Text.isIdentifierChar c = false) (hgap : isGap c = false)
    (hsign : c ∉ ['/', '\x7b', ';', '=']) (v : Text) : Starts (c :: v) := by
  refine ⟨⟨c, v, rfl, hgap, hsign⟩, fun t _ => ?_⟩
  rw [List.cons_append, wordStart, List.takeWhile_cons_of_neg (by simp [hchar])]
  decide

/-- A word that no statement begins with. -/
theorem ofWord (hstart : ∃ c r, w = c :: r ∧ Text.isIdentifierStart c = true)
    (hchars : ∀ c ∈ w, Text.isIdentifierChar c = true) (hw : w ∉ sentenceWords.flatten) :
    Starts w := by
  refine ⟨?_, fun t ht => by rwa [wordStart_append hchars ht]⟩
  obtain ⟨c, r, rfl, hstart⟩ := hstart
  refine ⟨c, r, rfl, (isGap_of_isIdentifierChar (hchars c (by simp))).1, fun hsign => ?_⟩
  -- none of the signs begins a word
  fin_cases hsign <;> exact absurd hstart (by decide)

/-- The words that statements begin with are reserved. -/
theorem ofIdentifier (hw : IsIdentifier w) : Starts w := by
  refine ofWord hw.start hw.chars fun hmem => hw.unreserved ?_
  exact (show ∀ x ∈ sentenceWords.flatten, x ∈ Token.keywords by decide) w hmem

theorem ofLiteral (l : Literal) : Starts l.source := by
  obtain ⟨c, r, hcons, hdigit | rfl⟩ := l.head_source
  · have hchar : Text.isIdentifierChar c = true := by
      simp [Text.isIdentifierChar, Char.isAlphanum, hdigit]
    refine ⟨⟨c, r, hcons, (isGap_of_isIdentifierChar hchar).1, fun hsign => ?_⟩, fun t _ => ?_⟩
    · fin_cases hsign <;> exact absurd hdigit (by decide)
    · rw [hcons]
      exact wordStart_notMem hdigit (r ++ t) (by decide)
  · rw [hcons]
    exact sign rfl rfl (by decide) r

theorem enclose {required level : Level} (h : Starts w) : Starts (enclose required level w) := by
  unfold Script.enclose
  split
  · exact sign rfl rfl (by decide) _
  · exact h

end Starts

/-- A tree begins like its first token. -/
theorem Tree.starts : ∀ e : Tree, Starts e.source
  | number l => by
    rw [source]
    exact .ofLiteral l
  | string _ | array _ | group _ => by
    rw [source]
    exact .sign rfl rfl (by decide) _
  | bool value => by
    rw [source]
    cases value <;>
      exact .ofWord ⟨_, _, rfl, rfl⟩ (List.all_eq_true.1 (by decide)) (by decide)
  | null | undefined => by
    rw [source]
    exact .ofWord ⟨_, _, rfl, rfl⟩ (List.all_eq_true.1 (by decide)) (by decide)
  | identifier name => by
    rw [source]
    exact .ofIdentifier name.isIdentifier
  | unary operator spaced operand => by
    rw [source]
    cases operator with
    | not | negate | plus => exact .sign rfl rfl (by decide) _
    -- the words among the operators end at the gap behind them
    | typeOf | await =>
      refine Starts.append (.ofWord ⟨_, _, rfl, rfl⟩ (List.all_eq_true.1 ?_) ?_) rfl _ <;> decide
  | binary operator left _ => by
    rw [source]
    exact left.starts.enclose.append rfl _
  | conditional test _ _ => by
    rw [source]
    exact test.starts.enclose.append rfl _
  | assign _ target _ => by
    rw [source]
    exact target.starts.enclose.append rfl _
  | call callee _ => by
    rw [source]
    exact callee.starts.enclose.append rfl _
  | index object _ => by
    rw [source]
    exact object.starts.enclose.append rfl _
  | member object _ => by
    rw [source]
    exact object.starts.enclose.append rfl _
  | construct _ _ => by
    rw [source]
    exact Starts.append (w := text "new")
      (.ofWord ⟨_, _, rfl, rfl⟩ (List.all_eq_true.1 (by decide)) (by decide)) rfl _

/-- A tree in a list is not longer than the list. -/
theorem Tree.length_le_list {e : Tree} {es : List Tree} (h : e ∈ es) :
    e.source.length ≤ (Text.join (text ", ") (sources es)).length := by
  apply Text.length_le_join
  rw [sources_eq_map]
  exact List.mem_map_of_mem h

/-- A list has no more trees than characters. -/
theorem Tree.count_le_list (es : List Tree) :
    es.length ≤ (Text.join (text ", ") (sources es)).length := by
  have h : (sources es).length ≤ (Text.join (text ", ") (sources es)).length := by
    apply Text.count_le_length_join
    rw [sources_eq_map]
    intro w hw
    obtain ⟨e, -, rfl⟩ := List.mem_map.1 hw
    obtain ⟨c, r, hcons, -⟩ := e.starts.head
    simp [hcons]
  rwa [sources_eq_map, List.length_map, ← sources_eq_map] at h

theorem length_le_enclose (required level : Level) (w : Text) :
    w.length ≤ (enclose required level w).length := by
  unfold enclose
  split
  · simp only [List.length_cons, List.length_append]
    omega
  · exact Nat.le_refl _

end Pseudocode.Script
