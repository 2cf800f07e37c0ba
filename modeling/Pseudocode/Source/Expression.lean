import Pseudocode.Text.Class

/-! # Expression text

Operands are kept as text. Three questions are asked of such a text, and all of them look at the
same view of it, a sequence of string literals, words and single signs:

* `Expression.imbalance?`  is every literal terminated and every bracket matched?
* `Expression.splitList`   which items do the commas outside literals and brackets separate?
* `Expression.rewrite`     what is the text in the operators of the script?

`chars_tokens` says that the view loses nothing.
-/

namespace Pseudocode.Expression

/-- One unit of expression text. -/
inductive Token where
  /-- A string literal with its quotes; an open one runs to the end of the text. -/
  | literal (chars : Text) (closed : Bool)
  /-- A letter or underscore and the letters, numbers and underscores after it. -/
  | word (chars : Text)
  /-- Any other character. -/
  | sign (char : Char)
  deriving DecidableEq, Repr

/-- The text that a token was read from. -/
def Token.chars : Token → Text
  | .literal t _ => t
  | .word t => t
  | .sign c => [c]

/-- A quotation mark that opens a literal. -/
def isQuote (c : Char) : Bool := c = '"' || c = '\''

/-- The rest of a literal up to its closing quote, what follows it, and whether there is one. A
    backslash takes the next character with it. -/
def splitLiteral (quote : Char) : Text → Text × Text × Bool
  | [] => ([], [], false)
  | ['\\'] => (['\\'], [], false)
  | '\\' :: c :: r =>
    let (body, rest, closed) := splitLiteral quote r
    ('\\' :: c :: body, rest, closed)
  | c :: r =>
    if c = quote then ([c], r, true)
    else
      let (body, rest, closed) := splitLiteral quote r
      (c :: body, rest, closed)

theorem splitLiteral_append (quote : Char) (t : Text) :
    (splitLiteral quote t).1 ++ (splitLiteral quote t).2.1 = t := by
  fun_induction splitLiteral quote t <;> simp_all

theorem splitLiteral_length (quote : Char) (t : Text) :
    (splitLiteral quote t).2.1.length ≤ t.length := by
  have h := congrArg List.length (splitLiteral_append quote t)
  simp only [List.length_append] at h
  omega

/-- A character that starts a word. -/
def isWordStart (c : Char) : Bool := Text.isAlphabetic c || c = '_'

/-- The tokens of a text. -/
def tokens : Text → List Token
  | [] => []
  | c :: r =>
    if isQuote c then
      .literal (c :: (splitLiteral c r).1) (splitLiteral c r).2.2 :: tokens (splitLiteral c r).2.1
    else if isWordStart c then
      .word (c :: r.takeWhile Text.isNameChar) :: tokens (r.dropWhile Text.isNameChar)
    else .sign c :: tokens r
termination_by t => t.length
decreasing_by
  · have := splitLiteral_length c r
    simp only [List.length_cons]; omega
  · have := (List.dropWhile_suffix (p := Text.isNameChar) (l := r)).length_le
    simp only [List.length_cons]; omega
  · simp

/-- The tokens make up the text. -/
theorem chars_tokens (t : Text) : (tokens t).flatMap Token.chars = t := by
  fun_induction tokens t with
  | case1 => rfl
  | case2 c r _ ih =>
    simp only [List.flatMap_cons, Token.chars, ih, List.cons_append, splitLiteral_append]
  | case3 c r _ _ ih =>
    simp only [List.flatMap_cons, Token.chars, ih, List.cons_append,
      List.takeWhile_append_dropWhile]
  | case4 c r _ _ ih => simp only [List.flatMap_cons, Token.chars, ih, List.singleton_append]

/-! ## Balance -/

/-- What keeps an expression text from being complete. -/
inductive Imbalance where
  | unterminatedString
  /-- A closing bracket that does not match the innermost open one. -/
  | unmatched (close : Char)
  /-- The innermost bracket that is left open. -/
  | unclosed (opening : Char)
  deriving DecidableEq, Repr

/-- The wording of an imbalance. -/
def Imbalance.message : Imbalance → Text
  | .unterminatedString => text "unterminated string literal"
  | .unmatched c => text "unbalanced '" ++ [c, '\'']
  | .unclosed c => text "unclosed '" ++ [c, '\'']

/-- The opening bracket that a closing one matches. -/
def openingOf? (c : Char) : Option Char :=
  if c = ')' then some '(' else if c = ']' then some '[' else none

/-- An opening bracket. -/
def isOpening (c : Char) : Bool := c = '(' || c = '['

/-- The first imbalance of the tokens, with `stack` open before them, innermost first. -/
def imbalanceFrom? (stack : List Char) : List Token → Option Imbalance
  | [] => stack.head?.map .unclosed
  | .literal _ closed :: r => if closed then imbalanceFrom? stack r else some .unterminatedString
  | .word _ :: r => imbalanceFrom? stack r
  | .sign c :: r =>
    if isOpening c then imbalanceFrom? (c :: stack) r
    else match openingOf? c with
      | none => imbalanceFrom? stack r
      | some opening =>
        match stack with
        | [] => some (.unmatched c)
        | top :: below => if top = opening then imbalanceFrom? below r else some (.unmatched c)

/-- The first imbalance of a text, scanning from the left; none if it is balanced. -/
def imbalance? (t : Text) : Option Imbalance := imbalanceFrom? [] (tokens t)

/-- Every literal is terminated and the brackets nest. -/
def isBalanced (t : Text) : Bool := (imbalance? t).isNone

/-! ## Lists -/

/-- The segments between top-level commas, with `depth` brackets open and `current` read, in
    reverse, of the current segment. A closing bracket too many changes nothing. -/
def segmentsFrom (depth : Nat) (current : Text) : List Token → List Text
  | [] => [current.reverse]
  | .sign c :: r =>
    if isOpening c then segmentsFrom (depth + 1) (c :: current) r
    else if (openingOf? c).isSome then segmentsFrom (depth - 1) (c :: current) r
    else if c = ',' && depth = 0 then current.reverse :: segmentsFrom 0 [] r
    else segmentsFrom depth (c :: current) r
  | token :: r => segmentsFrom depth (token.chars.reverse ++ current) r

/-- The items of a list that is written with commas; a blank text has none. -/
def splitList (t : Text) : List Text :=
  match (segmentsFrom 0 [] (tokens t)).map Text.trim with
  | [[]] => []
  | items => items

/-! ## Rewriting -/

/-- Where an expression stands. A lone `=` compares in a condition only. -/
inductive Context where
  | value
  | condition
  deriving DecidableEq, Repr

/-- The script's spelling of a word operator or truth value, which is written in any case. -/
def wordOperator? (word : Text) : Option Text :=
  let word := Text.toLower word
  if word = text "and" then some (text "&&")
  else if word = text "or" then some (text "||")
  else if word = text "not" then some ['!']
  else if word = text "mod" then some ['%']
  else if word = text "true" then some word
  else if word = text "false" then some word
  else none

/-- A sign after which `=` is part of a longer operator. -/
def joinsEquals (c : Char) : Bool := c = '=' || c = '!' || c = '<' || c = '>'

/-- The script's spelling of a single sign between the signs `before` and `after`. -/
def rewriteSign (context : Context) (before : Option Char) (c : Char) (after : Option Token) : Text :=
  if c = '≠' then text "!="
  else if c = '≤' then text "<="
  else if c = '≥' then text ">="
  else if c = '=' && context = .condition && !before.any joinsEquals && after != some (.sign '=') then
    text "=="
  else [c]

/-- The script's spelling of tokens; `before` is the sign directly before them, if any. Words
    after a point are member names. -/
def rewriteTokens (context : Context) (before : Option Char) : List Token → Text
  | [] => []
  | .literal t _ :: r => t ++ rewriteTokens context none r
  | .word w :: r =>
    let written := if before = some '.' then w else (wordOperator? w).getD w
    written ++ rewriteTokens context none r
  | .sign '<' :: .sign '>' :: r => text "!=" ++ rewriteTokens context (some '>') r
  | .sign c :: r => rewriteSign context before c r.head? ++ rewriteTokens context (some c) r

/-- The expression in the operators of the script. -/
def rewrite (context : Context) (t : Text) : Text :=
  rewriteTokens context none (tokens (Text.trim t))

end Pseudocode.Expression
