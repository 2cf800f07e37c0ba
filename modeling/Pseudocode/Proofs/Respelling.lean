import Pseudocode.Proofs.InputCalls

/-!
# Rewriting respells tokens

The text of an expression is rewritten token by token: operators that are words become signs, truth values
become lower case, comparison signs take the spelling of the script. What is written is read back as
exactly these tokens, so no two of them run together, none is split, and no literal is opened or closed.

* `Respelled`              the spelling of a sequence of tokens in the script, one case for each kind
* `tokens_flatMap_chars`   tokens that keep apart are read back from their text
* `rewrite_respells`       the tokens of a rewritten text, and so its literals and its words
-/

namespace Pseudocode.Expression

/-! ## Literals and words -/

/-- The text of a string literal. -/
def Token.literal? : Token → Option Text
  | .literal t _ => some t
  | .word _ | .sign _ => none

/-- The text of a word. -/
def Token.word? : Token → Option Text
  | .word w => some w
  | .literal _ _ | .sign _ => none

/-- The string literals of a text with their quotes. -/
def literals (t : Text) : List Text := (tokens t).filterMap Token.literal?

/-- The words of a text outside its string literals. -/
def words (t : Text) : List Text := (tokens t).filterMap Token.word?

/-- A word where it stands. -/
structure PlacedWord where
  chars : Text
  /-- Whether a point stands directly before the word, which makes it the name of a member. -/
  isMember : Bool
  deriving DecidableEq, Repr

/-- The words of tokens where they stand; `before` is the sign directly before the tokens, if any. -/
def placedWords (before : Option Char) : List Token → List PlacedWord
  | [] => []
  | .literal _ _ :: r => placedWords none r
  | .word w :: r => ⟨w, before = some '.'⟩ :: placedWords none r
  | .sign c :: r => placedWords (some c) r

/-- The operators that are words, with the signs of the script for them. -/
def operatorWords : List (Text × Text) :=
  [(text "and", text "&&"), (text "or", text "||"), (text "not", text "!"), (text "mod", text "%")]

/-- The truth values. -/
def truthWords : List Text := [text "true", text "false"]

/-- The signs for comparisons that the script has no such sign for, with those that it has. -/
def comparisonSigns : List (Char × Text) := [('≠', text "!="), ('≤', text "<="), ('≥', text ">=")]

/-- What the script has for a word. An operator is no word there, and truth values are in lower case. The
    name of a member is neither. -/
def PlacedWord.inScript? (w : PlacedWord) : Option Text :=
  if w.isMember then some w.chars
  else if (operatorWords.map Prod.fst).contains (Text.toLower w.chars) then none
  else if truthWords.contains (Text.toLower w.chars) then some (Text.toLower w.chars)
  else some w.chars

/-! ## Spelling -/

/-- An equals sign between the sign `before` and the tokens `after` is part of no longer operator. -/
def IsLone (before : Option Char) (after : List Token) : Prop :=
  (∀ c ∈ before, c ∉ ['=', '!', '<', '>']) ∧ after.head? ≠ some (.sign '=')

/-- `Respelled context before ts us`: behind the sign `before`, if any, the tokens `ts` are `us` in the
    script. -/
inductive Respelled (context : Context) : Option Char → List Token → List Token → Prop where
  | nil {before : Option Char} : Respelled context before [] []
  /-- A literal stays, character for character. -/
  | literal {before : Option Char} {t : Text} {closed : Bool} {ts us : List Token}
      (rest : Respelled context none ts us) :
      Respelled context before (.literal t closed :: ts) (.literal t closed :: us)
  /-- The name of a member and a word without a meaning stay. -/
  | word {before : Option Char} {w : Text} {ts us : List Token}
      (kept : before = some '.' ∨ Text.toLower w ∉ operatorWords.map Prod.fst ++ truthWords)
      (rest : Respelled context none ts us) : Respelled context before (.word w :: ts) (.word w :: us)
  | truth {before : Option Char} {w : Text} {ts us : List Token} (hbefore : before ≠ some '.')
      (htruth : Text.toLower w ∈ truthWords) (rest : Respelled context none ts us) :
      Respelled context before (.word w :: ts) (.word (Text.toLower w) :: us)
  | operator {before : Option Char} {w signs : Text} {ts us : List Token} (hbefore : before ≠ some '.')
      (hsigns : (Text.toLower w, signs) ∈ operatorWords) (rest : Respelled context none ts us) :
      Respelled context before (.word w :: ts) (signs.map .sign ++ us)
  /-- Less and greater side by side mean that the operands differ. -/
  | differ {before : Option Char} {ts us : List Token} (rest : Respelled context (some '>') ts us) :
      Respelled context before (.sign '<' :: .sign '>' :: ts) (.sign '!' :: .sign '=' :: us)
  | comparison {before : Option Char} {c : Char} {signs : Text} {ts us : List Token}
      (hsigns : (c, signs) ∈ comparisonSigns) (rest : Respelled context (some c) ts us) :
      Respelled context before (.sign c :: ts) (signs.map .sign ++ us)
  /-- In a condition an equals sign compares. -/
  | equality {before : Option Char} {ts us : List Token} (hcontext : context = .condition)
      (hlone : IsLone before ts) (rest : Respelled context (some '=') ts us) :
      Respelled context before (.sign '=' :: ts) (.sign '=' :: .sign '=' :: us)
  /-- Every other character stays. -/
  | sign {before : Option Char} {c : Char} {ts us : List Token}
      (hcomparison : c ∉ comparisonSigns.map Prod.fst)
      (hdiffer : c = '<' → ts.head? ≠ some (.sign '>'))
      (hequality : c = '=' → context = .condition → ¬ IsLone before ts)
      (rest : Respelled context (some c) ts us) :
      Respelled context before (.sign c :: ts) (.sign c :: us)

variable {context : Context} {before : Option Char} {ts us : List Token}

/-! ## What is written -/

theorem wordOperator?_of_mem {w signs : Text} (h : (Text.toLower w, signs) ∈ operatorWords) :
    wordOperator? w = some signs := by
  simp only [operatorWords, List.mem_cons, List.not_mem_nil, or_false, Prod.mk.injEq] at h
  rcases h with ⟨hw, rfl⟩ | ⟨hw, rfl⟩ | ⟨hw, rfl⟩ | ⟨hw, rfl⟩ <;> rw [wordOperator?, hw] <;> rfl

theorem wordOperator?_of_truth {w : Text} (h : Text.toLower w ∈ truthWords) :
    wordOperator? w = some (Text.toLower w) := by
  simp only [truthWords, List.mem_cons, List.not_mem_nil, or_false] at h
  rcases h with hw | hw <;> rw [wordOperator?, hw] <;> rfl

theorem wordOperator?_of_not_mem {w : Text}
    (h : Text.toLower w ∉ operatorWords.map Prod.fst ++ truthWords) : wordOperator? w = none := by
  simp only [operatorWords, truthWords, List.map_cons, List.map_nil, List.cons_append, List.nil_append,
    List.mem_cons, List.not_mem_nil, or_false, not_or] at h
  simp only [wordOperator?, h, if_false]

theorem isLone_iff {after : List Token} : IsLone before after ↔
    before.any joinsEquals = false ∧ after.head? ≠ some (.sign '=') := by
  refine and_congr_left fun _ => ?_
  cases before <;> simp [joinsEquals, and_assoc]

/-- What is written for tokens is the text of their spelling in the script. -/
theorem Respelled.rewriteTokens_eq (h : Respelled context before ts us) :
    rewriteTokens context before ts = us.flatMap Token.chars := by
  -- the cases of the relation are the branches of the function
  induction h with
  | nil => rfl
  | literal _ ih => rw [rewriteTokens, ih, List.flatMap_cons, Token.chars]
  | @word before w ts us kept _ ih =>
    rw [rewriteTokens, ih, List.flatMap_cons, Token.chars]
    rcases kept with hmember | hkept
    · rw [if_pos hmember]
    · rw [wordOperator?_of_not_mem hkept, Option.getD_none, ite_self]
  | truth hbefore htruth _ ih =>
    rw [rewriteTokens, ih, if_neg hbefore, wordOperator?_of_truth htruth, List.flatMap_cons, Token.chars,
      Option.getD_some]
  | operator hbefore hsigns _ ih =>
    rw [rewriteTokens, ih, if_neg hbefore, wordOperator?_of_mem hsigns, List.flatMap_append, Option.getD_some]
    simp [Token.chars, List.flatMap_map]
  | differ _ ih =>
    rw [rewriteTokens, ih]
    rfl
  | @comparison before c signs ts us hsigns _ ih =>
    have hc : c ≠ '<' := by
      rintro rfl
      simp [comparisonSigns] at hsigns
    rw [rewriteTokens, ih, List.flatMap_append]
    · simp only [comparisonSigns, List.mem_cons, List.not_mem_nil, or_false, Prod.mk.injEq] at hsigns
      rcases hsigns with ⟨rfl, rfl⟩ | ⟨rfl, rfl⟩ | ⟨rfl, rfl⟩ <;> rfl
    · exact fun _ _ h => hc h
  | equality hcontext hlone _ ih =>
    obtain ⟨hbefore, hafter⟩ := isLone_iff.1 hlone
    rw [rewriteTokens, ih]
    · simp [rewriteSign, hcontext, hbefore, hafter, Token.chars]
      rfl
    · simp
  | @sign before c ts us hcomparison hdiffer hequality _ ih =>
    simp only [comparisonSigns, List.map_cons, List.map_nil, List.mem_cons, List.not_mem_nil, or_false,
      not_or] at hcomparison
    rw [rewriteTokens, ih, List.flatMap_cons, Token.chars]
    · rw [rewriteSign, if_neg hcomparison.1, if_neg hcomparison.2.1, if_neg hcomparison.2.2, if_neg]
      simp only [Bool.and_eq_true, decide_eq_true_eq, Bool.not_eq_true', bne_iff_ne]
      rintro ⟨⟨⟨hc, hcontext⟩, hbefore⟩, hafter⟩
      exact hequality hc hcontext (isLone_iff.2 ⟨hbefore, hafter⟩)
    · intro r' hts hc
      exact hdiffer hc (by rw [hts]; rfl)

/-- Every sequence of tokens has a spelling in the script. -/
theorem exists_respelled (context : Context) (before : Option Char) (ts : List Token) :
    ∃ us, Respelled context before ts us := by
  -- the function's own cases; words and signs are told apart further
  fun_induction rewriteTokens context before ts with
  | case1 before => exact ⟨[], .nil⟩
  | case2 before t closed r ih =>
    obtain ⟨us, hus⟩ := ih
    exact ⟨_, .literal hus⟩
  | case3 before w r written ih =>
    obtain ⟨us, hus⟩ := ih
    by_cases hmember : before = some '.'
    · exact ⟨_, .word (.inl hmember) hus⟩
    by_cases hoperator : Text.toLower w ∈ operatorWords.map Prod.fst
    · obtain ⟨⟨_, signs⟩, hsigns, rfl⟩ := List.mem_map.1 hoperator
      exact ⟨_, .operator hmember hsigns hus⟩
    by_cases htruth : Text.toLower w ∈ truthWords
    · exact ⟨_, .truth hmember htruth hus⟩
    · exact ⟨_, .word (.inr (by simp [hoperator, htruth])) hus⟩
  | case4 before r ih =>
    obtain ⟨us, hus⟩ := ih
    exact ⟨_, .differ hus⟩
  | case5 before c r hpair ih =>
    obtain ⟨us, hus⟩ := ih
    by_cases hcomparison : c ∈ comparisonSigns.map Prod.fst
    · obtain ⟨⟨_, signs⟩, hsigns, rfl⟩ := List.mem_map.1 hcomparison
      exact ⟨_, .comparison hsigns hus⟩
    by_cases hequality : c = '=' ∧ context = .condition ∧ IsLone before r
    · obtain ⟨rfl, hcontext, hlone⟩ := hequality
      exact ⟨_, .equality hcontext hlone hus⟩
    · refine ⟨_, .sign hcomparison (fun hc hhead => ?_)
        (fun hc hcontext hlone => hequality ⟨hc, hcontext, hlone⟩) hus⟩
      obtain ⟨r', hr'⟩ := List.head?_eq_some_iff.1 hhead
      exact hpair r' hr' hc

/-! ## Reading what is written -/

/-- The text of the tokens begins with no character that goes on with a word. -/
def StopsWord (ts : List Token) : Prop := ∀ c ∈ (ts.flatMap Token.chars).head?, Text.isNameChar c = false

/-- The tokens keep apart: a word stands in front of no character that goes on with it, and a literal is
    closed unless it is the last token. -/
inductive IsLexed : List Token → Prop where
  | nil : IsLexed []
  | literal {quote : Char} {body : Text} {closed : Bool} {ts : List Token} (hquote : isQuote quote = true)
      (hbody : splitLiteral quote body = (body, [], closed)) (hopen : closed = false → ts = [])
      (rest : IsLexed ts) : IsLexed (.literal (quote :: body) closed :: ts)
  | word {c : Char} {w : Text} {ts : List Token} (hquote : isQuote c = false)
      (hstart : isWordStart c = true) (hname : ∀ d ∈ w, Text.isNameChar d = true) (hends : StopsWord ts)
      (rest : IsLexed ts) : IsLexed (.word (c :: w) :: ts)
  | sign {c : Char} {ts : List Token} (hquote : isQuote c = false) (hstart : isWordStart c = false)
      (rest : IsLexed ts) : IsLexed (.sign c :: ts)

theorem ne_backslash_of_isQuote {c : Char} (h : isQuote c = true) : c ≠ '\\' := by
  rintro rfl
  exact absurd h (by decide)

/-- What is read as a literal is read as this literal on its own. -/
theorem splitLiteral_self {quote : Char} (hescape : quote ≠ '\\') (t : Text) :
    splitLiteral quote (splitLiteral quote t).1 =
      ((splitLiteral quote t).1, [], (splitLiteral quote t).2.2) := by
  fun_induction splitLiteral quote t with
  | case1 => rfl
  | case2 => rfl
  | case3 c r body rest closed hread ih =>
    rw [hread] at ih
    rw [splitLiteral, ih]
  | case4 r => exact splitLiteral_quote hescape []
  | case5 c r hlone hpair hquote body rest closed hread ih =>
    rw [hread] at ih
    have hc : c ≠ '\\' := by
      rintro rfl
      cases r with
      | nil => exact hlone rfl rfl
      | cons d r => exact hpair d r rfl rfl
    rw [splitLiteral_cons hc hquote, ih]

/-- Nothing is left behind an open literal. -/
theorem splitLiteral_rest_of_open {quote : Char} {t : Text} (h : (splitLiteral quote t).2.2 = false) :
    (splitLiteral quote t).2.1 = [] := by
  fun_induction splitLiteral quote t <;> simp_all

/-- The tokens of a text keep apart. -/
theorem isLexed_tokens (t : Text) : IsLexed (tokens t) := by
  fun_induction tokens t with
  | case1 => exact .nil
  | case2 c r hquote ih =>
    refine .literal hquote (splitLiteral_self (ne_backslash_of_isQuote hquote) r) (fun hopen => ?_) ih
    rw [splitLiteral_rest_of_open hopen, tokens]
  | case3 c r hquote hword ih =>
    refine .word (by simpa using hquote) hword (fun d hd => List.mem_takeWhile_imp hd) ?_ ih
    intro d hd
    rw [chars_tokens] at hd
    have hnot := List.head?_dropWhile_not Text.isNameChar r
    rw [Option.mem_def.1 hd] at hnot
    simpa using hnot
  | case4 c r hquote hword ih => exact .sign (by simpa using hquote) (by simpa using hword) ih

/-- Tokens that keep apart are read back from their text. -/
theorem tokens_flatMap_chars (h : IsLexed ts) : tokens (ts.flatMap Token.chars) = ts := by
  induction h with
  | nil => rw [List.flatMap_nil, tokens]
  | @literal quote body closed ts hquote hbody hopen _ ih =>
    -- a literal that is not closed is the last token
    have hsplit : splitLiteral quote (body ++ ts.flatMap Token.chars) =
        (body, ts.flatMap Token.chars, closed) := by
      cases closed with
      | true =>
        rw [splitLiteral_append_of_closed (ne_backslash_of_isQuote hquote) (by rw [hbody]), hbody, List.nil_append]
      | false => rw [hopen rfl, List.flatMap_nil, List.append_nil, hbody]
    rw [List.flatMap_cons, Token.chars, List.cons_append, tokens, if_pos hquote, hsplit, ih]
  | @word c w ts hquote hstart hname hends _ ih =>
    obtain ⟨htake, hdrop⟩ := span_append (isNameChar_of_isWordStart hstart) (r := w) (.inr hends)
    rw [List.takeWhile_eq_self_iff.2 hname] at htake
    rw [List.dropWhile_eq_nil_iff.2 hname, List.nil_append] at hdrop
    rw [List.flatMap_cons, Token.chars, List.cons_append, tokens, if_neg (by simp [hquote]), if_pos hstart,
      htake, hdrop, ih]
  | @sign c ts hquote hstart _ ih =>
    rw [List.flatMap_cons, Token.chars, List.singleton_append, tokens, if_neg (by simp [hquote]),
      if_neg (by simp [hstart]), ih]

/-- The characters of the operators of the script. -/
def operatorChars : List Char := ['&', '|', '!', '%', '=', '<', '>']

theorem sign_of_mem_operatorChars {c : Char} (h : c ∈ operatorChars) :
    isQuote c = false ∧ Text.isNameChar c = false := by
  have hall : operatorChars.all (fun c => !isQuote c && !Text.isNameChar c) = true := by decide
  simpa using List.all_eq_true.1 hall c h

/-- An operator of the script. -/
def AreSigns (signs : Text) : Prop := signs ≠ [] ∧ signs ⊆ operatorChars

instance (signs : Text) : Decidable (AreSigns signs) :=
  inferInstanceAs (Decidable (signs ≠ [] ∧ signs ⊆ operatorChars))

theorem areSigns_of_operator {w signs : Text} (h : (w, signs) ∈ operatorWords) : AreSigns signs :=
  (by decide : ∀ p ∈ operatorWords, AreSigns p.2) _ h

theorem areSigns_of_comparison {c : Char} {signs : Text} (h : (c, signs) ∈ comparisonSigns) :
    AreSigns signs :=
  (by decide : ∀ p ∈ comparisonSigns, AreSigns p.2) _ h

theorem areSigns_differ : AreSigns (text "!=") := by decide

theorem areSigns_equality : AreSigns (text "==") := by decide

theorem AreSigns.stopsWord {signs : Text} (h : AreSigns signs) (ts : List Token) :
    StopsWord (signs.map .sign ++ ts) := by
  obtain ⟨c, signs, rfl⟩ := List.exists_cons_of_ne_nil h.1
  rintro _ ⟨⟩
  exact (sign_of_mem_operatorChars (h.2 (List.mem_cons_self ..))).2

theorem AreSigns.isLexed {signs : Text} (h : AreSigns signs) (hts : IsLexed ts) :
    IsLexed (signs.map .sign ++ ts) := by
  obtain ⟨-, h⟩ := h
  induction signs with
  | nil => exact hts
  | cons c signs ih =>
    obtain ⟨hc, hsigns⟩ := List.cons_subset.1 h
    obtain ⟨hquote, hname⟩ := sign_of_mem_operatorChars hc
    refine .sign hquote ?_ (ih hsigns)
    by_contra hstart
    rw [Bool.not_eq_false] at hstart
    rw [isNameChar_of_isWordStart hstart] at hname
    cases hname

/-- The script's spelling ends a word where the tokens do. -/
theorem Respelled.stopsWord (h : Respelled context before ts us) (hlexed : IsLexed ts) (hends : StopsWord ts) :
    StopsWord us := by
  -- a list that begins with a word does not stop one
  have hword {w : Text} {ts : List Token} (hlexed : IsLexed (.word w :: ts))
      (hends : StopsWord (.word w :: ts)) : False := by
    cases hlexed with | word _ hstart _ _ _
    have hname := hends _ rfl
    rw [isNameChar_of_isWordStart hstart] at hname
    cases hname
  cases h with
  | nil => exact hends
  | literal _ =>
    cases hlexed
    exact hends
  | word => exact (hword hlexed hends).elim
  | truth => exact (hword hlexed hends).elim
  | operator => exact (hword hlexed hends).elim
  | differ => exact areSigns_differ.stopsWord _
  | comparison hsigns => exact (areSigns_of_comparison hsigns).stopsWord _
  | equality => exact areSigns_equality.stopsWord _
  | sign => exact hends

/-- The script's spelling keeps apart what was apart. -/
theorem Respelled.isLexed (h : Respelled context before ts us) (hlexed : IsLexed ts) : IsLexed us := by
  -- a word gives way to a word or to signs, and none of these runs into its neighbours
  induction h with
  | nil => exact hlexed
  | literal hrest ih =>
    cases hlexed with | literal hquote hbody hopen hlexed
    refine .literal hquote hbody (fun hclosed => ?_) (ih hlexed)
    obtain rfl := hopen hclosed
    cases hrest
    rfl
  | word _ hrest ih =>
    cases hlexed with | word hquote hstart hname hends hlexed
    exact .word hquote hstart hname (hrest.stopsWord hlexed hends) (ih hlexed)
  | truth _ htruth hrest ih =>
    cases hlexed with | word _ _ _ hends hlexed
    have hends := hrest.stopsWord hlexed hends
    have hletters (w : Text) (hw : w.all Text.isNameChar = true) : ∀ d ∈ w, Text.isNameChar d = true :=
      List.all_eq_true.1 hw
    simp only [truthWords, List.mem_cons, List.not_mem_nil, or_false] at htruth
    rcases htruth with hw | hw <;> rw [hw]
    · exact .word (c := 't') (w := text "rue") rfl rfl (hletters _ (by decide)) hends (ih hlexed)
    · exact .word (c := 'f') (w := text "alse") rfl rfl (hletters _ (by decide)) hends (ih hlexed)
  | operator _ hsigns _ ih =>
    cases hlexed with | word _ _ _ _ hlexed
    exact (areSigns_of_operator hsigns).isLexed (ih hlexed)
  | differ _ ih =>
    cases hlexed with | sign _ _ hlexed
    cases hlexed with | sign _ _ hlexed
    exact areSigns_differ.isLexed (ih hlexed)
  | comparison hsigns _ ih =>
    cases hlexed with | sign _ _ hlexed
    exact (areSigns_of_comparison hsigns).isLexed (ih hlexed)
  | equality _ _ _ ih =>
    cases hlexed with | sign _ _ hlexed
    exact areSigns_equality.isLexed (ih hlexed)
  | sign _ _ _ _ ih =>
    cases hlexed with | sign hquote hstart hlexed
    exact .sign hquote hstart (ih hlexed)

/-- The tokens of a rewritten text are the spelling of its tokens. -/
theorem tokens_rewrite_iff {t : Text} {us : List Token} :
    Respelled context none (tokens (Text.trim t)) us ↔ tokens (rewrite context t) = us := by
  have hread {us : List Token} (h : Respelled context none (tokens (Text.trim t)) us) :
      tokens (rewrite context t) = us := by
    rw [rewrite, h.rewriteTokens_eq, tokens_flatMap_chars (h.isLexed (isLexed_tokens _))]
  refine ⟨hread, ?_⟩
  rintro rfl
  obtain ⟨us, hus⟩ := exists_respelled context none (tokens (Text.trim t))
  rwa [hread hus]

/-! ## Literals and words of what is written -/

private theorem filterMap_map_sign {α : Type} {f : Token → Option α} (hf : ∀ c, f (.sign c) = none)
    (signs : Text) : (signs.map Token.sign).filterMap f = [] := by
  simp [List.filterMap_map, hf]

/-- The script has the same literals. -/
theorem Respelled.literals_eq (h : Respelled context before ts us) :
    us.filterMap Token.literal? = ts.filterMap Token.literal? := by
  induction h with
  | nil => rfl
  | literal _ ih => rw [List.filterMap_cons, List.filterMap_cons, ih]
  | word _ _ ih => exact ih
  | truth _ _ _ ih => exact ih
  | operator _ _ _ ih => rw [List.filterMap_append, filterMap_map_sign fun _ => rfl]; exact ih
  | differ _ ih => exact ih
  | comparison _ _ ih => rw [List.filterMap_append, filterMap_map_sign fun _ => rfl]; exact ih
  | equality _ _ _ ih => exact ih
  | sign _ _ _ _ ih => exact ih

/-- Placed words are the words. -/
theorem map_chars_placedWords (before : Option Char) (ts : List Token) :
    (placedWords before ts).map PlacedWord.chars = ts.filterMap Token.word? := by
  fun_induction placedWords before ts with
  | case1 => rfl
  | case2 _ _ _ _ ih => exact ih
  | case3 before w r ih => exact congrArg (w :: ·) ih
  | case4 _ _ _ ih => exact ih

/-- The words of the script are what it has for the words. -/
theorem Respelled.words_eq (h : Respelled context before ts us) :
    us.filterMap Token.word? = (placedWords before ts).filterMap PlacedWord.inScript? := by
  -- a member stays as it is, a truth value is put in lower case, an operator leaves no word
  induction h with
  | nil => rfl
  | literal _ ih => exact ih
  | @word before w ts us kept _ ih =>
    have hw : PlacedWord.inScript? ⟨w, before = some '.'⟩ = some w := by
      rcases kept with rfl | hkept
      · rfl
      · simp only [List.mem_append, not_or] at hkept
        simp [PlacedWord.inScript?, hkept]
    rw [placedWords, List.filterMap_cons_some hw, ← ih]
    rfl
  | @truth before w ts us hbefore htruth _ ih =>
    have hoperator : Text.toLower w ∉ operatorWords.map Prod.fst :=
      (by decide : ∀ v ∈ truthWords, v ∉ operatorWords.map Prod.fst) _ htruth
    have hw : PlacedWord.inScript? ⟨w, before = some '.'⟩ = some (Text.toLower w) := by
      simp [PlacedWord.inScript?, hbefore, hoperator, htruth]
    rw [placedWords, List.filterMap_cons_some hw, ← ih]
    rfl
  | @operator before w signs ts us hbefore hsigns _ ih =>
    have hw : PlacedWord.inScript? ⟨w, before = some '.'⟩ = none := by
      rw [PlacedWord.inScript?, if_neg (by simpa using hbefore),
        if_pos (List.contains_iff_mem.2 (List.mem_map_of_mem hsigns))]
    rw [placedWords, List.filterMap_cons_none hw, ← ih, List.filterMap_append,
      filterMap_map_sign fun _ => rfl, List.nil_append]
  | differ _ ih => exact ih
  | comparison _ _ ih => rw [List.filterMap_append, filterMap_map_sign fun _ => rfl]; exact ih
  | equality _ _ _ ih => exact ih
  | sign _ _ _ _ ih => exact ih

/-! ## White space around the text -/

/-- Only a point makes the name of a member of a word. -/
theorem placedWords_of_ne {before : Option Char} (h : before ≠ some '.') (ts : List Token) :
    placedWords before ts = placedWords none ts := by
  cases ts with
  | nil => rfl
  | cons token ts =>
    cases token with
    | word w => simp [placedWords, h]
    | literal | sign => rfl

theorem placedWords_blanks_append {b : Text} (hb : ∀ c ∈ b, Text.isBlank c = true) {before : Option Char}
    (h : before ≠ some '.') (t : Text) :
    placedWords before (tokens (b ++ t)) = placedWords none (tokens t) := by
  induction b generalizing before with
  | nil => exact placedWords_of_ne h _
  | cons c b ih =>
    obtain ⟨hc, hb⟩ := List.forall_mem_cons.1 hb
    rw [List.cons_append, tokens_blank hc, placedWords, ih hb]
    rintro ⟨⟩
    exact absurd hc (by decide)

theorem placedWords_concat_blank {c : Char} (hc : Text.isBlank c = true) (before : Option Char) (t : Text) :
    placedWords before (tokens (t ++ [c])) = placedWords before (tokens t) := by
  obtain ⟨hquote, hname, -⟩ := meaningless_of_isBlank hc
  fun_induction tokens t generalizing before with
  | case1 =>
    rw [List.nil_append, tokens_blank hc, tokens]
    rfl
  | case2 d r hd ih =>
    have hne : c ≠ d := by
      rintro rfl
      rw [hd] at hquote
      cases hquote
    rw [List.cons_append, tokens, if_pos hd, placedWords, placedWords]
    cases hopen : (splitLiteral d r).2.2 with
    | true => rw [splitLiteral_append_of_closed (ne_backslash_of_isQuote hd) hopen, ih]
    | false =>
      -- the literal stays open, so nothing is left to be a word
      rw [splitLiteral_rest_of_open (splitLiteral_concat_of_open hne hopen), splitLiteral_rest_of_open hopen]
  | case3 d r hd hword ih =>
    have happart : Apart (d :: r) [c] := .inr (by simpa using hname)
    obtain ⟨htake, hdrop⟩ := span_append (isNameChar_of_isWordStart hword) happart
    rw [List.cons_append, tokens, if_neg hd, if_pos hword, htake, hdrop, placedWords, placedWords, ih]
  | case4 d r hd hword ih =>
    rw [List.cons_append, tokens, if_neg hd, if_neg hword, placedWords, placedWords, ih]

theorem placedWords_append_blanks {b : Text} (hb : ∀ c ∈ b, Text.isBlank c = true) (before : Option Char)
    (t : Text) : placedWords before (tokens (t ++ b)) = placedWords before (tokens t) := by
  induction b generalizing t with
  | nil => rw [List.append_nil]
  | cons c b ih =>
    obtain ⟨hc, hb⟩ := List.forall_mem_cons.1 hb
    rw [← List.singleton_append, ← List.append_assoc, ih hb, placedWords_concat_blank hc]

/-- Trimming takes no word away, and none comes to stand behind a point by it. -/
theorem placedWords_trim (t : Text) :
    placedWords none (tokens (Text.trim t)) = placedWords none (tokens t) := by
  obtain ⟨blanks, hblanks, ht⟩ := Text.exists_trim_append t
  conv_rhs => rw [← ht, placedWords_blanks_append (fun c hc => Text.isBlank_of_mem_leadingBlanks hc) (by simp),
    placedWords_append_blanks hblanks]

/-! ## Rewritten texts -/

/-- What is written for the text of an expression is read as the spelling of its tokens in the script, which
    `Respelled` describes, and as no other tokens. So it has the same string literals, and its words are those
    of the text without the operators, and with the truth values in lower case. -/
theorem rewrite_respells (context : Context) (t : Text) :
    literals (rewrite context t) = literals (Text.trim t) ∧
    (placedWords none (tokens t)).map PlacedWord.chars = words t ∧
    words (rewrite context t) = (placedWords none (tokens t)).filterMap PlacedWord.inScript? ∧
    ∀ us, Respelled context none (tokens (Text.trim t)) us ↔ tokens (rewrite context t) = us := by
  have hus : Respelled context none (tokens (Text.trim t)) (tokens (rewrite context t)) :=
    tokens_rewrite_iff.2 rfl
  refine ⟨hus.literals_eq, map_chars_placedWords none _, ?_, fun us => tokens_rewrite_iff⟩
  rw [words, hus.words_eq, placedWords_trim]

/-- Signs are put between words and around literals, and the name of a member stays. -/
example : words (rewrite .condition (text "a.not<>b And'x or'=TRUE≤c")) =
      [text "a", text "not", text "b", text "true", text "c"] ∧
    literals (rewrite .condition (text "a.not<>b And'x or'=TRUE≤c")) = [text "'x or'"] := by
  decide +kernel

end Pseudocode.Expression
