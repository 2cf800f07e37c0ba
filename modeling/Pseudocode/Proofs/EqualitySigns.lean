import Pseudocode.Proofs.Brackets

/-!
# Equality signs of a condition

A condition compares and assigns nothing. An equals sign that stands alone is doubled when a condition is
rewritten, and one that is part of a longer operator is kept as it is. Which of the two it is, is decided by its
neighbours in the source; its neighbours in the script may be others, since comparison signs, words and the sign
pair for unequal operands are spelled differently there.

* `IsOutside`, `IsJoined`          where an equals sign stands, and what stands beside it
* `Respelled.compares`             no equals sign of the script stands alone
* `contributions`                  what each token contributes to the rewritten text
* `exists_contributions_append`    what stands behind a token changes what it contributes for one operator only
* `rewrite_condition_compares`     the equality signs of a rewritten condition
-/

namespace Pseudocode

/-! ## White space around a character -/

namespace Text

variable {s t w : Text} {c : Char}

theorem trimStart_append_cons (hc : isBlank c = false) (s t : Text) :
    trimStart (s ++ c :: t) = trimStart s ++ c :: t := by
  rw [trimStart, trimStart, List.dropWhile_append]
  split
  · next hblank =>
    rw [List.isEmpty_iff.1 hblank, List.dropWhile_cons_of_neg (by simp [hc])]
    rfl
  · rfl

theorem trimEnd_append_cons (hc : isBlank c = false) (s t : Text) :
    trimEnd (s ++ c :: t) = s ++ c :: trimEnd t := by
  have hstart := trimStart_append_cons hc t.reverse s.reverse
  rw [trimStart, trimStart] at hstart
  rw [trimEnd, trimEnd, List.reverse_append, List.reverse_cons, List.append_assoc, List.singleton_append, hstart]
  simp

/-- White space is taken off in front of other characters and behind them. -/
theorem trim_append_append (hne : w ≠ []) (hw : ∀ c ∈ w, isBlank c = false) (s t : Text) :
    trim (s ++ w ++ t) = trimStart s ++ w ++ trimEnd t := by
  have hstart : trimStart (s ++ w ++ t) = trimStart s ++ w ++ t := by
    obtain ⟨c, r, rfl⟩ := List.exists_cons_of_ne_nil hne
    rw [List.append_assoc, List.append_assoc, List.cons_append]
    exact trimStart_append_cons (hw c List.mem_cons_self) s (r ++ t)
  rw [trim, hstart]
  obtain rfl | ⟨u, c, rfl⟩ := List.eq_nil_or_concat w
  · exact absurd rfl hne
  · rw [List.concat_eq_append, List.append_assoc, List.append_assoc, List.append_assoc, List.singleton_append,
      ← List.append_assoc, trimEnd_append_cons (hw c (by simp))]
    simp

theorem getLast?_trimStart (hc : isBlank c = false) :
    (trimStart s).getLast? = some c ↔ s.getLast? = some c := by
  constructor
  · intro hlast
    obtain ⟨u, hu⟩ := List.getLast?_eq_some_iff.1 hlast
    obtain ⟨b, hb⟩ := trimStart_suffix s
    rw [← hb, hu, ← List.append_assoc]
    exact List.getLast?_concat
  · intro hlast
    obtain ⟨u, rfl⟩ := List.getLast?_eq_some_iff.1 hlast
    rw [trimStart_append_cons hc]
    exact List.getLast?_concat

end Text

namespace Expression

/-! ## Neighbours -/

/-- What stands behind `s` in a text stands outside of the literals. -/
def IsOutside (s : Text) : Prop := ∃ bs, HasBrackets s bs

/-- With this character directly in front of it, an equals sign is part of a longer operator. -/
def Joins (before : Option Char) : Prop := ∃ c ∈ before, c ∈ ['=', '!', '<', '>']

/-- An equals sign with `s` in front of it and `t` behind it is part of a longer operator. -/
def IsJoined (s t : Text) : Prop := Joins s.getLast? ∨ t.head? = some '='

/-- The sign directly behind tokens, if any; `before` is the sign directly before them. -/
def signBehind (before : Option Char) : List Token → Option Char
  | [] => before
  | .literal _ _ :: r => signBehind none r
  | .word _ :: r => signBehind none r
  | .sign c :: r => signBehind (some c) r

variable {s t w : Text} {c : Char} {context : Context} {before : Option Char} {ts us as : List Token}

theorem signBehind_append (before : Option Char) (as us : List Token) :
    signBehind before (as ++ us) = signBehind (signBehind before as) us := by
  fun_induction signBehind before as with
  | case1 => rfl
  | case2 _ _ _ _ ih => exact ih
  | case3 _ _ _ ih => exact ih
  | case4 _ _ _ ih => exact ih

theorem exists_of_signBehind (h : signBehind none as = some c) : ∃ bs, as = bs ++ [.sign c] := by
  obtain rfl | ⟨bs, token, rfl⟩ := List.eq_nil_or_concat as
  · cases h
  rw [List.concat_eq_append, signBehind_append] at h
  cases token with
  | literal | word => cases h
  | sign d =>
    obtain rfl := Option.some.inj h
    exact ⟨bs, List.concat_eq_append⟩

theorem tokens_of_not_isNameChar (hquote : isQuote c = false) (hname : Text.isNameChar c = false) (t : Text) :
    tokens (c :: t) = .sign c :: tokens t := by
  apply Outline.tokens_sign hquote
  rw [← Bool.not_eq_true]
  intro hstart
  rw [isNameChar_of_isWordStart hstart] at hname
  cases hname

/-- A character outside of the literals that is neither quote nor part of a word is a token. -/
theorem IsOutside.tokens_append (h : IsOutside s) (hquote : isQuote c = false) (hname : Text.isNameChar c = false)
    (t : Text) : tokens (s ++ c :: t) = tokens s ++ .sign c :: tokens t := by
  have happart : Apart s (c :: t) := .inr (by simpa using hname)
  obtain ⟨bs, hs⟩ := h
  rw [Expression.tokens_append (isClosed_of_bracketsOf? (hasBrackets_iff.1 hs)) happart,
    tokens_of_not_isNameChar hquote hname]

/-- Only a quote ends a literal. -/
theorem IsOutside.of_concat (hquote : isQuote c = false) (h : IsOutside (s ++ [c])) : IsOutside s := by
  obtain ⟨bs, h⟩ := h
  generalize hw : s ++ [c] = w at h
  -- the last character is in the last part of the text, which is reached at the end only
  induction h generalizing s with
  | nil => simp at hw
  | @literal quote body t bs hliteral hbody rest ih =>
    obtain rfl | ⟨r, d, rfl⟩ := List.eq_nil_or_concat t
    · -- the literal stands at the end, and so does its quote
      rw [← List.cons_append] at hw
      obtain ⟨-, hc⟩ := List.append_inj' hw rfl
      rw [List.singleton_inj.1 hc, hliteral] at hquote
      cases hquote
    · rw [List.concat_eq_append, ← List.cons_append, ← List.cons_append, ← List.append_assoc] at hw
      obtain ⟨rfl, hd⟩ := List.append_inj' hw rfl
      obtain rfl := List.singleton_inj.1 hd
      obtain ⟨bs', hr⟩ := ih List.concat_eq_append.symm
      exact ⟨bs', .literal hliteral hbody hr⟩
  | @bracket d t bs hbracket rest ih =>
    cases s with
    | nil => exact ⟨[], .nil⟩
    | cons d' s =>
      obtain ⟨rfl, htail⟩ := List.cons.inj hw
      obtain ⟨bs', hs⟩ := ih htail
      exact ⟨_, .bracket hbracket hs⟩
  | @other d t bs hother hbracket rest ih =>
    cases s with
    | nil => exact ⟨[], .nil⟩
    | cons d' s =>
      obtain ⟨rfl, htail⟩ := List.cons.inj hw
      obtain ⟨bs', hs⟩ := ih htail
      exact ⟨_, .other hother hbracket hs⟩

/-- The sign behind the tokens of a text is its last character. -/
theorem IsOutside.signBehind_eq_some_iff (h : IsOutside s) (hquote : isQuote c = false)
    (hname : Text.isNameChar c = false) : signBehind none (tokens s) = some c ↔ s.getLast? = some c := by
  constructor
  · intro hbehind
    obtain ⟨bs, hbs⟩ := exists_of_signBehind hbehind
    have hs := chars_tokens s
    rw [hbs, List.flatMap_append] at hs
    rw [← hs]
    exact List.getLast?_concat
  · intro hlast
    obtain ⟨u, rfl⟩ := List.getLast?_eq_some_iff.1 hlast
    rw [(h.of_concat hquote).tokens_append hquote hname, signBehind_append, tokens]
    rfl

/-- The first token is a sign if it is the first character. -/
theorem head?_tokens_eq_some_iff (hquote : isQuote c = false) (hstart : isWordStart c = false) :
    (tokens t).head? = some (.sign c) ↔ t.head? = some c := by
  cases t with
  | nil => simp [tokens]
  | cons d t =>
    rw [tokens]
    split
    · next hd => simp; grind
    · split
      · simp; grind
      · simp

theorem not_isLone_iff : ¬ IsLone before us ↔ Joins before ∨ us.head? = some (.sign '=') := by
  rw [IsLone, not_and_or, not_ne_iff, Joins]
  simp only [not_forall, not_not, exists_prop]

/-- Among the tokens of a text an equals sign has the same neighbours. -/
theorem IsOutside.isJoined_iff (h : IsOutside s) :
    IsJoined s t ↔ ¬ IsLone (signBehind none (tokens s)) (tokens t) := by
  have hbefore : Joins s.getLast? ↔ Joins (signBehind none (tokens s)) := by
    apply exists_congr
    intro c
    apply and_congr_left
    intro hc
    have hneutral := sign_of_mem_operatorChars ((by decide : ['=', '!', '<', '>'] ⊆ operatorChars) hc)
    exact (h.signBehind_eq_some_iff hneutral.1 hneutral.2).symm
  rw [not_isLone_iff, IsJoined, hbefore, head?_tokens_eq_some_iff (by decide) (by decide)]

/-! ## The script -/

/-- No equals sign among the tokens stands alone; `before` is the sign directly before them, if any. -/
def Compares (before : Option Char) : List Token → Prop
  | [] => True
  | .literal _ _ :: r => Compares none r
  | .word _ :: r => Compares none r
  | .sign c :: r => (c = '=' → ¬ IsLone before r) ∧ Compares (some c) r

theorem Compares.not_isLone (h : Compares before (as ++ .sign '=' :: us)) :
    ¬ IsLone (signBehind before as) us := by
  fun_induction signBehind before as with
  | case1 => exact h.1 rfl
  | case2 _ _ _ _ ih => exact ih h
  | case3 _ _ _ ih => exact ih h
  | case4 _ _ _ ih => exact ih h.2

/-- An operator that ends in an equals sign. -/
theorem compares_operator (hc : c ∈ ['=', '!', '<', '>']) (h : Compares (some '=') us) (before : Option Char) :
    Compares before (.sign c :: .sign '=' :: us) := by
  constructor
  · intro _
    exact not_isLone_iff.2 (.inr rfl)
  · constructor
    · intro _
      exact not_isLone_iff.2 (.inl ⟨c, rfl, hc⟩)
    · exact h

/-- Signs that are no equals signs. -/
theorem compares_signs {signs : Text} (hsigns : '=' ∉ signs) (h : ∀ before, Compares before us)
    (before : Option Char) : Compares before (signs.map .sign ++ us) := by
  induction signs generalizing before with
  | nil => exact h before
  | cons c signs ih =>
    rw [List.mem_cons, not_or] at hsigns
    exact ⟨fun hc => absurd hc.symm hsigns.1, ih hsigns.2 (some c)⟩

/-- An equals sign begins its own spelling. -/
theorem Respelled.head?_eq (h : Respelled context before ts us) (hhead : ts.head? = some (.sign '=')) :
    us.head? = some (.sign '=') := by
  cases h with
  | nil | literal | word | truth | operator | differ => cases hhead
  | comparison hsigns =>
    cases hhead
    simp [comparisonSigns] at hsigns
  | equality => rfl
  | sign => exact hhead

/-- In a condition, no equals sign of the script stands alone. What stands in front of the tokens may be spelled
    otherwise in the script, as long as it is part of an operator there too. -/
theorem Respelled.compares (h : Respelled .condition before ts us) (written : Option Char)
    (hwritten : Joins before → Joins written) : Compares written us := by
  have hkept (b : Option Char) : Joins b → Joins b := id
  induction h generalizing written with
  | nil => trivial
  | literal _ ih => exact ih none (hkept none)
  | word _ _ ih => exact ih none (hkept none)
  | truth _ _ _ ih => exact ih none (hkept none)
  | operator _ hsigns _ ih =>
    -- behind a word the signs of its operator stand in the script, which may join
    have hequals := (by decide : ∀ p ∈ operatorWords, '=' ∉ p.2) _ hsigns
    apply compares_signs hequals
    intro written
    apply ih
    rintro ⟨_, ⟨⟩, _⟩
  | differ _ ih => exact compares_operator (by decide) (ih (some '=') fun _ => ⟨'=', rfl, by decide⟩) _
  | comparison hsigns _ ih =>
    have hrest := ih (some '=') fun _ => ⟨'=', rfl, by decide⟩
    simp only [comparisonSigns, List.mem_cons, List.not_mem_nil, or_false, Prod.mk.injEq] at hsigns
    rcases hsigns with ⟨-, rfl⟩ | ⟨-, rfl⟩ | ⟨-, rfl⟩
    · exact compares_operator (by decide) hrest _
    · exact compares_operator (by decide) hrest _
    · exact compares_operator (by decide) hrest _
  | equality _ _ _ ih => exact compares_operator (by decide) (ih _ (hkept _)) _
  | sign _ _ hequality hrest ih =>
    constructor
    · intro hc
      rw [not_isLone_iff]
      -- the sign is joined in the source, by the same neighbour
      rcases not_isLone_iff.1 (hequality hc rfl) with hbefore | hafter
      · exact .inl (hwritten hbefore)
      · exact .inr (hrest.head?_eq hafter)
    · exact ih _ (hkept _)

/-! ## What the tokens contribute -/

/-- A token and what is written for it. -/
structure Contribution where
  token : Token
  written : Text
  deriving DecidableEq, Repr

/-- What is written for each of the tokens. For less and greater side by side, all of it is written for the
    first. -/
def contributions (context : Context) (before : Option Char) : List Token → List Contribution
  | [] => []
  | .literal t closed :: r => ⟨.literal t closed, t⟩ :: contributions context none r
  | .word w :: r =>
    ⟨.word w, if before = some '.' then w else (wordOperator? w).getD w⟩ :: contributions context none r
  | .sign '<' :: .sign '>' :: r =>
    ⟨.sign '<', text "!="⟩ :: ⟨.sign '>', []⟩ :: contributions context (some '>') r
  | .sign c :: r => ⟨.sign c, rewriteSign context before c r.head?⟩ :: contributions context (some c) r

theorem map_token_contributions (context : Context) (before : Option Char) (ts : List Token) :
    (contributions context before ts).map Contribution.token = ts := by
  fun_induction contributions context before ts with
  | case1 => rfl
  | case2 _ _ _ _ ih => exact congrArg _ ih
  | case3 _ _ _ ih => exact congrArg _ ih
  | case4 _ _ ih => exact congrArg _ (congrArg _ ih)
  | case5 _ _ _ _ ih => exact congrArg _ ih

theorem flatMap_written_contributions (context : Context) (before : Option Char) (ts : List Token) :
    (contributions context before ts).flatMap Contribution.written = rewriteTokens context before ts := by
  fun_induction contributions context before ts with
  | case1 => rfl
  | case2 _ _ _ _ ih => rw [List.flatMap_cons, ih, rewriteTokens]
  | case3 _ _ _ ih => rw [List.flatMap_cons, ih, rewriteTokens]
  | case4 _ _ ih =>
    rw [List.flatMap_cons, List.flatMap_cons, ih, rewriteTokens]
    rfl
  | case5 _ _ _ hpair ih =>
    rw [List.flatMap_cons, ih, rewriteTokens]
    exact hpair

theorem flatMap_chars_contributions (context : Context) (before : Option Char) (t : Text) :
    ((contributions context before (tokens t)).flatMap fun p => p.token.chars) = t := by
  have htokens := congrArg (List.flatMap Token.chars) (map_token_contributions context before (tokens t))
  rwa [List.flatMap_map, chars_tokens] at htokens

theorem contributions_sign (hpair : c = '<' → us.head? ≠ some (.sign '>')) :
    contributions context before (.sign c :: us) =
      ⟨.sign c, rewriteSign context before c us.head?⟩ :: contributions context (some c) us := by
  rw [contributions]
  intro r hr hc
  exact hpair hc (by rw [hr]; rfl)

/-- Tokens contribute the same in front of others, except for a sign pair that is taken apart. -/
theorem exists_contributions_append (context : Context)
    (hpair : signBehind before as = some '<' → us.head? ≠ some (.sign '>')) :
    ∃ front, contributions context before (as ++ us) =
        front ++ contributions context (signBehind before as) us ∧ front.map Contribution.token = as := by
  have hcons {p : Contribution} {all rest : List Contribution} {r : List Token}
      (h : ∃ front, all = front ++ rest ∧ front.map Contribution.token = r) :
      ∃ front, p :: all = front ++ rest ∧ front.map Contribution.token = p.token :: r := by
    obtain ⟨front, rfl, rfl⟩ := h
    exact ⟨p :: front, rfl, rfl⟩
  fun_induction contributions context before as with
  | case1 => exact ⟨[], rfl, rfl⟩
  | case2 before t closed r ih =>
    rw [List.cons_append, contributions]
    exact hcons (ih hpair)
  | case3 before w r ih =>
    rw [List.cons_append, contributions]
    exact hcons (ih hpair)
  | case4 before r ih =>
    rw [List.cons_append, List.cons_append, contributions]
    exact hcons (hcons (ih hpair))
  | case5 before c r hr ih =>
    rw [List.cons_append, contributions_sign]
    · exact hcons (ih hpair)
    · -- the sign behind is in `r`, or it is the first of `us`
      intro hc
      cases r with
      | nil => exact hpair (congrArg some hc)
      | cons token r =>
        intro hhead
        exact hr r (congrArg (· :: r) (Option.some.inj hhead)) hc

/-- An equals sign that is part of a longer operator is written once. -/
theorem contributions_joined (h : ¬ IsLone before us) : contributions .condition before (.sign '=' :: us) =
    ⟨.sign '=', ['=']⟩ :: contributions .condition (some '=') us := by
  have hsign : rewriteSign .condition before '=' us.head? = ['='] := by
    rw [isLone_iff] at h
    rw [rewriteSign, if_neg (by decide), if_neg (by decide), if_neg (by decide), if_neg]
    simpa using h
  rw [contributions_sign (by simp), hsign]

/-- The first sign of a comparison in front of an equals sign. -/
theorem contributions_comparison (hc : c ∈ ['=', '!', '<', '>']) (before : Option Char) :
    contributions .condition before (.sign c :: .sign '=' :: us) =
      ⟨.sign c, [c]⟩ :: contributions .condition (some c) (.sign '=' :: us) := by
  have hsign : rewriteSign .condition before c (some (.sign '=')) = [c] := by
    simp only [List.mem_cons, List.not_mem_nil, or_false] at hc
    rcases hc with rfl | rfl | rfl | rfl <;> simp [rewriteSign]
  rw [contributions_sign (by simp), List.head?_cons, hsign]

/-- Equality signs in a row, behind a sign that joins them. -/
theorem contributions_equals (us : List Token) {signs : Text} (hsigns : ∀ d ∈ signs, d = '=')
    (hc : c ∈ ['=', '!', '<', '>']) : ∃ last,
      contributions .condition (some c) (signs.map .sign ++ us) =
        signs.map (fun c => ⟨.sign c, [c]⟩) ++ contributions .condition last us := by
  induction signs generalizing c with
  | nil => exact ⟨some c, rfl⟩
  | cons d signs ih =>
    obtain ⟨hd, hrest⟩ := List.forall_mem_cons.1 hsigns
    obtain ⟨last, hlast⟩ := ih hrest (c := '=') (by decide)
    refine ⟨last, ?_⟩
    rw [hd, List.map_cons, List.cons_append, contributions_joined (not_isLone_iff.2 (.inl ⟨c, rfl, hc⟩)), hlast]
    rfl

/-! ## Conditions -/

/-- In a condition, each of the characters `signs` with `s` in front and `t` behind contributes itself. -/
def AreKept (s signs t : Text) : Prop :=
  ∃ front back, contributions .condition none (tokens (Text.trim (s ++ signs ++ t))) =
      front ++ signs.map (fun c => ⟨.sign c, [c]⟩) ++ back ∧
    (front.flatMap fun p => p.token.chars) = Text.trimStart s ∧
    (back.flatMap fun p => p.token.chars) = Text.trimEnd t

theorem IsOutside.trimStart (h : IsOutside s) : IsOutside (Text.trimStart s) := by
  obtain ⟨bs, hs⟩ := h
  have hblanks : HasBrackets (Text.leadingBlanks s) [] :=
    hasBrackets_of_neutral fun c hc => isNeutral_of_isBlank (Text.isBlank_of_mem_leadingBlanks hc)
  rw [← Text.leadingBlanks_append_trimStart s] at hs
  obtain ⟨b, hb, -⟩ := hblanks.of_append hs
  exact ⟨b, hb⟩

theorem IsJoined.trim (h : IsJoined s t) : IsJoined (Text.trimStart s) (Text.trimEnd t) := by
  rcases h with ⟨c, hlast, hc⟩ | hhead
  · have hblank : Text.isBlank c = false := by
      simp only [List.mem_cons, List.not_mem_nil, or_false] at hc
      rcases hc with rfl | rfl | rfl | rfl <;> decide
    exact .inl ⟨c, (Text.getLast?_trimStart hblank).2 hlast, hc⟩
  · obtain ⟨r, rfl⟩ := List.head?_eq_some_iff.1 hhead
    have hend := Text.trimEnd_append_cons (c := '=') (by decide) [] r
    rw [List.nil_append, List.nil_append] at hend
    rw [hend]
    exact .inr rfl

theorem tokens_signs_append {signs : Text} (hsigns : signs ⊆ operatorChars) (t : Text) :
    tokens (signs ++ t) = signs.map .sign ++ tokens t := by
  induction signs with
  | nil => rfl
  | cons c signs ih =>
    obtain ⟨hc, hsigns⟩ := List.cons_subset.1 hsigns
    obtain ⟨hquote, hname⟩ := sign_of_mem_operatorChars hc
    rw [List.cons_append, tokens_of_not_isNameChar hquote hname, ih hsigns]
    rfl

/-- Signs are kept if they contribute themselves behind the sign in front of them. -/
theorem areKept_of_contributions {signs : Text} {last : Option Char} (hs : IsOutside s)
    (hsigns : c :: signs ⊆ operatorChars) (hpair : s.getLast? = some '<' → c ≠ '>')
    (h : contributions .condition (signBehind none (tokens (Text.trimStart s)))
        ((c :: signs).map .sign ++ tokens (Text.trimEnd t)) =
      (c :: signs).map (fun c => ⟨.sign c, [c]⟩) ++ contributions .condition last (tokens (Text.trimEnd t))) :
    AreKept s (c :: signs) t := by
  obtain ⟨hc, hrest⟩ := List.cons_subset.1 hsigns
  obtain ⟨hquote, hname⟩ := sign_of_mem_operatorChars hc
  have hblank : ∀ d ∈ c :: signs, Text.isBlank d = false := by
    have hall : operatorChars.all (fun d => !Text.isBlank d) = true := by decide
    intro d hd
    simpa using List.all_eq_true.1 hall d (hsigns hd)
  have htokens : tokens (Text.trim (s ++ c :: signs ++ t)) =
      tokens (Text.trimStart s) ++ ((c :: signs).map .sign ++ tokens (Text.trimEnd t)) := by
    rw [Text.trim_append_append (List.cons_ne_nil c signs) hblank, List.append_assoc, List.cons_append,
      hs.trimStart.tokens_append hquote hname, tokens_signs_append hrest]
    rfl
  -- the first of the signs does not take the one in front of it along
  have hapart : signBehind none (tokens (Text.trimStart s)) = some '<' →
      ((c :: signs).map Token.sign ++ tokens (Text.trimEnd t)).head? ≠ some (.sign '>') := by
    intro hbehind hhead
    rw [hs.trimStart.signBehind_eq_some_iff (by decide) (by decide),
      Text.getLast?_trimStart (by decide)] at hbehind
    cases hhead
    exact hpair hbehind rfl
  obtain ⟨front, hfront, hchars⟩ := exists_contributions_append .condition hapart
  refine ⟨front, _, ?_, ?_, flatMap_chars_contributions .condition last _⟩
  · rw [htokens, hfront, h, List.append_assoc]
  · have hfrontChars := congrArg (List.flatMap Token.chars) hchars
    rwa [List.flatMap_map, chars_tokens] at hfrontChars

/-- A comparison is kept: one sign, then equality signs. -/
theorem IsOutside.areKept_comparison (hs : IsOutside s) (c : Char) (signs : Text) (hc : c ∈ ['=', '!', '<', '>'])
    (hsigns : ∀ d ∈ signs, d = '=') (hpair : s.getLast? = some '<' → c ≠ '>') :
    AreKept s (c :: '=' :: signs) t := by
  have hequals : ∀ d ∈ '=' :: signs, d = '=' := List.forall_mem_cons.2 ⟨rfl, hsigns⟩
  have hsubset : c :: '=' :: signs ⊆ operatorChars := by
    apply List.cons_subset.2
    constructor
    · exact (by decide : ['=', '!', '<', '>'] ⊆ operatorChars) hc
    · intro d hd
      rw [hequals d hd]
      decide
  obtain ⟨last, hlast⟩ := contributions_equals (tokens (Text.trimEnd t)) hequals hc
  exact areKept_of_contributions hs hsubset hpair ((contributions_comparison hc _).trans (congrArg _ hlast))

/-- In the script of a condition no equals sign outside of the literals stands alone, so nothing is assigned.
    What is written for the text is what its tokens contribute, one after the other. An equals sign that is part
    of a longer operator contributes itself, and a comparison contributes its own characters, unless its first one
    ends another operator, less and greater side by side. -/
theorem rewrite_condition_compares (e : Text) :
    (∀ s t, rewrite .condition e = s ++ '=' :: t → IsOutside s → IsJoined s t) ∧
    (contributions .condition none (tokens (Text.trim e))).flatMap Contribution.written = rewrite .condition e ∧
    (∀ s t, e = s ++ ['='] ++ t → IsOutside s → IsJoined s t → AreKept s ['='] t) ∧
    ∀ operator ∈ [text "==", text "!=", text "<=", text ">=", text "===", text "!=="],
      ∀ s t, e = s ++ operator ++ t → IsOutside s → (s.getLast? = some '<' → operator.head? ≠ some '>') →
        AreKept s operator t := by
  refine ⟨?_, flatMap_written_contributions _ _ _, ?_, ?_⟩
  · intro s t hrewrite hs
    have hrespelled : Respelled .condition none (tokens (Text.trim e)) (tokens (rewrite .condition e)) :=
      tokens_rewrite_iff.2 rfl
    rw [hrewrite, hs.tokens_append (by decide) (by decide)] at hrespelled
    exact hs.isJoined_iff.2 (hrespelled.compares none id).not_isLone
  · intro s t _ hs hjoined
    have hequals := contributions_joined (hs.trimStart.isJoined_iff.1 hjoined.trim)
    exact areKept_of_contributions hs (by decide) (by simp) hequals
  · intro operator hoperator s t _ hs hpair
    simp only [List.mem_cons, List.not_mem_nil, or_false] at hoperator
    rcases hoperator with rfl | rfl | rfl | rfl | rfl | rfl
    · exact hs.areKept_comparison '=' [] (by decide) (by simp) fun _ => by decide
    · exact hs.areKept_comparison '!' [] (by decide) (by simp) fun _ => by decide
    · exact hs.areKept_comparison '<' [] (by decide) (by simp) fun _ => by decide
    · apply hs.areKept_comparison '>' [] (by decide) (by simp)
      intro hlast
      exact absurd rfl (hpair hlast)
    · exact hs.areKept_comparison '=' ['='] (by decide) (by simp) fun _ => by decide
    · exact hs.areKept_comparison '!' ['='] (by decide) (by simp) fun _ => by decide

/-- The second of three operators is lone, and so is doubled; the quoted one is none. -/
theorem rewrite_condition_compares_mixed :
    rewrite .condition (text "not a<>=1 and '=' = b==c") = text "! a!==1 && '=' == b==c" ∧
    AreKept (text "not a<>") ['='] (text "1 and '=' = b==c") ∧
    AreKept (text "not a<>=1 and '=' = b") (text "==") (text "c") := by
  obtain ⟨-, -, hjoined, hkept⟩ := rewrite_condition_compares (text "not a<>=1 and '=' = b==c")
  refine ⟨by decide +kernel, ?_, ?_⟩
  · exact hjoined _ _ rfl ⟨[], by decide +kernel⟩ (.inl ⟨'>', rfl, by decide⟩)
  · exact hkept (text "==") (by simp) _ _ rfl ⟨[], by decide +kernel⟩ (by decide)

end Expression

end Pseudocode
