import Pseudocode.Proofs.Enclosure

/-!
# Margins

The margin of a line is the white space that it begins with. Texts are alike if they differ in
nothing but the margins of their lines. White space and comments are skipped to alike texts again,
and so are tokens, as long as no string literal goes on in the next line: every token is found
within its line, by the characters that are left of the line.

* `Alike`              texts that differ in the margins of their lines
* `Alike.skip`         what stands behind white space and comments
* `HoldsStrings`       every string literal ends in the line in which it begins
* `ScansAlike`         a token is found in alike texts alike
-/

namespace Option.Rel

variable {α β γ δ : Type} {r : α → β → Prop} {s : γ → δ → Prop} {o : Option α} {o' : Option β}

theorem map {f : α → γ} {g : β → δ} (h : Option.Rel r o o') (hfg : ∀ a b, r a b → s (f a) (g b)) :
    Option.Rel s (o.map f) (o'.map g) := by
  cases h with
  | none => exact .none
  | some h => exact .some (hfg _ _ h)

theorem eq_none_or_eq_some (h : Option.Rel r o o') :
    o = Option.none ∧ o' = Option.none ∨ ∃ a b, o = Option.some a ∧ o' = Option.some b ∧ r a b := by
  cases h with
  | none => exact .inl ⟨rfl, rfl⟩
  | some h => exact .inr ⟨_, _, rfl, rfl, h⟩

end Option.Rel

namespace Pseudocode.Script

/-- White space of a margin. -/
def isMargin (c : Char) : Bool := isGap c && c ≠ '\n'

/-- The texts differ in nothing but the margins of their lines. The first line counts as a rest of a
    line, which has no margin. -/
inductive Alike : Text → Text → Prop where
  | nil : Alike [] []
  | cons {c : Char} {t t' : Text} (hc : c ≠ '\n') (h : Alike t t') : Alike (c :: t) (c :: t')
  | newline {w w' t t' : Text} (hw : ∀ c ∈ w, isMargin c = true)
      (hw' : ∀ c ∈ w', isMargin c = true) (h : Alike t t') :
      Alike ('\n' :: (w ++ t)) ('\n' :: (w' ++ t'))

/-- The number of characters that are no white space. -/
def weight (t : Text) : Nat := t.countP fun c => !isGap c

/-- What is left of the line that a text begins in. -/
def lineRest (t : Text) : Text := t.takeWhile (· ≠ '\n')

section

variable {c : Char} {t t' r w : Text} {n : Nat}

theorem isGap_of_isMargin (h : isMargin c = true) : isGap c = true := by
  simp only [isMargin, Bool.and_eq_true] at h
  exact h.1

theorem newline_not_mem_margin (hw : ∀ c ∈ w, isMargin c = true) : '\n' ∉ w := by
  intro hmem
  have := hw _ hmem
  simp [isMargin] at this

theorem skip_margin_append (hw : ∀ c ∈ w, isMargin c = true) (t : Text) :
    skip (w ++ t) = skip t := by
  induction w with
  | nil => rfl
  | cons c w ih =>
    rw [List.forall_mem_cons] at hw
    rw [List.cons_append, skip_cons_of_isGap (isGap_of_isMargin hw.1), ih hw.2]

theorem weight_margin (hw : ∀ c ∈ w, isMargin c = true) : weight w = 0 := by
  rw [weight, List.countP_eq_zero]
  intro c hc
  simp [isGap_of_isMargin (hw c hc)]

theorem weight_drop_le (n : Nat) (t : Text) : weight (t.drop n) ≤ weight t :=
  (List.drop_sublist n t).countP_le

theorem weight_le_length (t : Text) : weight t ≤ t.length := List.countP_le_length

/-- A token is not without weight. -/
theorem weight_drop_lt (hc : isGap c = false) (hn : 0 < n) (r : Text) :
    weight ((c :: r).drop n) < weight (c :: r) := by
  obtain ⟨m, rfl⟩ : ∃ m, n = m + 1 := ⟨n - 1, by omega⟩
  have hweight : weight (c :: r) = weight r + 1 := by simp [weight, hc]
  have hle := weight_drop_le m r
  rw [List.drop_succ_cons]
  omega

namespace Alike

/-- The same stretch of a line before alike texts. -/
theorem append_left (hw : '\n' ∉ w) (h : Alike t t') : Alike (w ++ t) (w ++ t') := by
  induction w with
  | nil => exact h
  | cons c w ih =>
    rw [List.mem_cons, not_or] at hw
    exact .cons (Ne.symm hw.1) (ih hw.2)

/-- A line feed before alike texts. -/
theorem cons_newline (h : Alike t t') : Alike ('\n' :: t) ('\n' :: t') :=
  @newline [] [] t t' (by simp) (by simp) h

theorem count_newline (h : Alike t t') : t.count '\n' = t'.count '\n' := by
  induction h with
  | nil => rfl
  | cons _ _ ih => rw [List.count_cons, List.count_cons, ih]
  | newline hw hw' _ ih =>
    rw [List.count_cons, List.count_cons, List.count_append, List.count_append, ih,
      List.count_eq_zero_of_not_mem (newline_not_mem_margin hw),
      List.count_eq_zero_of_not_mem (newline_not_mem_margin hw')]

theorem weight_eq (h : Alike t t') : weight t = weight t' := by
  induction h with
  | nil => rfl
  | cons _ _ ih =>
    unfold weight at ih ⊢
    rw [List.countP_cons, List.countP_cons, ih]
  | newline hw hw' _ ih =>
    have hmargins := (weight_margin hw).trans (weight_margin hw').symm
    unfold weight at ih hmargins ⊢
    rw [List.countP_cons, List.countP_cons, List.countP_append, List.countP_append, ih, hmargins]

theorem isEmpty_eq (h : Alike t t') : t.isEmpty = t'.isEmpty := by
  cases h <;> rfl

theorem head?_eq (h : Alike t t') : t.head? = t'.head? := by
  cases h <;> rfl

theorem lineRest_eq (h : Alike t t') : lineRest t = lineRest t' := by
  induction h with
  | nil => rfl
  | cons hc _ ih =>
    unfold lineRest at ih ⊢
    rw [List.takeWhile_cons, List.takeWhile_cons, ih]
  | newline => rfl

/-- Within a line, alike texts have the same characters. -/
theorem drop (h : Alike t t') (hn : n ≤ (lineRest t).length) : Alike (t.drop n) (t'.drop n) := by
  induction h generalizing n with
  | nil => simpa using Alike.nil
  | @cons c t t' hc h ih =>
    cases n with
    | zero => exact .cons hc h
    | succ n =>
      have hlength : (lineRest (c :: t)).length = (lineRest t).length + 1 := by simp [lineRest, hc]
      exact ih (by omega)
  | newline hw hw' h =>
    obtain rfl : n = 0 := by simpa [lineRest] using hn
    exact .newline hw hw' h

end Alike

/-! ## Comments -/

private theorem commentEnd?_cons_of_ne (hc : c ≠ '*' ∨ r.head? ≠ some '/') :
    commentEnd? (c :: r) = (commentEnd? r).map (· + 1) := by
  rw [commentEnd?]
  rintro s rfl rfl
  simp at hc

private theorem commentEnd?_margin_append (hw : ∀ c ∈ w, isMargin c = true) (t : Text) :
    commentEnd? (w ++ t) = (commentEnd? t).map (· + w.length) := by
  induction w with
  | nil => simp
  | cons c w ih =>
    rw [List.forall_mem_cons] at hw
    have hc : c ≠ '*' := by
      rintro rfl
      exact absurd hw.1 (by decide)
    rw [List.cons_append, commentEnd?_cons_of_ne (.inl hc), ih hw.2, Option.map_map]
    congr 1

/-- Comments end alike. -/
theorem Alike.commentEnd? (h : Alike t t') :
    Option.Rel (fun n n' => Alike (t.drop n) (t'.drop n')) (Script.commentEnd? t)
      (Script.commentEnd? t') := by
  induction h with
  | nil => exact .none
  | @cons c t t' hc h ih =>
    by_cases hends : c = '*' ∧ t.head? = some '/'
    · obtain ⟨rfl, hhead⟩ := hends
      obtain ⟨r, rfl⟩ : ∃ r, t = '/' :: r := ⟨t.tail, (List.cons_head?_tail hhead).symm⟩
      cases h with
      | cons _ h => exact .some h
    · have hends' : c ≠ '*' ∨ t.head? ≠ some '/' := by tauto
      rw [commentEnd?_cons_of_ne hends', commentEnd?_cons_of_ne (h.head?_eq ▸ hends')]
      exact ih.map fun _ _ hn => hn
  -- a margin holds no star, so the search passes over it
  | @newline w w' t t' hw hw' h ih =>
    rw [commentEnd?_cons_of_ne (.inl (by decide)), commentEnd?_cons_of_ne (.inl (by decide)),
      commentEnd?_margin_append hw, commentEnd?_margin_append hw', Option.map_map, Option.map_map]
    refine ih.map fun n n' hn => ?_
    simp only [Function.comp_apply, List.drop_succ_cons]
    rwa [Nat.add_comm, Nat.add_comm n', ← List.drop_drop, ← List.drop_drop, List.drop_left,
      List.drop_left]

/-- Comments are as long as each other, up to margins. -/
theorem Alike.commentLength? (h : Alike t t') :
    Option.Rel (fun n n' => 0 < n ∧ 0 < n' ∧ Alike (t.drop n) (t'.drop n')) (Script.commentLength? t)
      (Script.commentLength? t') := by
  cases h with
  | nil => exact .none
  | newline =>
    rw [commentLength?_eq_none (by decide), commentLength?_eq_none (by decide)]
    exact .none
  | @cons c t t' hc h =>
    by_cases hslash : c = '/'
    · subst hslash
      cases h with
      | nil => exact .none
      | newline => exact .none
      | @cons d t t' hd h =>
        by_cases hline : d = '/'
        · -- a line comment takes the rest of the line, which has no margin in it
          subst hline
          refine .some ⟨by omega, by omega, ?_⟩
          have hrest := h.drop (Nat.le_refl _)
          have heq := h.lineRest_eq
          unfold lineRest at hrest heq
          rw [← heq]
          simpa [Nat.add_comm 2] using hrest
        · by_cases hblock : d = '*'
          · -- a block comment may hold margins, so its lengths may differ
            subst hblock
            refine h.commentEnd?.map fun n n' hn => ⟨by omega, by omega, ?_⟩
            simpa [Nat.add_comm 2] using hn
          · have hnone (r : Text) : Script.commentLength? ('/' :: d :: r) = none := by
              unfold Script.commentLength?
              split <;> simp_all
            rw [hnone, hnone]
            exact .none
    · rw [commentLength?_eq_none hslash, commentLength?_eq_none hslash]
      exact .none

/-- A comment is skipped. -/
theorem skip_of_commentLength? (hn : Script.commentLength? t = some n) (hpos : 0 < n) :
    skip t = skip (t.drop n) := by
  obtain ⟨m, rfl⟩ : ∃ m, n = m + 1 := ⟨n - 1, by omega⟩
  cases t with
  | nil => cases hn
  | cons c r =>
    have hgap : isGap c = false := by
      have hslash : c = '/' := by
        by_contra hne
        rw [commentLength?_eq_none hne] at hn
        cases hn
      rw [hslash]
      rfl
    have hle : m ≤ r.length := by simpa using commentLength?_le hn
    -- no blank stands before the comment, so the gap begins with it
    have hlength : gapLength 0 (c :: r) = gapLength 0 (r.drop m) + m + 1 := by
      simp only [gapLength, hgap, hn, gapLength_drop hle, Bool.false_eq_true, ↓reduceIte]
      omega
    rw [Script.skip, hlength, List.drop_succ_cons, List.drop_succ_cons, Nat.add_comm,
      ← List.drop_drop]
    rfl

/-- Behind white space and comments stand alike texts. -/
theorem Alike.skip (h : Alike t t') : Alike (skip t) (skip t') := by
  -- induction on the length: a margin or a comment is skipped as a whole
  induction hlength : t.length using Nat.strong_induction_on generalizing t t' with
  | _ length ih =>
  subst hlength
  cases h with
  | nil => exact .nil
  | @newline w w' t t' hw hw' h =>
    rw [skip_newline, skip_newline, skip_margin_append hw, skip_margin_append hw']
    exact ih _ (by simp only [List.length_cons, List.length_append]; omega) h rfl
  | @cons c t t' hc h =>
    by_cases hgap : isGap c = true
    · rw [skip_cons_of_isGap hgap, skip_cons_of_isGap hgap]
      exact ih _ (Nat.lt_succ_self _) h rfl
    · rcases (Alike.cons hc h).commentLength?.eq_none_or_eq_some with ⟨hn, hn'⟩ |
        ⟨n, n', hn, hn', hpos, hpos', hdrop⟩
      · have hkeep (r : Text) (hr : Script.commentLength? (c :: r) = none) :
            Script.skip (c :: r) = c :: r := by simp [Script.skip, gapLength, hgap, hr]
        rw [hkeep t hn, hkeep t' hn']
        exact .cons hc h
      · rw [skip_of_commentLength? hn hpos, skip_of_commentLength? hn' hpos']
        refine ih _ ?_ hdrop rfl
        rw [List.length_drop, List.length_cons]
        omega

end

/-! ## String literals -/

/-- Wherever a string literal could begin, it ends on the same line. -/
def HoldsStrings (t : Text) : Prop :=
  ∀ s, s <:+ t → ∀ w n, Token.string? s = some (w, n) → '\n' ∉ s.take n

theorem HoldsStrings.suffix {s t : Text} (h : HoldsStrings t) (hs : s <:+ t) : HoldsStrings s :=
  fun s' hs' => h s' (hs'.trans hs)

section

variable {quote c : Char} {t t' r w : Text} {n : Nat}

theorem quoted?_eq_some (h : Token.quoted? quote t = some w) :
    ∃ r, t = w ++ quote :: r := by
  fun_induction Token.quoted? quote t generalizing w with
  | case1 | case2 => cases h
  | case3 c r ih =>
    obtain ⟨inner, hinner, rfl⟩ := Option.map_eq_some_iff.1 h
    obtain ⟨s, rfl⟩ := ih hinner
    exact ⟨s, rfl⟩
  | case4 r =>
    obtain rfl := Option.some.inj h
    exact ⟨r, rfl⟩
  | case5 => cases h
  | case6 c r _ _ _ _ ih =>
    obtain ⟨inner, hinner, rfl⟩ := Option.map_eq_some_iff.1 h
    obtain ⟨s, rfl⟩ := ih hinner
    exact ⟨s, rfl⟩

/-- A literal takes up what is quoted and both quotes. -/
theorem take_quoted (h : Token.quoted? quote t = some w) :
    (quote :: t).take (w.length + 2) = quote :: (w ++ [quote]) := by
  obtain ⟨r, rfl⟩ := quoted?_eq_some h
  rw [List.take_succ_cons, List.append_cons, List.take_left' (by simp)]

/-- What is quoted goes on in the next line only behind a backslash. -/
theorem isInfix_of_mem_quoted (h : Token.quoted? quote t = some w) (hmem : '\n' ∈ w) :
    ['\\', '\n'] <:+: t := by
  fun_induction Token.quoted? quote t generalizing w with
  | case1 | case2 => cases h
  -- the line feed is the escaped character here, or it comes later
  | case3 c r ih =>
    obtain ⟨inner, hinner, rfl⟩ := Option.map_eq_some_iff.1 h
    obtain rfl | hmem : c = '\n' ∨ '\n' ∈ inner := by simpa [eq_comm] using hmem
    · exact ⟨[], r, rfl⟩
    · exact (ih hinner hmem).trans ⟨['\\', c], [], by simp⟩
  | case4 =>
    obtain rfl := Option.some.inj h
    cases hmem
  | case5 => cases h
  -- a bare line feed would have ended the literal
  | case6 c r _ _ _ hline ih =>
    obtain ⟨inner, hinner, rfl⟩ := Option.map_eq_some_iff.1 h
    obtain hc | hmem := List.mem_cons.1 hmem
    · exact absurd hc.symm hline
    · exact (ih hinner hmem).trans (List.suffix_cons c r).isInfix

/-- Where no line ends in a backslash, no string literal goes on in the next line. -/
theorem holdsStrings_of_not_isInfix (h : ¬ ['\\', '\n'] <:+: t) : HoldsStrings t := by
  intro s hs w n hstring hmem
  cases s with
  | nil => cases hstring
  | cons quote r =>
    obtain ⟨hquote, hfound⟩ := Option.ite_none_right_eq_some.1 hstring
    obtain ⟨written, hwritten, heq⟩ := Option.map_eq_some_iff.1 hfound
    obtain ⟨-, rfl⟩ := Prod.mk.inj heq
    have hline : '\n' ≠ quote := by
      rintro rfl
      cases hquote
    rw [take_quoted hwritten] at hmem
    have hinner : '\n' ∈ written := by simpa [hline] using hmem
    exact h ((isInfix_of_mem_quoted hwritten hinner).trans
      ((List.suffix_cons quote r).trans hs).isInfix)

private theorem quoted?_margin_append (hquote : quote = '"' ∨ quote = '\'')
    (hw : ∀ c ∈ w, isMargin c = true) (t : Text) :
    Token.quoted? quote (w ++ t) = (Token.quoted? quote t).map (w ++ ·) := by
  -- a margin holds neither a backslash, nor a quote, nor a line feed
  induction w with
  | nil => simp
  | cons c w ih =>
    rw [List.forall_mem_cons] at hw
    have hmark : c ≠ '\\' := by
      rintro rfl
      exact absurd hw.1 (by decide)
    have hend : c ≠ quote := by
      rintro rfl
      rcases hquote with rfl | rfl <;> exact absurd hw.1 (by decide)
    have hline : c ≠ '\n' := by
      rintro rfl
      exact absurd hw.1 (by decide)
    rw [List.cons_append, quoted?_cons hmark, if_neg hend, if_neg hline, ih hw.2, Option.map_map]
    rfl

/-- The same string literals are closed, and those that end on their lines are the same. -/
theorem Alike.quoted? (hquote : quote = '"' ∨ quote = '\'') (h : Alike t t') :
    Option.Rel (fun w w' => '\n' ∉ w → w = w') (Token.quoted? quote t) (Token.quoted? quote t') := by
  induction hlength : t.length using Nat.strong_induction_on generalizing t t' with
  | _ length ih =>
  subst hlength
  cases h with
  | nil => exact .none
  | newline hw hw' h =>
    have hend : '\n' ≠ quote := by rcases hquote with rfl | rfl <;> decide
    rw [quoted?_cons (by decide), quoted?_cons (by decide), if_neg hend, if_neg hend]
    exact .none
  | @cons c t t' hc h =>
    by_cases hmark : c = '\\'
    · subst hmark
      cases h with
      | nil => exact .none
      | @cons d t t' hd h =>
        simp only [Token.quoted?]
        refine (ih _ (by simp) h rfl).map fun w w' hww' hline => ?_
        simp only [List.mem_cons, not_or] at hline
        rw [hww' hline.2.2]
      | @newline w w' t t' hw hw' h =>
        simp only [Token.quoted?, quoted?_margin_append hquote hw, quoted?_margin_append hquote hw',
          Option.map_map]
        -- the literal goes on in the next line
        exact (ih _ (by simp; omega) h rfl).map fun _ _ _ hline => absurd hline (by simp)
    · rw [quoted?_cons hmark, quoted?_cons hmark]
      split
      · exact .some fun _ => rfl
      · refine (ih _ (by simp) h rfl).map fun w w' hww' hline => ?_
        simp only [List.mem_cons, not_or] at hline
        rw [hww' hline.2]

end

/-! ## Tokens -/

/-- The token is found in alike texts alike, and what stands behind it is alike. -/
def ScansAlike {α : Type} (scan : Text → Option (α × Nat)) : Prop :=
  ∀ t t', Alike t t' → HoldsStrings t → scan t = scan t' ∧
    ∀ a n, scan t = some (a, n) → Alike (t.drop n) (t'.drop n) ∧ weight (t.drop n) < weight t

/-- The token is not empty, begins with no white space, and is found by what is left of the line. -/
structure StaysInLine {α : Type} (scan : Text → Option (α × Nat)) : Prop where
  line (t : Text) : scan t = scan (lineRest t)
  length {t : Text} {a : α} {n : Nat} : scan t = some (a, n) → 0 < n ∧ n ≤ t.length
  start {c : Char} (r : Text) : isGap c = true → scan (c :: r) = none

theorem StaysInLine.scansAlike {α : Type} {scan : Text → Option (α × Nat)} (h : StaysInLine scan) :
    ScansAlike scan := by
  intro t t' halike _
  refine ⟨by rw [h.line t, h.line t', halike.lineRest_eq], fun a n hscan => ?_⟩
  obtain ⟨hpos, hle⟩ := h.length hscan
  refine ⟨halike.drop (h.length (h.line t ▸ hscan)).2, ?_⟩
  cases t with
  | nil =>
    rw [List.length_nil] at hle
    omega
  | cons c r =>
    refine weight_drop_lt (Bool.eq_false_iff.2 fun hgap => ?_) hpos r
    rw [h.start r hgap] at hscan
    cases hscan

theorem le_length_lineRest {t : Text} {n : Nat} (hn : n ≤ t.length) (hline : '\n' ∉ t.take n) :
    n ≤ (lineRest t).length := by
  induction t generalizing n with
  | nil => exact hn
  | cons c t ih =>
    cases n with
    | zero => exact Nat.zero_le _
    | succ n =>
      rw [List.take_succ_cons, List.mem_cons, not_or] at hline
      have hrest := ih (Nat.le_of_succ_le_succ hn) hline.2
      simpa [lineRest, Ne.symm hline.1] using hrest

/-- A string literal of the line. -/
theorem scansAlike_string? : ScansAlike Token.string? := by
  intro t t' halike hstrings
  cases halike with
  | nil => exact ⟨rfl, fun _ _ h => by cases h⟩
  | newline =>
    rw [string?_eq_none_of_ne (by decide) (by decide),
      string?_eq_none_of_ne (by decide) (by decide)]
    exact ⟨rfl, fun _ _ h => by cases h⟩
  | @cons c t t' hc h =>
    by_cases hquote : c = '"' ∨ c = '\''
    · have hscan (r : Text) : Token.string? (c :: r) =
          (Token.quoted? c r).map fun w => (Token.unescape w, w.length + 2) := by
        simp [Token.string?, hquote]
      rcases (h.quoted? hquote).eq_none_or_eq_some with ⟨hnone, hnone'⟩ | ⟨w, w', hw, hw', heq⟩
      · rw [hscan, hscan, hnone, hnone']
        exact ⟨rfl, fun _ _ h => by cases h⟩
      -- a string without a line break lies in the part of the line that both texts share
      · have hfound : Token.string? (c :: t) = some (Token.unescape w, w.length + 2) := by
          rw [hscan, hw, Option.map_some]
        have hline := hstrings _ (List.suffix_refl _) _ _ hfound
        have hlength : w.length + 2 ≤ (c :: t).length := Nat.succ_le_succ (quoted?_lt hw)
        have hmem : '\n' ∉ w := by
          rw [take_quoted hw, List.mem_cons, List.mem_append, not_or, not_or] at hline
          exact hline.2.1
        rw [hfound, hscan, hw', ← heq hmem]
        refine ⟨rfl, ?_⟩
        rintro _ _ ⟨⟩
        refine ⟨(Alike.cons hc h).drop (le_length_lineRest hlength hline), ?_⟩
        refine weight_drop_lt ?_ (by omega) t
        rcases hquote with rfl | rfl <;> rfl
    · rw [not_or] at hquote
      rw [string?_eq_none_of_ne hquote.1 hquote.2, string?_eq_none_of_ne hquote.1 hquote.2]
      exact ⟨rfl, fun _ _ h => by cases h⟩

/-! ### Words -/

section

variable {α : Type} {scan : Text → Option (α × Nat)}

theorem wordStart_lineRest (t : Text) : Reader.wordStart (lineRest t) = Reader.wordStart t := by
  induction t with
  | nil => rfl
  | cons c t ih =>
    by_cases hc : c = '\n'
    · rw [hc]
      rfl
    · unfold lineRest Reader.wordStart at ih ⊢
      rw [List.takeWhile_cons, if_pos (by simpa using hc), List.takeWhile_cons,
        List.takeWhile_cons, ih]

theorem wordStart_of_isGap {c : Char} (h : isGap c = true) (r : Text) :
    Reader.wordStart (c :: r) = [] := by
  refine List.takeWhile_cons_of_neg fun hword => ?_
  simp only [isGap, Bool.or_eq_true, decide_eq_true_eq] at h
  rcases h with ((rfl | rfl) | rfl) | rfl <;> cases hword

/-- A token that is found by a word as a whole. -/
theorem staysInLine_of_word {g : Text → Option (α × Nat)}
    (hscan : ∀ t, scan t = g (Reader.wordStart t)) (hnil : g [] = none)
    (hlength : ∀ w a n, g w = some (a, n) → n = w.length) : StaysInLine scan where
  line t := by rw [hscan, hscan, wordStart_lineRest]
  length {t a n} h := by
    rw [hscan] at h
    obtain rfl := hlength _ _ _ h
    refine ⟨List.length_pos_iff.2 fun hempty => ?_, (List.takeWhile_prefix _).length_le⟩
    rw [hempty, hnil] at h
    cases h
  start r hgap := by rw [hscan, wordStart_of_isGap hgap, hnil]

theorem staysInLine_wordOf? {table : List (Text × α)} (h : table.lookup [] = none) :
    StaysInLine (Token.wordOf? table) := by
  refine staysInLine_of_word (g := fun w => (table.lookup w).map fun a => (a, w.length))
    (fun _ => rfl) (by simp [h]) fun w a n hfound => ?_
  obtain ⟨_, -, heq⟩ := Option.map_eq_some_iff.1 hfound
  exact (Prod.mk.inj heq).2.symm

theorem staysInLine_word {w : Text} (h : w ≠ []) :
    StaysInLine fun t => if Reader.wordStart t = w then some ((), w.length) else none := by
  refine staysInLine_of_word (g := fun v => if v = w then some ((), w.length) else none)
    (fun _ => rfl) (if_neg h.symm) fun v _ n hfound => ?_
  obtain ⟨rfl, heq⟩ := Option.ite_none_right_eq_some.1 hfound
  exact (Prod.mk.inj (Option.some.inj heq)).2.symm

/-- A name is a word that does not begin with a digit. -/
theorem name?_eq (t : Text) : Token.name? t =
    ((Reader.wordStart t).head?.filter Text.isIdentifierStart).map fun _ =>
      (Reader.wordStart t, (Reader.wordStart t).length) := by
  cases t with
  | nil => rfl
  | cons c r =>
    rw [Token.name?]
    by_cases hword : Text.isIdentifierChar c = true
    · have hstart : Reader.wordStart (c :: r) = c :: Reader.wordStart r := by
        simp [Reader.wordStart, hword]
      rw [hstart]
      by_cases hfirst : Text.isIdentifierStart c = true <;> simp [hfirst]
    · have hstart : Reader.wordStart (c :: r) = [] := by simp [Reader.wordStart, hword]
      have hfirst : Text.isIdentifierStart c = false := by
        refine Bool.eq_false_iff.2 fun hfirst => hword ?_
        simp only [Text.isIdentifierStart, Bool.or_eq_true] at hfirst
        simp only [Text.isIdentifierChar, Char.isAlphanum, Bool.or_eq_true]
        tauto
      rw [hstart, hfirst]
      rfl

theorem staysInLine_name? : StaysInLine Token.name? := by
  refine staysInLine_of_word (g := fun w =>
    (w.head?.filter Text.isIdentifierStart).map fun _ => (w, w.length)) name?_eq rfl fun w a n h => ?_
  obtain ⟨_, -, heq⟩ := Option.map_eq_some_iff.1 h
  exact (Prod.mk.inj heq).2.symm

/-- What is left out of the tokens leaves the others where they are. -/
theorem StaysInLine.filter (h : StaysInLine scan) (keep : α × Nat → Bool) :
    StaysInLine fun t => (scan t).filter keep where
  line t := by rw [h.line t]
  length hfound := h.length (Option.filter_eq_some_iff.1 hfound).1
  start r hgap := by rw [h.start r hgap, Option.filter_none]

theorem staysInLine_identifier? : StaysInLine Token.identifier? := staysInLine_name?.filter _

end

/-! ### Signs -/

section

variable {c : Char} {t t' r : Text}

theorem lineRest_cons (hc : c ≠ '\n') (t : Text) : lineRest (c :: t) = c :: lineRest t := by
  simp [lineRest, hc]

theorem lineRest_lineRest (t : Text) : lineRest (lineRest t) = lineRest t := by
  induction t with
  | nil => rfl
  | cons c t ih =>
    by_cases hc : c = '\n'
    · rw [hc]
      rfl
    · rw [lineRest_cons hc, lineRest_cons hc, ih]

/-- Lines of the same rest begin with the same character. -/
theorem exists_of_lineRest_eq (h : lineRest (c :: r) = lineRest t) (hc : c ≠ '\n') :
    ∃ s, t = c :: s ∧ lineRest r = lineRest s := by
  rw [lineRest_cons hc] at h
  cases t with
  | nil => cases h
  | cons d t =>
    by_cases hd : d = '\n'
    · rw [hd] at h
      cases h
    · rw [lineRest_cons hd, List.cons.injEq] at h
      exact ⟨t, by rw [h.1], h.2⟩

theorem head?_eq_of_lineRest_eq (h : lineRest t = lineRest t') (hc : c ≠ '\n') :
    t.head? = some c ↔ t'.head? = some c := by
  have hfirst {t t' : Text} (h : lineRest t = lineRest t') (hhead : t.head? = some c) :
      t'.head? = some c := by
    rw [← List.cons_head?_tail hhead] at h
    obtain ⟨s, rfl, -⟩ := exists_of_lineRest_eq h hc
    rfl
  exact ⟨hfirst h, hfirst h.symm⟩

theorem ne_cons_of_lineRest_eq (h : lineRest t = lineRest t') (hc : c ≠ '\n')
    (hne : ∀ s, t = c :: s → False) (s : Text) : t' ≠ c :: s := by
  rintro rfl
  obtain ⟨s, rfl, -⟩ := exists_of_lineRest_eq h.symm hc
  exact hne s rfl

/-- What is found by the line in any text. -/
theorem eq_lineRest {α : Type} {scan : Text → Option (α × Nat)}
    (h : ∀ t t' x, lineRest t = lineRest t' → scan t = some x → scan t' = some x) (t : Text) :
    scan t = scan (lineRest t) :=
  Option.ext fun x => ⟨h _ _ x (lineRest_lineRest t).symm, h _ _ x (lineRest_lineRest t)⟩

/-- Lines of the same rest begin with the same text, if it is on one line. -/
theorem exists_append_of_lineRest_eq {w : Text} (h : lineRest (w ++ r) = lineRest t) (hw : '\n' ∉ w) :
    ∃ s, t = w ++ s ∧ lineRest r = lineRest s := by
  induction w generalizing t with
  | nil => exact ⟨t, rfl, h⟩
  | cons d w ih =>
    rw [List.mem_cons, not_or] at hw
    obtain ⟨t, rfl, ht⟩ := exists_of_lineRest_eq h (Ne.symm hw.1)
    obtain ⟨s, rfl, hs⟩ := ih ht hw.2
    exact ⟨s, rfl, hs⟩

/-- A token that is found by its sign, and by what may not stand behind the sign. -/
theorem staysInLine_of_sign {α : Type} {scan : Text → Option (α × Nat)} {IsTaken : α → Prop}
    {sign barred : α → Text}
    (hscan : ∀ t a n, scan t = some (a, n) ↔ IsTaken a ∧ n = (sign a).length ∧
      ∃ r, t = sign a ++ r ∧ ∀ c ∈ r.head?, c ∉ barred a)
    (hstart : ∀ a, ∃ c w, sign a = c :: w ∧ isGap c = false)
    (hline : ∀ a, '\n' ∉ sign a ∧ '\n' ∉ barred a) : StaysInLine scan where
  line := by
    refine eq_lineRest fun t t' ⟨a, n⟩ h hfound => ?_
    -- neither the sign nor a character that would go on with it breaks the line
    obtain ⟨htaken, hn, r, rfl, hr⟩ := (hscan ..).1 hfound
    obtain ⟨s, rfl, hs⟩ := exists_append_of_lineRest_eq h (hline a).1
    refine (hscan ..).2 ⟨htaken, hn, s, rfl, fun c hc hbarred => ?_⟩
    have hne : c ≠ '\n' := fun heq => (hline a).2 (heq ▸ hbarred)
    exact hr c ((head?_eq_of_lineRest_eq hs hne).2 hc) hbarred
  length {t a n} hfound := by
    obtain ⟨-, rfl, r, rfl, -⟩ := (hscan ..).1 hfound
    obtain ⟨c, w, hsign, -⟩ := hstart a
    rw [List.length_append, hsign, List.length_cons]
    exact ⟨Nat.succ_pos _, Nat.le_add_right ..⟩
  start {c} r hgap := by
    refine Option.eq_none_iff_forall_ne_some.2 fun ⟨a, n⟩ hfound => ?_
    obtain ⟨-, -, s, heq, -⟩ := (hscan ..).1 hfound
    obtain ⟨d, w, hsign, hd⟩ := hstart a
    rw [hsign, List.cons_append, List.cons.injEq] at heq
    rw [heq.1, hd] at hgap
    cases hgap

theorem staysInLine_assignmentOperator? : StaysInLine Token.assignmentOperator? := by
  have hhead (r : Text) : r.head? ≠ some '=' ↔ ∀ c ∈ r.head?, c ∉ ['='] :=
    ⟨fun h c hc hequal => h (List.mem_singleton.1 hequal ▸ hc),
      fun h hequal => h '=' hequal (List.mem_singleton_self '=')⟩
  have hscan (t : Text) (operator : AssignmentOperator) (n : Nat) :
      Token.assignmentOperator? t = some (operator, n) ↔ True ∧ n = operator.sign.length ∧
        ∃ r, t = operator.sign ++ r ∧ ∀ c ∈ r.head?, c ∉ ['='] := by
    simp only [assignmentOperator?_eq_some_iff, hhead, true_and]
  refine staysInLine_of_sign hscan (fun operator => ?_) fun operator => ?_
  · cases operator <;> exact ⟨_, _, rfl, rfl⟩
  · cases operator <;> decide

theorem staysInLine_binaryOperator? (level : Level) : StaysInLine (Token.binaryOperator? level) := by
  refine staysInLine_of_sign (fun t operator n => binaryOperator?_eq_some_iff) (fun operator => ?_)
    fun operator => ?_
  · cases operator <;> exact ⟨_, _, rfl, rfl⟩
  · cases operator <;> decide

/-- The words among the unary operators. -/
private theorem staysInLine_unaryWord : StaysInLine
    (Token.wordOf? [(text "typeof", UnaryOperator.typeOf), (text "await", .await)]) :=
  staysInLine_wordOf? rfl

theorem staysInLine_unaryOperator? : StaysInLine Token.unaryOperator? where
  line := by
    refine eq_lineRest fun t t' x h hscan => ?_
    unfold Token.unaryOperator? at hscan
    split at hscan
    -- words come last, all other operators are signs
    case h_4 hnot hminus hplus =>
      have hnot := ne_cons_of_lineRest_eq h (by decide) hnot
      have hminus := ne_cons_of_lineRest_eq h (by decide) hminus
      have hplus := ne_cons_of_lineRest_eq h (by decide) hplus
      rw [staysInLine_unaryWord.line, h, ← staysInLine_unaryWord.line] at hscan
      simpa [Token.unaryOperator?, hnot, hminus, hplus] using hscan
    all_goals
      obtain ⟨s, rfl, hs⟩ := exists_of_lineRest_eq h (by decide)
      simpa [Token.unaryOperator?, head?_eq_of_lineRest_eq hs] using hscan
  length {t a n} h := by
    unfold Token.unaryOperator? at h
    split at h
    case h_4 => exact staysInLine_unaryWord.length h
    all_goals grind
  start r hgap := by
    unfold Token.unaryOperator?
    split
    case h_4 => exact staysInLine_unaryWord.start r hgap
    all_goals simp_all [isGap]

end

/-- A punctuation sign. -/
theorem staysInLine_sign {s : Char} (hs : isGap s = false) :
    StaysInLine fun t => if t.head? = some s then some ((), 1) else none where
  line := by
    refine eq_lineRest fun t t' x h hscan => ?_
    have hline : s ≠ '\n' := by
      rintro rfl
      cases hs
    rwa [if_congr (head?_eq_of_lineRest_eq h hline) rfl rfl] at hscan
  length {t a n} h := by
    obtain ⟨hhead, heq⟩ := Option.ite_none_right_eq_some.1 h
    obtain ⟨-, rfl⟩ := Prod.mk.inj (Option.some.inj heq)
    refine ⟨Nat.one_pos, List.length_pos_iff.2 ?_⟩
    rintro rfl
    cases hhead
  start r hgap := by
    refine if_neg fun hhead => ?_
    rw [Option.some.inj hhead, hs] at hgap
    cases hgap

/-! ### Numerals -/

section

theorem splitDigits_lineRest (t : Text) : Numeral.splitDigits (lineRest t) =
    ((Numeral.splitDigits t).1, lineRest (Numeral.splitDigits t).2) := by
  induction t with
  | nil => rfl
  | cons c t ih =>
    by_cases hc : c = '\n'
    · rw [hc]
      rfl
    · rw [lineRest_cons hc]
      unfold Numeral.splitDigits at ih ⊢
      rw [Prod.mk.injEq] at ih
      by_cases hdigit : c.isDigit = true
      · simp [hdigit, ih.1, ih.2]
      · simp [hdigit, lineRest_cons hc]

theorem exponentStart_lineRest (t : Text) :
    Numeral.exponentStart (lineRest t) = Numeral.exponentStart t := by
  cases t with
  | nil => rfl
  | cons e r =>
    by_cases he : e = '\n'
    · rw [he]
      rfl
    · rw [lineRest_cons he]
      by_cases hminus : ∃ s, r = '-' :: s
      · obtain ⟨s, rfl⟩ := hminus
        simp [Numeral.exponentStart, lineRest_cons, splitDigits_lineRest]
      · by_cases hplus : ∃ s, r = '+' :: s
        · obtain ⟨s, rfl⟩ := hplus
          simp [Numeral.exponentStart, lineRest_cons, splitDigits_lineRest]
        · -- without a sign the digits follow at once
          have hline := (lineRest_lineRest r).symm
          have hminus' := ne_cons_of_lineRest_eq hline (by decide) fun s hs => hminus ⟨s, hs⟩
          have hplus' := ne_cons_of_lineRest_eq hline (by decide) fun s hs => hplus ⟨s, hs⟩
          simp only [not_exists] at hminus hplus
          simp [Numeral.exponentStart, splitDigits_lineRest]

theorem numeralParts_lineRest (t : Text) : numeralParts (lineRest t) = numeralParts t := by
  unfold numeralParts
  rw [splitDigits_lineRest]
  generalize Numeral.splitDigits t = parts
  obtain ⟨whole, rest⟩ := parts
  by_cases hpoint : ∃ r, rest = '.' :: r
  · obtain ⟨r, rfl⟩ := hpoint
    simp [lineRest_cons, splitDigits_lineRest, exponentStart_lineRest]
  · have hline := (lineRest_lineRest rest).symm
    have hpoint' := ne_cons_of_lineRest_eq hline (by decide) fun r hr => hpoint ⟨r, hr⟩
    rw [not_exists] at hpoint
    simp [exponentStart_lineRest]

theorem staysInLine_number? : StaysInLine Token.number? where
  line t := by rw [number?_eq, number?_eq, numeralParts_lineRest]
  length {t a n} h := by
    obtain ⟨after, hsplit, -⟩ := numeralText_split t
    rw [number?_eq] at h
    obtain ⟨hdigits, hfound⟩ := Option.ite_none_left_eq_some.1 h
    obtain ⟨x, -, hx⟩ := Option.map_eq_some_iff.1 hfound
    obtain ⟨-, rfl⟩ := Prod.mk.inj hx
    have hlength := congrArg List.length hsplit
    rw [List.length_append] at hlength
    refine ⟨List.length_pos_iff.2 fun hempty => hdigits ?_, by omega⟩
    generalize numeralParts t = parts at hempty ⊢
    obtain ⟨whole, fraction, exponent⟩ := parts
    cases fraction with
    | none =>
      rw [numeralText, List.append_eq_nil_iff] at hempty
      rw [lacksDigits, hempty.1]
      rfl
    | some digits => simp [numeralText] at hempty
  start {c} r hgap := by
    have hparts : numeralParts (c :: r) = ([], none, []) := by
      simp only [isGap, Bool.or_eq_true, decide_eq_true_eq] at hgap
      rcases hgap with ((rfl | rfl) | rfl) | rfl <;> rfl
    rw [number?_eq, hparts]
    rfl

end

end Pseudocode.Script
