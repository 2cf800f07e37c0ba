import Pseudocode.Proofs.SentenceReading

/-!
# The brace that closes

Which brace of a text closes depends on its braces alone, comments and string literals left out.
Every reader of the grammar takes as many opening braces as closing ones, so what a block in braces
leaves is what stands behind the brace that closes it.

* `behind`            what stands behind the brace that closes
* `Reader.Balanced`   the reader takes balanced text
-/

namespace Pseudocode.Script

/-! ## Comments and string literals -/

/-- The length of the comment or the string literal that a text begins with. -/
def coverLength? (t : Text) : Option Nat :=
  (commentLength? t).or ((Token.string? t).map Prod.snd)

/-- What stands behind the brace that closes, where `depth` more braces have been opened that close
    before it; `inside` of the next characters still belong to a comment or a string literal. -/
def behind (depth inside : Nat) : Text → Option Text
  | [] => none
  | c :: r =>
    match inside with
    | inside + 1 => behind depth inside r
    | 0 =>
      match coverLength? (c :: r) with
      | some (length + 1) => behind depth length r
      | _ =>
        if c = '\x7b' then behind (depth + 1) 0 r
        else if c = '\x7d' then
          match depth with
          | 0 => some r
          | depth + 1 => behind depth 0 r
        else behind depth 0 r

/-- The characters that stand for themselves: no brace, and no beginning of a comment or a string
    literal. -/
def isPlain (c : Char) : Bool := c ∉ ['\x7b', '\x7d', '"', '\'', '/']

/-- Neither white space nor a comment stands before the first token. -/
def AtToken (t : Text) : Prop := gapLength 0 t = 0

section

variable {c : Char} {r t w : Text} {n depth : Nat}

theorem behind_inside (h : n ≤ t.length) : behind depth n t = behind depth 0 (t.drop n) := by
  induction t generalizing n with
  | nil => rw [List.drop_nil]; rfl
  | cons c t ih =>
    cases n with
    | zero => rfl
    | succ n =>
      rw [List.drop_succ_cons, ← ih (by simpa using h)]
      rfl

theorem commentEnd?_le (h : commentEnd? t = some n) : n ≤ t.length := by
  fun_induction commentEnd? t generalizing n with
  | case1 r => simp at h; simp [← h]
  | case2 c r _ ih =>
    obtain ⟨m, hm, rfl⟩ := Option.map_eq_some_iff.1 h
    exact Nat.succ_le_succ (ih hm)
  | case3 => cases h

theorem commentLength?_le (h : commentLength? t = some n) : n ≤ t.length := by
  unfold commentLength? at h
  split at h
  · rename_i r
    have hle : (r.takeWhile (· ≠ '\n')).length ≤ r.length := (List.takeWhile_prefix _).length_le
    obtain rfl := Option.some.inj h
    simp only [List.length_cons]
    omega
  · rename_i r
    obtain ⟨m, hm, rfl⟩ := Option.map_eq_some_iff.1 h
    have hle := commentEnd?_le hm
    simp only [List.length_cons]
    omega
  · cases h

theorem commentLength?_eq_none (h : c ≠ '/') (r : Text) : commentLength? (c :: r) = none := by
  unfold commentLength?
  split
  · simp_all
  · simp_all
  · rfl

theorem string?_eq_none_of_ne (hdouble : c ≠ '"') (hsingle : c ≠ '\'') (r : Text) :
    Token.string? (c :: r) = none := by
  simp [Token.string?, hdouble, hsingle]

theorem coverLength?_of_isPlain (h : isPlain c = true) (r : Text) : coverLength? (c :: r) = none := by
  simp only [isPlain, List.mem_cons, List.not_mem_nil, or_false, not_or, decide_eq_true_eq] at h
  rw [coverLength?, commentLength?_eq_none h.2.2.2.2, string?_eq_none_of_ne h.2.2.1 h.2.2.2.1]
  rfl

theorem behind_cons_of_isPlain (h : isPlain c = true) (r : Text) :
    behind depth 0 (c :: r) = behind depth 0 r := by
  have hcover := coverLength?_of_isPlain h r
  simp only [isPlain, List.mem_cons, List.not_mem_nil, or_false, not_or, decide_eq_true_eq] at h
  simp only [behind, hcover, h.1, h.2.1, ↓reduceIte]

/-- Plain characters change nothing. -/
theorem behind_append_of_isPlain (h : w.all isPlain = true) (r : Text) :
    behind depth 0 (w ++ r) = behind depth 0 r := by
  induction w with
  | nil => rfl
  | cons c w ih =>
    rw [List.all_cons, Bool.and_eq_true] at h
    rw [List.cons_append, behind_cons_of_isPlain h.1, ih h.2]

theorem behind_opening (r : Text) : behind depth 0 ('\x7b' :: r) = behind (depth + 1) 0 r := rfl

theorem behind_closing (r : Text) : behind (depth + 1) 0 ('\x7d' :: r) = behind depth 0 r := rfl

theorem behind_closing_zero (r : Text) : behind 0 0 ('\x7d' :: r) = some r := rfl

/-! ## White space -/

theorem gapLength_drop (h : n ≤ t.length) : gapLength n t = n + gapLength 0 (t.drop n) := by
  have hinside := gapLength_inside (t.take n) (t.drop n)
  rwa [List.take_append_drop, List.length_take_of_le h] at hinside

/-- A text begins with a token, or with a piece of white space or a comment before the rest. -/
theorem atToken_or_gap (t : Text) : AtToken t ∨ ∃ rest, rest.length < t.length ∧
    skip t = skip rest ∧ ∀ depth, behind depth 0 t = behind depth 0 rest := by
  cases t with
  | nil => exact .inl rfl
  | cons c r =>
    -- a gap goes on with one character of white space or with a whole comment
    by_cases hgap : isGap c = true
    · refine .inr ⟨r, by simp, skip_cons_of_isGap hgap r, fun depth => ?_⟩
      refine behind_cons_of_isPlain ?_ r
      simp only [isGap, Bool.or_eq_true, decide_eq_true_eq] at hgap
      rcases hgap with ((rfl | rfl) | rfl) | rfl <;> rfl
    · rcases hlength : commentLength? (c :: r) with _ | _ | n
      · exact .inl (by simp [AtToken, gapLength, hgap, hlength])
      · exact .inl (by simp [AtToken, gapLength, hgap, hlength])
      · have hle : n ≤ r.length := by simpa using commentLength?_le hlength
        refine .inr ⟨r.drop n, by simp, ?_, fun depth => ?_⟩
        · have hgaps : gapLength 0 (c :: r) = gapLength 0 (r.drop n) + n + 1 := by
            simp only [gapLength, hgap, hlength, gapLength_drop hle, Bool.false_eq_true, ↓reduceIte]
            omega
          rw [skip, hgaps, List.drop_succ_cons, Nat.add_comm, ← List.drop_drop]
          rfl
        · have hcover : coverLength? (c :: r) = some (n + 1) := by
            rw [coverLength?, hlength]
            rfl
          rw [← behind_inside hle]
          simp only [behind, hcover]

/-- Behind white space and comments stands a token. -/
theorem atToken_skip (t : Text) : AtToken (skip t) := by
  induction h : t.length using Nat.strong_induction_on generalizing t with
  | _ n ih =>
    rcases atToken_or_gap t with hat | ⟨rest, hless, hskip, -⟩
    · rwa [skip, show gapLength 0 t = 0 from hat]
    · rw [hskip]
      exact ih _ (h ▸ hless) rest rfl

/-- White space and comments change nothing. -/
theorem behind_skip (t : Text) : behind depth 0 (skip t) = behind depth 0 t := by
  induction h : t.length using Nat.strong_induction_on generalizing t with
  | _ n ih =>
    rcases atToken_or_gap t with hat | ⟨rest, hless, hskip, hbehind⟩
    · rw [skip, show gapLength 0 t = 0 from hat, List.drop_zero]
    · rw [hskip, hbehind, ih _ (h ▸ hless) rest rfl]

/-- A slash that is a token by itself changes nothing. -/
theorem behind_slash (h : AtToken ('/' :: r)) : behind depth 0 ('/' :: r) = behind depth 0 r := by
  match hlength : commentLength? ('/' :: r) with
  | some (n + 1) => simp [AtToken, gapLength, hlength, isGap] at h
  | some 0 => simp [behind, coverLength?, hlength]
  | none => simp [behind, coverLength?, hlength, Token.string?]

theorem quoted?_cons {quote : Char} (hmark : c ≠ '\\') (r : Text) :
    Token.quoted? quote (c :: r) = if c = quote then some []
      else if c = '\n' then none else (Token.quoted? quote r).map (c :: ·) := by
  rw [Token.quoted?]
  · exact fun h => absurd h hmark
  · exact fun _ _ h => absurd h hmark

theorem quoted?_lt {quote : Char} (h : Token.quoted? quote t = some w) : w.length < t.length := by
  fun_induction Token.quoted? quote t generalizing w with
  | case1 | case2 => cases h
  | case3 c r ih =>
    obtain ⟨inner, hinner, rfl⟩ := Option.map_eq_some_iff.1 h
    have hlt := ih hinner
    simp only [List.length_cons]
    omega
  | case4 r =>
    obtain rfl := Option.some.inj h
    simp
  | case5 => cases h
  | case6 c r _ _ _ _ ih =>
    obtain ⟨inner, hinner, rfl⟩ := Option.map_eq_some_iff.1 h
    simpa using ih hinner

/-- A string literal changes nothing. -/
theorem behind_string {s : Text} (h : Token.string? t = some (s, n)) :
    behind depth 0 t = behind depth 0 (t.drop n) := by
  cases t with
  | nil => cases h
  | cons quote r =>
    -- a string is no comment, so the cover that begins here is the string
    have hcover : coverLength? (quote :: r) = some n := by
      have hcomment : commentLength? (quote :: r) = none := by
        refine commentLength?_eq_none ?_ r
        rintro rfl
        cases h
      rw [coverLength?, hcomment, h]
      rfl
    simp only [Token.string?] at h
    split at h
    · obtain ⟨written, hwritten, hw⟩ := Option.map_eq_some_iff.1 h
      obtain ⟨-, rfl⟩ := Prod.mk.inj hw
      have hlt := quoted?_lt hwritten
      rw [List.drop_succ_cons, ← behind_inside (by omega)]
      simp only [behind, hcover]
    · cases h

end

/-! ## Tokens -/

/-- The token that the function finds opens and closes nothing. -/
def Crosses {α : Type} (scan : Text → Option (α × Nat)) : Prop :=
  ∀ t a n, scan t = some (a, n) → AtToken t → ∀ depth, behind depth 0 t = behind depth 0 (t.drop n)

section

variable {α : Type} {scan : Text → Option (α × Nat)}

/-- A token of plain characters. -/
theorem crosses_of_plain (h : ∀ t a n, scan t = some (a, n) →
    ∃ w r, t = w ++ r ∧ w.length = n ∧ w.all isPlain = true) : Crosses scan := by
  intro t a n hscan _ depth
  obtain ⟨w, r, rfl, rfl, hw⟩ := h t a n hscan
  rw [List.drop_left, behind_append_of_isPlain hw]

theorem isPlain_of_isIdentifierChar {c : Char} (h : Text.isIdentifierChar c = true) :
    isPlain c = true := by
  simp only [isPlain, List.mem_cons, List.not_mem_nil, or_false, not_or, decide_eq_true_eq]
  refine ⟨?_, ?_, ?_, ?_, ?_⟩
  all_goals
    rintro rfl
    cases h

/-- A token that is a whole word. -/
theorem crosses_of_word (h : ∀ t a n, scan t = some (a, n) → n = (Reader.wordStart t).length) :
    Crosses scan := by
  refine crosses_of_plain fun t a n hscan => ?_
  refine ⟨Reader.wordStart t, t.dropWhile Text.isIdentifierChar, ?_, (h t a n hscan).symm, ?_⟩
  · exact List.takeWhile_append_dropWhile.symm
  · exact List.all_eq_true.2 fun c hc => isPlain_of_isIdentifierChar (List.mem_takeWhile_imp hc)

theorem crosses_name? : Crosses Token.name? := by
  refine crosses_of_word fun t a n h => ?_
  unfold Token.name? at h
  split at h
  · cases h
  · split at h
    · exact (Prod.mk.inj (Option.some.inj h)).2.symm
    · cases h

theorem crosses_identifier? : Crosses Token.identifier? :=
  fun t a n h => crosses_name? t a n (Option.filter_eq_some_iff.1 h).1

theorem crosses_wordOf? (table : List (Text × α)) : Crosses (Token.wordOf? table) := by
  refine crosses_of_word fun t a n h => ?_
  obtain ⟨_, -, heq⟩ := Option.map_eq_some_iff.1 h
  exact (Prod.mk.inj heq).2.symm

theorem crosses_string? : Crosses Token.string? :=
  fun _ _ _ h _ _ => behind_string h

theorem isPlain_of_isDigit {c : Char} (h : c.isDigit = true) : isPlain c = true :=
  isPlain_of_isIdentifierChar (by simp [Text.isIdentifierChar, Char.isAlphanum, h])

theorem splitDigits_plain (t : Text) : (Numeral.splitDigits t).1.all isPlain = true :=
  List.all_eq_true.2 fun _ hc => isPlain_of_isDigit (List.mem_takeWhile_imp hc)

theorem splitDigits_append_rest (t : Text) :
    (Numeral.splitDigits t).1 ++ (Numeral.splitDigits t).2 = t :=
  List.takeWhile_append_dropWhile

theorem exponentStart_split (t : Text) :
    ∃ r, t = Numeral.exponentStart t ++ r ∧ (Numeral.exponentStart t).all isPlain = true := by
  unfold Numeral.exponentStart
  split
  · rename_i e r
    split
    · rename_i he
      extract_lets sign digits
      -- with or without a sign, the text is cut before the digits
      have hsign : r = sign ++ r.drop sign.length ∧ sign.all isPlain = true := by
        simp only [sign]
        split <;> exact ⟨rfl, rfl⟩
      have hletter : isPlain e = true := by
        simp only [Bool.or_eq_true, decide_eq_true_eq] at he
        rcases he with rfl | rfl <;> rfl
      split
      · exact ⟨e :: r, rfl, rfl⟩
      · refine ⟨(Numeral.splitDigits (r.drop sign.length)).2, ?_, ?_⟩
        · rw [List.cons_append, List.cons_append, List.append_assoc, splitDigits_append_rest,
            ← hsign.1]
        · rw [List.cons_append, List.all_cons, List.all_append, hletter, hsign.2, splitDigits_plain]
          rfl
    · exact ⟨e :: r, rfl, rfl⟩
  · exact ⟨[], rfl, rfl⟩

/-- The parts of the numeral that a text begins with: the digits, those behind the point if there is
    one, and the exponent. -/
def numeralParts (t : Text) : Text × Option Text × Text :=
  match (Numeral.splitDigits t).2 with
  | '.' :: r => ((Numeral.splitDigits t).1, some (Numeral.splitDigits r).1,
      Numeral.exponentStart (Numeral.splitDigits r).2)
  | rest => ((Numeral.splitDigits t).1, none, Numeral.exponentStart rest)

/-- The numeral that is made of parts. -/
def numeralText (parts : Text × Option Text × Text) : Text :=
  match parts with
  | (whole, none, exponent) => whole ++ exponent
  | (whole, some fraction, exponent) => whole ++ '.' :: (fraction ++ exponent)

/-- Whether no digits stand before the exponent. -/
def lacksDigits (parts : Text × Option Text × Text) : Bool :=
  parts.1.isEmpty && (parts.2.1.getD []).isEmpty

theorem numeralText_split (t : Text) : ∃ r, t = numeralText (numeralParts t) ++ r ∧
    (numeralText (numeralParts t)).all isPlain = true := by
  have hwhole := splitDigits_append_rest t
  have hplain := splitDigits_plain t
  unfold numeralParts
  generalize Numeral.splitDigits t = parts at hwhole hplain
  obtain ⟨whole, rest⟩ := parts
  simp only at hwhole hplain ⊢
  split
  · rename_i r
    have hfraction := splitDigits_append_rest r
    have hdigits := splitDigits_plain r
    obtain ⟨after, hexponent, hletters⟩ := exponentStart_split (Numeral.splitDigits r).2
    refine ⟨after, ?_, ?_⟩
    · rw [numeralText, List.append_assoc, List.cons_append, List.append_assoc, ← hexponent,
        hfraction, hwhole]
    · rw [numeralText, List.all_append, List.all_cons, List.all_append, hplain, hdigits, hletters]
      rfl
  · obtain ⟨after, hexponent, hletters⟩ := exponentStart_split rest
    refine ⟨after, ?_, ?_⟩
    · rw [numeralText, List.append_assoc, ← hexponent, hwhole]
    · rw [numeralText, List.all_append, hplain, hletters]
      rfl

/-- A number is read from the numeral and nothing else. -/
theorem number?_eq (t : Text) : Token.number? t =
    if lacksDigits (numeralParts t) then none
    else (Numeral.float? (numeralText (numeralParts t))).map fun x =>
      (x, (numeralText (numeralParts t)).length) := by
  obtain ⟨after, hsplit, -⟩ := numeralText_split t
  have htake : t.take (numeralText (numeralParts t)).length = numeralText (numeralParts t) :=
    (congrArg (List.take _) hsplit).trans List.take_left
  unfold Token.number?
  unfold numeralParts at htake ⊢
  generalize Numeral.splitDigits t = parts at htake ⊢
  obtain ⟨whole, rest⟩ := parts
  simp only at htake ⊢
  -- with a point and without one
  split
  · rename_i r
    simp only at htake ⊢
    have hlength : whole.length + 1 + (Numeral.splitDigits r).1.length +
        Token.exponentLength (Numeral.splitDigits r).2 =
          (numeralText (whole, some (Numeral.splitDigits r).1,
            Numeral.exponentStart (Numeral.splitDigits r).2)).length := by
      simp only [numeralText, List.length_append, List.length_cons, Token.exponentLength]
      omega
    rw [hlength, htake]
    rfl
  · have hlength : whole.length + 0 + ([] : Text).length + Token.exponentLength rest =
        (numeralText (whole, none, Numeral.exponentStart rest)).length := by
      simp only [numeralText, List.length_append, List.length_nil, Token.exponentLength]
      omega
    simp only at htake ⊢
    rw [hlength, htake]
    rfl

theorem crosses_number? : Crosses Token.number? := by
  refine crosses_of_plain fun t a n h => ?_
  obtain ⟨after, hsplit, hplain⟩ := numeralText_split t
  rw [number?_eq] at h
  obtain ⟨-, hfound⟩ := Option.ite_none_left_eq_some.1 h
  obtain ⟨x, -, hx⟩ := Option.map_eq_some_iff.1 hfound
  exact ⟨_, after, hsplit, (Prod.mk.inj hx).2, hplain⟩

/-- A token that is written in signs, of which only the first one may be a slash. -/
theorem crosses_of_signs (h : ∀ t a n, scan t = some (a, n) → ∃ first w r,
    t = first :: (w ++ r) ∧ w.length + 1 = n ∧ (isPlain first = true ∨ first = '/') ∧
    w.all isPlain = true) : Crosses scan := by
  intro t a n hscan hat depth
  obtain ⟨first, w, r, rfl, rfl, hfirst, hw⟩ := h t a n hscan
  have hbehind : behind depth 0 (first :: (w ++ r)) = behind depth 0 (w ++ r) := by
    rcases hfirst with hplain | rfl
    · exact behind_cons_of_isPlain hplain _
    · exact behind_slash hat
  rw [List.drop_succ_cons, List.drop_left, hbehind, behind_append_of_isPlain hw]

theorem crosses_assignmentOperator? : Crosses Token.assignmentOperator? := by
  refine crosses_of_signs fun t operator n h => ?_
  obtain ⟨rfl, r, rfl, -⟩ := assignmentOperator?_eq_some_iff.1 h
  cases operator <;> exact ⟨_, _, r, rfl, rfl, by decide, by rfl⟩

theorem crosses_binaryOperator? (level : Level) : Crosses (Token.binaryOperator? level) := by
  refine crosses_of_signs fun t operator n h => ?_
  obtain ⟨-, rfl, r, rfl, -⟩ := binaryOperator?_eq_some_iff.1 h
  cases operator <;> exact ⟨_, _, r, rfl, rfl, by decide, by rfl⟩

theorem crosses_unaryOperator? : Crosses Token.unaryOperator? := by
  intro t a n h hat depth
  unfold Token.unaryOperator? at h
  split at h
  · split at h
    · cases h
    · obtain ⟨-, rfl⟩ := Prod.mk.inj (Option.some.inj h)
      exact behind_cons_of_isPlain rfl _
  · obtain ⟨-, rfl⟩ := Prod.mk.inj (Option.some.inj h)
    exact behind_cons_of_isPlain rfl _
  · obtain ⟨-, rfl⟩ := Prod.mk.inj (Option.some.inj h)
    exact behind_cons_of_isPlain rfl _
  · exact crosses_wordOf? _ t a n h hat depth

end

/-! ## Readers -/

namespace Reader

variable {α β : Type}

section

variable {r s : Reader α} {f : α → Reader β} {step : α → Reader α} {c : Cursor} {a : α} {fuel : Nat}
  {scan : Text → Option (α × Nat)}

theorem result_pure : ((pure a : Reader α) c).result = some (a, c) := rfl

theorem result_place : (place c).result = some (c.offset, c) := rfl

theorem result_bind : ((r >>= f) c).result = (r c).result.bind fun found => (f found.1 found.2).result := by
  show (andThen r f c).result = _
  unfold andThen
  split
  · rename_i h; rw [h]; rfl
  · rename_i h; rw [h]; rfl

theorem result_part : (part r c).result = (r c).result := by
  unfold part
  split
  · rename_i h; rw [h]
  · rfl

theorem result_orElse : (orElse r s c).result = (r c).result.or (s c).result := by
  unfold orElse
  split
  · rename_i h; rw [h]; rfl
  · rename_i h; rw [h]; rfl

theorem result_optional : (optional r c).result =
    some ((r c).result.elim (none, c) fun found => (some found.1, found.2)) := by
  unfold optional
  split
  · rename_i h; rw [h]; rfl
  · rename_i h; rw [h]; rfl

theorem result_iterate_succ : (iterate step (fuel + 1) a c).result =
    (step a c).result.elim (some (a, c)) fun found => (iterate step fuel found.1 found.2).result := by
  rw [iterate]
  dsimp only
  split
  · rename_i h; rw [h]; rfl
  · rename_i h; rw [h]; rfl

theorem result_token : (token scan c).result =
    (scan c.rest).map fun found => (found.1, (c.advance found.2).skipGap) := by
  unfold token
  split
  · rename_i h; rw [h]; rfl
  · rename_i h; rw [h]; rfl

end

/-- What the reader takes has no brace that closes or is closed by one outside of it. -/
def Balanced (r : Reader α) : Prop :=
  ∀ c a c', (r c).result = some (a, c') → AtToken c.rest →
    AtToken c'.rest ∧ ∀ depth, behind depth 0 c.rest = behind depth 0 c'.rest

section

variable {r s : Reader α} {f : α → Reader β} {step : α → Reader α} {fuel : Nat}
  {scan : Text → Option (α × Nat)}

theorem balanced_pure (a : α) : Balanced (pure a) := by
  intro c a' c' h hat
  obtain ⟨-, rfl⟩ := Prod.mk.inj (Option.some.inj h)
  exact ⟨hat, fun _ => rfl⟩

theorem balanced_place : Balanced place := by
  intro c a' c' h hat
  obtain ⟨-, rfl⟩ := Prod.mk.inj (Option.some.inj h)
  exact ⟨hat, fun _ => rfl⟩

theorem balanced_fail : Balanced (fail : Reader α) := fun _ _ _ h => by cases h

theorem Balanced.bind (h : Balanced r) (hf : ∀ a, Balanced (f a)) : Balanced (r >>= f) := by
  intro c b c'' hresult hat
  rw [result_bind, Option.bind_eq_some_iff] at hresult
  obtain ⟨⟨a, c'⟩, hr, hb⟩ := hresult
  obtain ⟨hat', hfirst⟩ := h c a c' hr hat
  obtain ⟨hat'', hnext⟩ := hf a c' b c'' hb hat'
  exact ⟨hat'', fun depth => (hfirst depth).trans (hnext depth)⟩

theorem Balanced.part (h : Balanced r) : Balanced (part r) := by
  intro c a c' hresult
  rw [result_part] at hresult
  exact h c a c' hresult

theorem Balanced.orElse (h : Balanced r) (hs : Balanced s) : Balanced (orElse r s) := by
  intro c a c' hresult
  rw [result_orElse, Option.or_eq_some_iff] at hresult
  rcases hresult with hr | ⟨-, hs'⟩
  · exact h c a c' hr
  · exact hs c a c' hs'

theorem balanced_oneOf {readers : List (Reader α)} (h : ∀ r ∈ readers, Balanced r) :
    Balanced (oneOf readers) := by
  induction readers with
  | nil => exact balanced_fail
  | cons r readers ih =>
    rw [List.forall_mem_cons] at h
    exact h.1.orElse (ih h.2)

theorem Balanced.optional (h : Balanced r) : Balanced (optional r) := by
  intro c a c' hresult hat
  rw [result_optional] at hresult
  match hr : (r c).result with
  | none =>
    rw [hr] at hresult
    obtain ⟨-, rfl⟩ := Prod.mk.inj (Option.some.inj hresult)
    exact ⟨hat, fun _ => rfl⟩
  | some (_, _) =>
    rw [hr] at hresult
    obtain ⟨-, rfl⟩ := Prod.mk.inj (Option.some.inj hresult)
    exact h _ _ _ hr hat

theorem Balanced.iterate (h : ∀ a, Balanced (step a)) : ∀ fuel a, Balanced (iterate step fuel a) := by
  intro fuel
  induction fuel with
  | zero => exact balanced_pure
  | succ fuel ih =>
    intro a c b c'' hresult hat
    rw [result_iterate_succ] at hresult
    -- the rounds end with the first that reads nothing
    match hr : (step a c).result with
    | none =>
      rw [hr] at hresult
      obtain ⟨-, rfl⟩ := Prod.mk.inj (Option.some.inj hresult)
      exact ⟨hat, fun _ => rfl⟩
    | some (_, _) =>
      rw [hr] at hresult
      obtain ⟨hat', hfirst⟩ := h a _ _ _ hr hat
      obtain ⟨hat'', hnext⟩ := ih _ _ _ _ hresult hat'
      exact ⟨hat'', fun depth => (hfirst depth).trans (hnext depth)⟩

theorem Balanced.many (h : Balanced r) (fuel : Nat) : Balanced (many fuel r) :=
  (Balanced.iterate (fun _ => h.bind fun _ => balanced_pure _) fuel []).bind fun _ => balanced_pure _

/-- A token leaves the token behind it. -/
theorem balanced_token (h : Crosses scan) : Balanced (token scan) := by
  intro c a c' hresult hat
  rw [result_token] at hresult
  obtain ⟨⟨a, n⟩, hscan, heq⟩ := Option.map_eq_some_iff.1 hresult
  obtain ⟨-, rfl⟩ := Prod.mk.inj heq
  exact ⟨atToken_skip _, fun depth => (h _ _ _ hscan hat depth).trans (behind_skip _).symm⟩

theorem balanced_sign {c : Char} (h : isPlain c = true) : Balanced (sign c) := by
  refine balanced_token (crosses_of_plain fun t _ n hscan => ?_)
  obtain ⟨hhead, heq⟩ := Option.ite_none_right_eq_some.1 hscan
  obtain ⟨-, rfl⟩ := Prod.mk.inj (Option.some.inj heq)
  refine ⟨[c], t.tail, (List.cons_head?_tail hhead).symm, rfl, ?_⟩
  rw [List.all_cons, h]
  rfl

theorem balanced_word (w : Text) : Balanced (word w) := by
  refine balanced_token (crosses_of_word fun t _ n hscan => ?_)
  obtain ⟨hword, heq⟩ := Option.ite_none_right_eq_some.1 hscan
  obtain ⟨-, rfl⟩ := Prod.mk.inj (Option.some.inj heq)
  rw [hword]

theorem sign_eq_some {s : Char} {c c' : Cursor} {u : Unit} (h : (sign s c).result = some (u, c')) :
    ∃ r, c.rest = s :: r ∧ c'.rest = skip r := by
  rw [sign, result_token] at h
  obtain ⟨⟨_, n⟩, hscan, heq⟩ := Option.map_eq_some_iff.1 h
  obtain ⟨hhead, hn⟩ := Option.ite_none_right_eq_some.1 hscan
  obtain ⟨-, rfl⟩ := Prod.mk.inj (Option.some.inj hn)
  obtain ⟨-, rfl⟩ := Prod.mk.inj heq
  have hrest := List.cons_head?_tail hhead
  refine ⟨c.rest.tail, hrest.symm, ?_⟩
  rw [← List.drop_one]
  rfl

/-- A reader in braces leaves what stands behind the brace that closes. -/
theorem Balanced.braces_eq_some (h : Balanced r) {c c' : Cursor} {a : α}
    (hresult : ((do sign '\x7b'; let a ← r; sign '\x7d'; return a : Reader α) c).result
      = some (a, c')) :
    ∃ mid rest, c.rest = '\x7b' :: mid ∧ c'.rest = skip rest ∧ behind 0 0 mid = some rest ∧
      ∀ depth, behind (depth + 1) 0 mid = behind depth 0 rest := by
  rw [result_bind, Option.bind_eq_some_iff] at hresult
  obtain ⟨⟨_, inside⟩, hopen, hresult⟩ := hresult
  rw [result_bind, Option.bind_eq_some_iff] at hresult
  obtain ⟨⟨a', last⟩, hr, hresult⟩ := hresult
  rw [result_bind, Option.bind_eq_some_iff] at hresult
  obtain ⟨⟨_, after⟩, hclose, hresult⟩ := hresult
  obtain ⟨-, rfl⟩ := Prod.mk.inj (Option.some.inj hresult)
  obtain ⟨mid, hmid, hinside⟩ := sign_eq_some hopen
  obtain ⟨rest, hlast, hafter⟩ := sign_eq_some hclose
  -- what stands between the braces is balanced, so the search goes on to the second one
  obtain ⟨-, hbehind⟩ := h _ _ _ hr (hinside ▸ atToken_skip mid)
  rw [hinside, hlast] at hbehind
  refine ⟨mid, rest, hmid, hafter, ?_, fun depth => ?_⟩
  · rw [← behind_skip, hbehind, behind_closing_zero]
  · rw [← behind_skip, hbehind, behind_closing]

theorem Balanced.braces (h : Balanced r) :
    Balanced (do sign '\x7b'; let a ← r; sign '\x7d'; return a : Reader α) := by
  intro c a c' hresult _
  obtain ⟨mid, rest, hmid, hrest, -, hbehind⟩ := h.braces_eq_some hresult
  rw [hmid, hrest]
  refine ⟨atToken_skip rest, fun depth => ?_⟩
  rw [behind_opening, behind_skip, hbehind]

end

end Reader

/-! ## The grammar -/

namespace Grammar

open Reader

variable {fuel : Nat}

section

variable {self : Reader Phrase}

theorem balanced_commaList {α : Type} {item : Reader α} (h : Balanced item) :
    Balanced (commaList fuel item) := by
  refine h.bind fun _ => ?_
  refine (Balanced.many ?_ fuel).bind fun _ => balanced_pure _
  exact (balanced_sign rfl).bind fun _ => h

theorem balanced_callArguments (h : Balanced self) : Balanced (callArguments fuel self) := by
  refine Balanced.part ?_
  refine (balanced_sign rfl).bind fun _ => ?_
  refine (balanced_commaList h).optional.bind fun _ => ?_
  exact (balanced_sign rfl).bind fun _ => balanced_pure _

theorem balanced_arrayLiteral (h : Balanced self) : Balanced (arrayLiteral fuel self) := by
  refine Balanced.part ?_
  refine balanced_place.bind fun _ => ?_
  refine (balanced_sign rfl).bind fun _ => ?_
  refine (Balanced.optional ?_).bind fun _ => (balanced_sign rfl).bind fun _ => balanced_pure _
  refine (balanced_commaList h).bind fun _ => ?_
  exact (balanced_sign rfl).optional.bind fun _ => balanced_pure _

theorem balanced_construction (h : Balanced self) : Balanced (construction fuel self) := by
  refine Balanced.part ?_
  refine balanced_place.bind fun _ => ?_
  refine (balanced_word _).part.bind fun _ => ?_
  refine (balanced_token crosses_identifier?).part.bind fun _ => ?_
  exact (balanced_callArguments h).optional.bind fun _ => balanced_pure _

theorem balanced_group (h : Balanced self) : Balanced (group self) := by
  refine balanced_place.bind fun _ => ?_
  refine (balanced_sign rfl).bind fun _ => ?_
  exact h.bind fun _ => (balanced_sign rfl).bind fun _ => balanced_pure _

theorem balanced_single {α : Type} {scan : Text → Option (α × Nat)} (h : Crosses scan)
    (phrase : Nat → α → Phrase) : Balanced (single scan phrase) :=
  (balanced_place.bind fun _ => (balanced_token h).bind fun _ => balanced_pure _).part

theorem balanced_primary (h : Balanced self) : Balanced (primary fuel self) := by
  refine balanced_oneOf ?_
  simp only [List.forall_mem_cons]
  refine ⟨balanced_single crosses_number? _, balanced_single crosses_string? _,
    balanced_single (crosses_wordOf? _) _, balanced_single (crosses_wordOf? _) _,
    balanced_single (crosses_wordOf? _) _, balanced_arrayLiteral h, balanced_construction h,
    balanced_single crosses_identifier? _, balanced_group h, List.forall_mem_nil _⟩

theorem balanced_suffix (h : Balanced self) (object : Phrase) :
    Balanced (suffix fuel self object) := by
  refine balanced_place.bind fun _ => ?_
  refine balanced_oneOf ?_
  simp only [List.forall_mem_cons]
  refine ⟨?_, Balanced.part ?_, Balanced.part ?_, List.forall_mem_nil _⟩
  · exact (balanced_callArguments h).bind fun _ => balanced_pure _
  · refine (balanced_sign rfl).bind fun _ => ?_
    exact h.bind fun _ => (balanced_sign rfl).bind fun _ => balanced_pure _
  · refine (balanced_sign rfl).bind fun _ => balanced_place.bind fun _ => ?_
    exact (balanced_token crosses_name?).part.bind fun _ => balanced_pure _

theorem balanced_suffixed (h : Balanced self) : Balanced (suffixed fuel self) :=
  ((balanced_primary h).bind fun _ => Balanced.iterate (balanced_suffix h) fuel _).part

theorem balanced_unary (h : Balanced self) : Balanced (unary fuel self) := by
  refine Balanced.part ?_
  refine Balanced.bind ?_ fun _ => (balanced_suffixed h).bind fun _ => balanced_pure _
  refine Balanced.many (Balanced.part ?_) fuel
  exact balanced_place.bind fun _ => (balanced_token crosses_unaryOperator?).bind fun _ =>
    balanced_pure _

theorem balanced_chain {operand : Reader Phrase} (h : Balanced operand) (level : Level) :
    Balanced (chain fuel level operand) := by
  refine Balanced.part ?_
  refine h.bind fun _ => Balanced.iterate (fun _ => ?_) fuel _
  refine balanced_place.bind fun _ => ?_
  refine (balanced_token (crosses_binaryOperator? level)).part.bind fun _ => ?_
  exact h.bind fun _ => balanced_pure _

theorem balanced_binary (h : Balanced self) : Balanced (binary fuel self) := by
  unfold binary
  generalize [3, 4, 5, 6, 7, 8] = levels
  induction levels with
  | nil => exact balanced_unary h
  | cons level levels ih => exact balanced_chain ih level

theorem balanced_conditional (h : Balanced self) : Balanced (conditional fuel self) := by
  refine Balanced.part ?_
  refine (balanced_binary h).bind fun _ => ?_
  refine (Balanced.optional ?_).bind fun _ => balanced_pure _
  refine (balanced_sign rfl).bind fun _ => h.bind fun _ => ?_
  exact (balanced_sign rfl).bind fun _ => h.bind fun _ => balanced_pure _

theorem balanced_assignment (h : Balanced self) : Balanced (assignment fuel self) := by
  refine Balanced.part ?_
  refine (balanced_conditional h).bind fun _ => ?_
  refine (Balanced.optional ?_).bind fun _ => balanced_pure _
  refine (balanced_token crosses_assignmentOperator?).part.bind fun _ => ?_
  exact h.bind fun _ => balanced_pure _

theorem balanced_phrase (depth : Nat) : Balanced (phrase fuel depth) := by
  induction depth with
  | zero => exact balanced_fail
  | succ depth ih => exact balanced_assignment ih

theorem balanced_expression : Balanced (expression fuel) := balanced_phrase fuel

end

section

variable {self : Reader Sentence}

theorem balanced_braces (h : Balanced self) : Balanced (braces fuel self) :=
  (h.many fuel).braces.part

theorem balanced_parameters : Balanced (parameters fuel) := by
  refine Balanced.part ?_
  refine (balanced_sign rfl).bind fun _ => ?_
  refine (balanced_commaList (balanced_token crosses_identifier?).part).optional.bind fun _ => ?_
  exact (balanced_sign rfl).bind fun _ => balanced_pure _

theorem balanced_function (h : Balanced self) : Balanced (Grammar.function fuel self) := by
  refine Balanced.part ?_
  refine balanced_place.bind fun _ => ?_
  refine (balanced_word _).part.optional.bind fun _ => ?_
  refine (balanced_word _).part.bind fun _ => balanced_place.bind fun _ => ?_
  refine (balanced_token crosses_identifier?).part.bind fun _ => ?_
  refine balanced_parameters.bind fun _ => ?_
  exact (balanced_braces h).bind fun _ => balanced_pure _

theorem balanced_tested (keyword : Text) : Balanced (tested fuel keyword) := by
  refine (balanced_word _).part.bind fun _ => (balanced_sign rfl).bind fun _ => ?_
  exact balanced_expression.bind fun _ => (balanced_sign rfl).bind fun _ => balanced_pure _

theorem balanced_branch (h : Balanced self) : Balanced (branch fuel self) := by
  refine Balanced.part ?_
  refine (balanced_tested _).bind fun _ => h.bind fun _ => ?_
  refine (Balanced.optional ?_).bind fun _ => balanced_pure _
  exact (balanced_word _).part.bind fun _ => h

theorem balanced_whileLoop (h : Balanced self) : Balanced (whileLoop fuel self) :=
  ((balanced_tested _).bind fun _ => h.bind fun _ => balanced_pure _).part

theorem balanced_declarator : Balanced (declarator fuel) := by
  refine Balanced.part ?_
  refine balanced_place.bind fun _ => ?_
  refine (balanced_token crosses_identifier?).part.bind fun _ => ?_
  refine (Balanced.optional ?_).bind fun _ => balanced_pure _
  exact (balanced_sign rfl).bind fun _ => balanced_expression

theorem balanced_declaration : Balanced (declaration fuel) := by
  refine Balanced.part ?_
  refine (balanced_token (crosses_wordOf? _)).part.bind fun _ => ?_
  exact (balanced_commaList balanced_declarator).bind fun _ => balanced_pure _

theorem balanced_loopStart : Balanced (loopStart fuel) := by
  refine Balanced.part (Balanced.orElse ?_ ?_)
  · exact balanced_declaration.bind fun _ => balanced_pure _
  · exact balanced_expression.bind fun _ => balanced_pure _

theorem balanced_forLoop (h : Balanced self) : Balanced (forLoop fuel self) := by
  refine Balanced.part ?_
  refine balanced_place.bind fun _ => (balanced_word _).part.bind fun _ => ?_
  refine (balanced_sign rfl).bind fun _ => balanced_loopStart.optional.bind fun _ => ?_
  refine (balanced_sign rfl).bind fun _ => balanced_expression.optional.bind fun _ => ?_
  refine (balanced_sign rfl).bind fun _ => balanced_expression.optional.bind fun _ => ?_
  exact (balanced_sign rfl).bind fun _ => h.bind fun _ => balanced_pure _

theorem balanced_sentence (h : Balanced self) : Balanced (sentence fuel self) := by
  refine balanced_oneOf ?_
  simp only [List.forall_mem_cons]
  refine ⟨?block, balanced_function h, balanced_branch h, balanced_whileLoop h, balanced_forLoop h,
    Balanced.part ?declaration, Balanced.part ?returning, Balanced.part ?breaking,
    Balanced.part ?continuing, Balanced.part ?empty, Balanced.part ?expression,
    List.forall_mem_nil _⟩
  case block => exact (balanced_braces h).bind fun _ => balanced_pure _
  case declaration =>
    exact balanced_declaration.bind fun _ => (balanced_sign rfl).bind fun _ => balanced_pure _
  case returning =>
    refine balanced_place.bind fun _ => (balanced_word _).part.bind fun _ => ?_
    refine balanced_expression.optional.bind fun _ => ?_
    exact (balanced_sign rfl).bind fun _ => balanced_pure _
  case breaking | continuing =>
    refine balanced_place.bind fun _ => (balanced_word _).part.bind fun _ => ?_
    exact (balanced_sign rfl).bind fun _ => balanced_pure _
  case empty => exact (balanced_sign rfl).bind fun _ => balanced_pure _
  case expression =>
    exact balanced_expression.bind fun _ => (balanced_sign rfl).bind fun _ => balanced_pure _

theorem balanced_statement (depth : Nat) : Balanced (statement fuel depth) := by
  induction depth with
  | zero => exact balanced_fail
  | succ depth ih => exact balanced_sentence ih

end

end Grammar

end Pseudocode.Script
