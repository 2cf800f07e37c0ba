import Pseudocode.Proofs.Respelling
import Pseudocode.Proofs.WordColumns

/-!
# How often a word stands in a text

Whole words of a text are whole words of its parts, as long as the text is not cut inside of a word. So the
occurrences in a text are numbered through its parts, and the number of an occurrence says which part it is in.
Rewriting an expression changes the spelling of operators and truth values only, and every other word stands in
the script's expression as often as in the source's.

* `Separated`                      a cut that divides no word
* `tally_append`                   the occurrences in a text of two parts
* `length_le_iff_tally_le`         the part that an occurrence is in, by its number
* `tally_rewrite`                  rewriting keeps the number of occurrences of a word
-/

namespace Pseudocode.Column

/-! ## Cuts between words -/

/-- A text of word characters. -/
structure IsWord (word : Text) : Prop where
  ne_nil : word ≠ []
  isWord : ∀ c ∈ word, isWordChar c = true

/-- Between the two texts there is no word that goes on from the one to the other. -/
def Separated (a b : Text) : Prop :=
  (∀ c ∈ a.getLast?, isWordChar c = false) ∨ ∀ c ∈ b.head?, isWordChar c = false

instance (a b : Text) : Decidable (Separated a b) :=
  decidable_of_iff (a.getLast?.all (fun c => !isWordChar c) = true ∨ b.head?.all (fun c => !isWordChar c) = true)
    (by simp [Separated, Option.all_eq_true])

/-- How often the word stands in a text. -/
def tally (word t : Text) : Nat := Nat.count (StandsAt word t) t.length

variable {word t u v a b x y : Text} {o p : Nat} {c : Char}

theorem IsWord.getLast?_eq (h : IsWord word) : ∃ c ∈ word.getLast?, isWordChar c = true :=
  ⟨word.getLast h.ne_nil, List.getLast?_eq_some_getLast h.ne_nil, h.isWord _ (List.getLast_mem h.ne_nil)⟩

theorem IsWord.head?_eq (h : IsWord word) : ∃ c ∈ word.head?, isWordChar c = true :=
  ⟨word.head h.ne_nil, List.head?_eq_some_head h.ne_nil, h.isWord _ (List.head_mem h.ne_nil)⟩

theorem separated_nil_left (b : Text) : Separated [] b := .inl (by simp)

theorem separated_nil_right (a : Text) : Separated a [] := .inr (by simp)

/-- Behind a word there is no word character. -/
theorem Separated.of_word_left (h : Separated a b) (ha : ∃ c ∈ a.getLast?, isWordChar c = true) :
    ∀ c ∈ b.head?, isWordChar c = false := by
  refine h.resolve_left fun hnone => ?_
  obtain ⟨c, hc, hword⟩ := ha
  exact absurd (hword.symm.trans (hnone c hc)) (by simp)

/-- Nor is there one in front of a word. -/
theorem Separated.of_word_right (h : Separated a b) (hb : ∃ c ∈ b.head?, isWordChar c = true) :
    ∀ c ∈ a.getLast?, isWordChar c = false := by
  refine h.resolve_right fun hnone => ?_
  obtain ⟨c, hc, hword⟩ := hb
  exact absurd (hword.symm.trans (hnone c hc)) (by simp)

theorem Separated.append_left (h : Separated a b) (ha : a ≠ []) (x : Text) : Separated (x ++ a) b :=
  h.imp_left fun hlast c hc => hlast c (by rwa [List.getLast?_append_of_ne_nil _ ha] at hc)

theorem Separated.append_right (h : Separated a b) (hb : b ≠ []) (x : Text) : Separated a (b ++ x) :=
  h.imp_right fun hhead c hc => hhead c (by rwa [List.head?_append_of_ne_nil _ hb] at hc)

/-- A cut that divides no word stays so if signs and white space are put around. -/
theorem Separated.surround (h : Separated a b) (hx : ∀ c ∈ x, isWordChar c = false)
    (hy : ∀ c ∈ y, isWordChar c = false) : Separated (x ++ a) (b ++ y) := by
  have hleft : Separated (x ++ a) b := by
    by_cases ha : a = []
    · rw [ha, List.append_nil]
      exact .inl fun c hc => hx c (List.mem_of_mem_getLast? hc)
    · exact h.append_left ha x
  by_cases hb : b = []
  · rw [hb, List.nil_append]
    exact .inr fun c hc => hy c (List.mem_of_mem_head? hc)
  · exact hleft.append_right hb y

/-! ## Words of two parts -/

/-- A word that begins in the first part ends there. -/
theorem isPrefix_of_separated (hword : IsWord word) (h : Separated a b) (ho : o < a.length)
    (hbegins : word <+: (a ++ b).drop o) : word <+: a.drop o := by
  rw [List.drop_append_of_le_length ho.le] at hbegins
  have hne : a.drop o ≠ [] := by simpa using ho
  by_cases hlength : word.length ≤ (a.drop o).length
  · exact List.prefix_of_prefix_length_le hbegins (List.prefix_append _ b) hlength
  · -- it would go on in the second part
    obtain ⟨rest, rfl⟩ := List.prefix_of_prefix_length_le (List.prefix_append _ b) hbegins (by omega)
    have hrest : rest ≠ [] := by
      rintro rfl
      simp at hlength
    have hlast : ∃ c ∈ a.getLast?, isWordChar c = true := by
      refine ⟨(a.drop o).getLast hne, ?_, hword.isWord _ (List.mem_append_left _ (List.getLast_mem hne))⟩
      rw [List.getLast_drop]
      exact List.getLast?_eq_some_getLast _
    obtain ⟨behind, hbehind⟩ := (List.prefix_append_right_inj _).1 hbegins
    have hhead := h.of_word_left hlast (rest.head hrest) (by
      rw [← hbehind, List.head?_append_of_ne_nil _ hrest, List.head?_eq_some_head hrest]
      rfl)
    rw [hword.isWord _ (List.mem_append_right _ (List.head_mem hrest))] at hhead
    cases hhead

theorem standsAt_append_left (hword : IsWord word) (h : Separated a b) (ho : o < a.length) :
    StandsAt word (a ++ b) o ↔ StandsAt word a o := by
  have htake : (a ++ b).take o = a.take o := List.take_append_of_le_length ho.le
  constructor
  · rintro ⟨hbegins, hfront, hback⟩
    have hbegins := isPrefix_of_separated hword h ho hbegins
    refine ⟨hbegins, htake ▸ hfront, fun c hc => hback c ?_⟩
    have hle : o + word.length ≤ a.length := by
      have hlength := hbegins.length_le
      rw [List.length_drop] at hlength
      omega
    rw [List.drop_append_of_le_length hle]
    rw [List.head?_append, Option.mem_def.1 hc]
    rfl
  · rintro ⟨hbegins, hfront, hback⟩
    have hle : o + word.length ≤ a.length := by
      have hlength := hbegins.length_le
      rw [List.length_drop] at hlength
      omega
    refine ⟨?_, htake ▸ hfront, ?_⟩
    · rw [List.drop_append_of_le_length ho.le]
      exact hbegins.trans (List.prefix_append _ b)
    -- the word may end where the second part begins
    · rw [List.drop_append_of_le_length hle]
      by_cases hend : a.drop (o + word.length) = []
      · -- the word ends the first part
        rw [hend, List.nil_append]
        obtain ⟨c, hc, hcword⟩ := hword.getLast?_eq
        refine h.of_word_left ⟨c, ?_, hcword⟩
        obtain ⟨rest, hrest⟩ := hbegins
        have hrestnil : rest = [] := by
          rw [← hend, ← List.drop_drop, ← hrest, List.drop_left]
        rw [hrestnil, List.append_nil] at hrest
        rw [← List.take_append_drop o a, ← hrest, List.getLast?_append, Option.mem_def.1 hc]
        rfl
      · rwa [List.head?_append_of_ne_nil _ hend]

theorem standsAt_append_right (hword : IsWord word) (h : Separated a b) :
    StandsAt word (a ++ b) (a.length + o) ↔ StandsAt word b o := by
  have hdrop (n : Nat) : (a ++ b).drop (a.length + n) = b.drop n := by
    rw [← List.drop_drop, List.drop_left]
  have htake : (a ++ b).take (a.length + o) = a ++ b.take o := List.take_length_add_append o
  simp only [StandsAt, hdrop, htake, Nat.add_assoc, List.getLast?_append]
  refine and_congr_right fun hbegins => and_congr_left fun _ => ?_
  constructor
  · intro hfront c hc
    exact hfront c (by rw [Option.mem_def.1 hc]; rfl)
  · intro hfront c hc
    cases hlast : (b.take o).getLast? with
    | some d => exact hfront c (by rwa [hlast] at hc ⊢)
    | none =>
      -- nothing of the second part stands in front of the word
      rw [hlast, Option.none_or] at hc
      refine h.of_word_right ?_ c hc
      obtain ⟨d, hd, hdword⟩ := hword.head?_eq
      obtain ⟨rest, hrest⟩ := hbegins
      have hwhole : b.drop o = b := by
        have htake := List.take_append_drop o b
        rwa [List.getLast?_eq_none_iff.1 hlast, List.nil_append] at htake
      refine ⟨d, ?_, hdword⟩
      rw [← hwhole, ← hrest, List.head?_append, Option.mem_def.1 hd]
      rfl

/-! ## Counting -/

theorem count_append_left (hword : IsWord word) (h : Separated a b) (ho : o ≤ a.length) :
    Nat.count (StandsAt word (a ++ b)) o = Nat.count (StandsAt word a) o := by
  induction o with
  | zero => rfl
  | succ o ih =>
    simp only [Nat.count_succ, ih (Nat.le_of_succ_le ho), standsAt_append_left hword h ho]

theorem count_append_right (hword : IsWord word) (h : Separated a b) (o : Nat) :
    Nat.count (StandsAt word (a ++ b)) (a.length + o) = tally word a + Nat.count (StandsAt word b) o := by
  rw [Nat.count_add, count_append_left hword h (Nat.le_refl _), tally]
  congr 2
  funext n
  exact propext (standsAt_append_right hword h)

/-- The occurrences in the parts are the occurrences in the text. -/
theorem tally_append (hword : IsWord word) (h : Separated a b) :
    tally word (a ++ b) = tally word a + tally word b := by
  rw [tally, List.length_append, count_append_right hword h, tally, tally]

/-- The word stands in the text if its number of occurrences is not zero. -/
theorem tally_pos_iff (hword : IsWord word) : 0 < tally word t ↔ ∃ o, StandsAt word t o := by
  rw [tally, Nat.count_eq_card_filter_range, Finset.card_pos]
  constructor
  · rintro ⟨o, ho⟩
    exact ⟨o, (Finset.mem_filter.1 ho).2⟩
  · rintro ⟨o, ho⟩
    exact ⟨o, Finset.mem_filter.2 ⟨Finset.mem_range.2 (ho.lt_length hword.ne_nil), ho⟩⟩

theorem tally_eq_zero_iff (hword : IsWord word) : tally word t = 0 ↔ ∀ o, ¬ StandsAt word t o := by
  rw [← not_exists, ← tally_pos_iff hword, Nat.pos_iff_ne_zero, not_not]

/-- The occurrences are numbered from zero on. -/
theorem exists_count_eq {k : Nat} (hword : IsWord word) (hk : k < tally word t) :
    ∃ p, StandsAt word t p ∧ Nat.count (StandsAt word t) p = k := by
  rw [tally, ← length_occurrences] at hk
  exact ⟨_, (getElem?_occurrences hword.ne_nil).1 (List.getElem?_eq_getElem hk)⟩

theorem count_lt_tally (hword : IsWord word) (hp : StandsAt word t p) :
    Nat.count (StandsAt word t) p < tally word t :=
  Nat.count_strict_mono hp (hp.lt_length hword.ne_nil)

/-- A text that holds the word in one place holds it once. -/
theorem tally_eq_one (hword : IsWord word) (h : StandsAt word t p)
    (honly : ∀ other, StandsAt word t other → other = p) : tally word t = 1 := by
  have hpos : 0 < tally word t := (tally_pos_iff hword).2 ⟨p, h⟩
  by_contra hne
  obtain ⟨p, hp, hcount⟩ := exists_count_eq hword (t := t) (k := 1) (by omega)
  obtain ⟨q, hq, hcount'⟩ := exists_count_eq hword hpos
  rw [honly p hp, ← honly q hq, hcount'] at hcount
  cases hcount

theorem eq_of_tally_eq_one (hword : IsWord word) (h : tally word t = 1) {p q : Nat} (hp : StandsAt word t p)
    (hq : StandsAt word t q) : p = q := by
  have hltp := count_lt_tally hword hp
  have hltq := count_lt_tally hword hq
  exact Nat.count_injective hp hq (by omega)

/-- The number of an occurrence says whether it is in a part of a text. -/
theorem length_le_iff_tally_le (hword : IsWord word) (hx : Separated x (t ++ y)) (hy : Separated t y)
    (hp : StandsAt word (x ++ (t ++ y)) p) :
    (x.length ≤ p ∧ p < x.length + t.length) ↔
      tally word x ≤ Nat.count (StandsAt word (x ++ (t ++ y))) p ∧
        Nat.count (StandsAt word (x ++ (t ++ y))) p < tally word x + tally word t := by
  have hbefore : Nat.count (StandsAt word (x ++ (t ++ y))) x.length = tally word x :=
    count_append_left hword hx (Nat.le_refl _)
  have hbehind : Nat.count (StandsAt word (x ++ (t ++ y))) (x.length + t.length) =
      tally word x + tally word t := by
    rw [count_append_right hword hx, count_append_left hword hy (Nat.le_refl _), tally, tally]
  rw [← hbehind, ← hbefore]
  -- the count grows along the text, so it is compared in place of the offset
  constructor
  · rintro ⟨hfirst, hlast⟩
    exact ⟨Nat.count_monotone _ hfirst, Nat.count_strict_mono hp hlast⟩
  · rintro ⟨hfirst, hlast⟩
    refine ⟨Nat.le_of_not_lt fun hlt => ?_, Nat.lt_of_not_le fun hle => ?_⟩
    · exact absurd (Nat.count_strict_mono hp hlt) (Nat.not_lt.2 hfirst)
    · exact absurd (Nat.count_monotone (StandsAt word (x ++ (t ++ y))) hle) (Nat.not_le.2 hlast)

/-- A word that begins in a part ends there. -/
theorem add_length_le_of_lt (hword : IsWord word) (hx : Separated x (t ++ y)) (hy : Separated t y)
    (hp : StandsAt word (x ++ (t ++ y)) p) (hfirst : x.length ≤ p) (hlast : p < x.length + t.length) :
    p + word.length ≤ x.length + t.length := by
  obtain ⟨o, rfl⟩ := Nat.exists_eq_add_of_le hfirst
  have ho : o < t.length := Nat.lt_of_add_lt_add_left hlast
  rw [standsAt_append_right hword hx, standsAt_append_left hword hy ho] at hp
  have hle := hp.add_length_le ho.le
  omega

/-- A word that belongs to a character of a part begins there. -/
theorem length_le_of_le (hword : IsWord word) (hx : Separated x t) (hp : StandsAt word (x ++ t) p)
    (ho : x.length ≤ o) (hlt : o < p + word.length) : x.length ≤ p := by
  by_contra hbefore
  have hbefore : p < x.length := Nat.lt_of_not_le hbefore
  have hle := ((standsAt_append_left hword hx hbefore).1 hp).add_length_le hbefore.le
  omega

/-! ## Texts without the word -/

/-- A text of other characters holds no word. -/
theorem tally_eq_zero (hword : IsWord word) (h : ∀ c ∈ t, isWordChar c = false) : tally word t = 0 := by
  refine (tally_eq_zero_iff hword).2 fun o ho => ?_
  obtain ⟨c, hc, hcword⟩ := hword.head?_eq
  have hmem : c ∈ t := List.mem_of_mem_drop (ho.1.subset (List.mem_of_mem_head? hc))
  rw [h c hmem] at hcword
  cases hcword

/-- A text that is a word holds this word only. -/
theorem tally_eq_zero_of_ne (hword : IsWord word) (h : ∀ c ∈ t, isWordChar c = true) (hne : word ≠ t) :
    tally word t = 0 := by
  refine (tally_eq_zero_iff hword).2 fun o ho => hne ?_
  obtain ⟨before, behind, rfl, rfl⟩ := ho.exists_append (ho.lt_length hword.ne_nil).le
  obtain ⟨hbefore, hbehind⟩ := (standsAt_append ..).1 ho
  have hfront : before = [] := by
    refine List.getLast?_eq_none_iff.1 (Option.eq_none_iff_forall_not_mem.2 fun c hc => ?_)
    exact absurd ((h c (by simp [List.mem_of_mem_getLast? hc])).symm.trans (hbefore c hc)) (by simp)
  have hback : behind = [] := by
    refine List.head?_eq_none_iff.1 (Option.eq_none_iff_forall_not_mem.2 fun c hc => ?_)
    exact absurd ((h c (by simp [List.mem_of_mem_head? hc])).symm.trans (hbehind c hc)) (by simp)
  rw [hfront, hback, List.append_nil, List.nil_append]

theorem isWordChar_eq (c : Char) : isWordChar c = (Text.isNameChar c || decide (c = '$')) := rfl

theorem isWordChar_of_isNameChar (h : Text.isNameChar c = true) : isWordChar c = true := by
  rw [isWordChar_eq, h, Bool.true_or]

theorem isWordChar_of_isBlank (h : Text.isBlank c = true) : isWordChar c = false := by
  rw [isWordChar_eq, (Expression.meaningless_of_isBlank h).2.1, Bool.false_or, decide_eq_false_iff_not]
  rintro rfl
  exact absurd h (by decide)

theorem tally_blanks_append (hword : IsWord word) (hx : ∀ c ∈ x, Text.isBlank c = true) (t : Text) :
    tally word (x ++ t) = tally word t := by
  have hblank : ∀ c ∈ x, isWordChar c = false := fun c hc => isWordChar_of_isBlank (hx c hc)
  rw [tally_append hword (.inl fun c hc => hblank c (List.mem_of_mem_getLast? hc)), tally_eq_zero hword hblank,
    Nat.zero_add]

theorem tally_append_blanks (hword : IsWord word) (hx : ∀ c ∈ x, Text.isBlank c = true) (t : Text) :
    tally word (t ++ x) = tally word t := by
  have hblank : ∀ c ∈ x, isWordChar c = false := fun c hc => isWordChar_of_isBlank (hx c hc)
  rw [tally_append hword (.inr fun c hc => hblank c (List.mem_of_mem_head? hc)), tally_eq_zero hword hblank,
    Nat.add_zero]

/-- The white space around a text holds no word. -/
theorem tally_trim (hword : IsWord word) (t : Text) : tally word (Text.trim t) = tally word t := by
  obtain ⟨blanks, hblanks, ht⟩ := Text.exists_trim_append t
  have hwhole : tally word (Text.leadingBlanks t ++ (Text.trim t ++ blanks)) = tally word (Text.trim t) := by
    rw [tally_blanks_append hword fun c hc => Text.isBlank_of_mem_leadingBlanks hc, tally_append_blanks hword hblanks]
  rw [← hwhole, ht]

end Pseudocode.Column

namespace Pseudocode.Expression

open Column

/-! ## Words of a rewritten text -/

/-- A word that the script spells in another way, unless it names a member. -/
def Token.isOperatorWord : Token → Bool
  | .word w => (wordOperator? w).isSome
  | .literal _ _ | .sign _ => false

/-- No operator that is a word, and no truth value, touches a word character, which could only be a digit
    or a dollar sign. -/
def HasFreeOperators (t : Text) : Prop :=
  (tokens (Text.trim t)).IsChain fun a b =>
    (a.isOperatorWord = true ∨ b.isOperatorWord = true) → Separated a.chars b.chars

instance (t : Text) : Decidable (HasFreeOperators t) := inferInstanceAs (Decidable (List.IsChain _ _))

variable {context : Context} {before : Option Char} {ts us : List Token} {token : Token} {word w t : Text}

theorem IsLexed.chars_ne_nil (h : IsLexed (token :: ts)) : token.chars ≠ [] := by
  cases h <;> exact List.cons_ne_nil _ _

theorem IsLexed.tail (h : IsLexed (token :: ts)) : IsLexed ts := by
  cases h <;> assumption

theorem IsLexed.isWord (h : IsLexed (.word w :: ts)) : IsWord w := by
  cases h with | word _ hstart hname _ _
  refine ⟨List.cons_ne_nil _ _, fun c hc => isWordChar_of_isNameChar ?_⟩
  rcases List.mem_cons.1 hc with rfl | hc
  · exact isNameChar_of_isWordStart hstart
  · exact hname c hc

theorem AreSigns.isWordChar {signs : Text} (h : AreSigns signs) : ∀ c ∈ signs, isWordChar c = false := by
  intro c hc
  rw [isWordChar_eq, (sign_of_mem_operatorChars (h.2 hc)).2, Bool.false_or, decide_eq_false_iff_not]
  rintro rfl
  exact absurd (h.2 hc) (by decide)

theorem isWordChar_of_mem_truthWords (h : w ∈ truthWords) : ∀ c ∈ w, isWordChar c = true := by
  have hall : truthWords.all (fun w => w.all Text.isNameChar) = true := by decide
  exact fun c hc => isWordChar_of_isNameChar (List.all_eq_true.1 (List.all_eq_true.1 hall w h) c hc)

theorem toLower_toLower (w : Text) : Text.toLower (Text.toLower w) = Text.toLower w := by
  simp [Text.toLower]

theorem flatMap_chars_sign (signs : Text) (us : List Token) :
    (signs.map Token.sign ++ us).flatMap Token.chars = signs ++ us.flatMap Token.chars := by
  rw [List.flatMap_append]
  simp [Token.chars, List.flatMap_map]

/-- What a text begins with is a sign in the script if it is one in the source. -/
theorem Respelled.isWordChar_head? (h : Respelled context before ts us) (hlexed : IsLexed ts)
    (hhead : ∀ c ∈ (ts.flatMap Token.chars).head?, isWordChar c = false) :
    ∀ c ∈ (us.flatMap Token.chars).head?, isWordChar c = false := by
  have hword {w : Text} {ts : List Token} (hlexed : IsLexed (.word w :: ts))
      (hhead : ∀ c ∈ ((Token.word w :: ts).flatMap Token.chars).head?, isWordChar c = false) : False := by
    obtain ⟨c, hc, hcword⟩ := hlexed.isWord.head?_eq
    rw [List.flatMap_cons, Token.chars] at hhead
    have hnone := hhead c (by rw [List.head?_append, Option.mem_def.1 hc]; rfl)
    exact absurd (hcword.symm.trans hnone) (by simp)
  have hsigns {signs : Text} (h : AreSigns signs) (us : List Token) :
      ∀ c ∈ ((signs.map Token.sign ++ us).flatMap Token.chars).head?, isWordChar c = false := by
    intro c hc
    rw [flatMap_chars_sign, List.head?_append_of_ne_nil _ h.1] at hc
    exact h.isWordChar c (List.mem_of_mem_head? hc)
  -- a word cannot come first, and the signs that are written are no characters of words
  cases h with
  | nil => exact hhead
  | literal _ =>
    cases hlexed
    exact hhead
  | word => exact (hword hlexed hhead).elim
  | truth => exact (hword hlexed hhead).elim
  | operator => exact (hword hlexed hhead).elim
  | differ => exact hsigns areSigns_differ _
  | comparison hcomparison => exact hsigns (areSigns_of_comparison hcomparison) _
  | equality => exact hsigns areSigns_equality _
  | sign => exact hhead

/-- Behind a token that stands apart from its neighbour, a word cannot go on. -/
theorem separated_flatMap (token : Token) (hlexed : IsLexed ts) (h : ∀ b ∈ ts.head?, Separated token.chars b.chars) :
    Separated token.chars (ts.flatMap Token.chars) := by
  cases ts with
  | nil => exact separated_nil_right _
  | cons b ts => exact (h b rfl).append_right hlexed.chars_ne_nil _

/-- The tokens in the spelling of the script hold a word as often, whatever stands in front of them. -/
theorem Respelled.tally_eq (h : Respelled context before ts us) (hword : IsWord word)
    (hkept : wordOperator? word = none) (hlexed : IsLexed ts)
    (hfree : ts.IsChain fun a b => (a.isOperatorWord = true ∨ b.isOperatorWord = true) → Separated a.chars b.chars)
    (x : Text) (hx : ∀ b ∈ ts.head?, b.isOperatorWord = true → Separated x b.chars) :
    tally word (x ++ ts.flatMap Token.chars) = tally word (x ++ us.flatMap Token.chars) := by
  -- a token that stays goes over to the text in front
  have stays {token : Token} {ts us : List Token} (hlexed : IsLexed (token :: ts))
      (hfree : (token :: ts).IsChain fun a b =>
        (a.isOperatorWord = true ∨ b.isOperatorWord = true) → Separated a.chars b.chars)
      (ih : ∀ x, (∀ b ∈ ts.head?, b.isOperatorWord = true → Separated x b.chars) →
        tally word (x ++ ts.flatMap Token.chars) = tally word (x ++ us.flatMap Token.chars)) (x : Text) :
      tally word (x ++ (token :: ts).flatMap Token.chars) = tally word (x ++ (token :: us).flatMap Token.chars) := by
    rw [List.flatMap_cons, List.flatMap_cons, ← List.append_assoc, ← List.append_assoc]
    refine ih _ fun b hb hoperator => ?_
    exact ((List.isChain_cons.1 hfree).1 b hb (.inr hoperator)).append_left hlexed.chars_ne_nil x
  -- signs instead of others, or of an operator that is a word
  have replaced (old : Text) {signs : Text} {ts us : List Token} {x : Text} (hsigns : AreSigns signs)
      (hfront : Separated x (old ++ ts.flatMap Token.chars)) (hback : Separated old (ts.flatMap Token.chars))
      (hold : tally word old = 0) (ih : tally word ([] ++ ts.flatMap Token.chars) =
        tally word ([] ++ us.flatMap Token.chars)) :
      tally word (x ++ (old ++ ts.flatMap Token.chars)) =
        tally word (x ++ (signs.map Token.sign ++ us).flatMap Token.chars) := by
    rw [List.nil_append, List.nil_append] at ih
    rw [flatMap_chars_sign, tally_append hword hfront, tally_append hword hback, hold, ih, tally_append hword,
      tally_append hword, tally_eq_zero hword hsigns.isWordChar]
    · exact .inl fun c hc => hsigns.isWordChar c (List.mem_of_mem_getLast? hc)
    · refine .inr fun c hc => ?_
      rw [List.head?_append_of_ne_nil _ hsigns.1] at hc
      exact hsigns.isWordChar c (List.mem_of_mem_head? hc)
  have comparisons (old : Text) {signs : Text} {ts us : List Token} {x : Text} (hsigns : AreSigns signs)
      (hne : old ≠ []) (hold : ∀ c ∈ old, isWordChar c = false)
      (ih : tally word ([] ++ ts.flatMap Token.chars) = tally word ([] ++ us.flatMap Token.chars)) :
      tally word (x ++ (old ++ ts.flatMap Token.chars)) =
        tally word (x ++ (signs.map Token.sign ++ us).flatMap Token.chars) := by
    refine replaced old hsigns (.inr fun c hc => ?_) (.inl fun c hc => hold c (List.mem_of_mem_getLast? hc))
      (tally_eq_zero hword hold) ih
    rw [List.head?_append_of_ne_nil _ hne] at hc
    exact hold c (List.mem_of_mem_head? hc)
  -- an operator that is a word stands apart from what is in front of it and behind it
  have operator {w spelled : Text} {ts : List Token} {x : Text} (hlexed : IsLexed (.word w :: ts))
      (hfree : (Token.word w :: ts).IsChain fun a b =>
        (a.isOperatorWord = true ∨ b.isOperatorWord = true) → Separated a.chars b.chars)
      (hx : ∀ b ∈ (Token.word w :: ts).head?, b.isOperatorWord = true → Separated x b.chars)
      (hspelled : wordOperator? w = some spelled) :
      Separated x w ∧ Separated w (ts.flatMap Token.chars) ∧ tally word w = 0 := by
    have hoperator : (Token.word w).isOperatorWord = true := by
      rw [Token.isOperatorWord, hspelled]
      rfl
    refine ⟨hx _ rfl hoperator, ?_, tally_eq_zero_of_ne hword hlexed.isWord.isWord ?_⟩
    · exact separated_flatMap (.word w) hlexed.tail fun b hb =>
        (List.isChain_cons.1 hfree).1 b hb (.inl hoperator)
    · rintro rfl
      rw [hkept] at hspelled
      cases hspelled
  induction h generalizing x with
  | nil => rfl
  | literal _ ih => exact stays hlexed hfree (ih hlexed.tail hfree.tail) x
  | word _ _ ih => exact stays hlexed hfree (ih hlexed.tail hfree.tail) x
  | sign _ _ _ _ ih => exact stays hlexed hfree (ih hlexed.tail hfree.tail) x
  | @truth before w ts us _ htruth hrest ih =>
    have hw := hlexed.isWord
    obtain ⟨hfront, hback, hold⟩ := operator hlexed hfree hx (wordOperator?_of_truth htruth)
    have hih := ih hlexed.tail hfree.tail [] fun b _ _ => separated_nil_left _
    rw [List.nil_append, List.nil_append] at hih
    have hfront' := hfront.of_word_right hw.head?_eq
    have hback' : ∀ c ∈ (us.flatMap Token.chars).head?, isWordChar c = false :=
      hrest.isWordChar_head? hlexed.tail (hback.of_word_left hw.getLast?_eq)
    have hnew : tally word (Text.toLower w) = 0 := by
      refine tally_eq_zero_of_ne hword (isWordChar_of_mem_truthWords htruth) ?_
      rintro rfl
      rw [wordOperator?_of_truth (by rwa [toLower_toLower])] at hkept
      cases hkept
    rw [List.flatMap_cons, List.flatMap_cons, Token.chars, Token.chars, tally_append hword (.inl hfront'),
      tally_append hword hback, hold, hih, tally_append hword (.inl hfront'), tally_append hword (.inr hback'), hnew]
  | operator _ hspelled _ ih =>
    obtain ⟨hfront, hback, hold⟩ := operator hlexed hfree hx (wordOperator?_of_mem hspelled)
    exact replaced _ (areSigns_of_operator hspelled) (hfront.append_right hlexed.isWord.ne_nil _) hback hold
      (ih hlexed.tail hfree.tail [] fun b _ _ => separated_nil_left _)
  | differ _ ih =>
    exact comparisons (text "<>") areSigns_differ (by decide)
      (AreSigns.isWordChar (by decide))
      (ih hlexed.tail.tail hfree.tail.tail [] fun b _ _ => separated_nil_left _)
  | @comparison before c spelled ts us hspelled _ ih =>
    refine comparisons [c] (areSigns_of_comparison hspelled) (List.cons_ne_nil _ _) ?_
      (ih hlexed.tail hfree.tail [] fun b _ _ => separated_nil_left _)
    have hall : ∀ entry ∈ comparisonSigns, isWordChar entry.1 = false := by decide +kernel
    simpa using hall _ hspelled
  | equality _ _ _ ih =>
    exact comparisons ['='] areSigns_equality (List.cons_ne_nil _ _) (AreSigns.isWordChar (by decide))
      (ih hlexed.tail hfree.tail [] fun b _ _ => separated_nil_left _)

/-- A word that is neither an operator nor a truth value stands in the script's expression as often as in the
    source's, unless one of these touches it. -/
theorem tally_rewrite (context : Context) (hword : IsWord word) (hkept : wordOperator? word = none)
    (hfree : HasFreeOperators t) : tally word (rewrite context t) = tally word t := by
  obtain ⟨us, hus⟩ := exists_respelled context none (tokens (Text.trim t))
  have heq := hus.tally_eq hword hkept (isLexed_tokens _) hfree [] fun b _ _ => separated_nil_left _
  rw [List.nil_append, List.nil_append, chars_tokens, tally_trim hword] at heq
  rw [rewrite, hus.rewriteTokens_eq, heq]

end Pseudocode.Expression
