import Pseudocode.Text.Class

/-!
# Text lemmas

What the operations on text take away and what they leave, and how pieces and their separator
make up a text.
-/

namespace Pseudocode.Text

/-! ## Characters -/

/-- A letter is no digit. -/
theorem isDigit_of_isAlpha {c : Char} (h : c.isAlpha = true) : c.isDigit = false := by
  delta Char.isAlpha Char.isUpper Char.isLower at h
  delta Char.isDigit
  grind

/-! ## Runs of characters -/

section

variable {p : Char → Bool} {w t : Text}

/-- A run of characters ends in front of the first other one. -/
theorem takeWhile_append_of_ends (hw : ∀ c ∈ w, p c = true) (ht : ∀ c ∈ t.head?, p c = false) :
    (w ++ t).takeWhile p = w := by
  rw [List.takeWhile_append_of_pos hw]
  cases t with
  | nil => simp
  | cons c t => rw [List.takeWhile_cons_of_neg (by simp [ht c rfl]), List.append_nil]

theorem dropWhile_append_of_ends (hw : ∀ c ∈ w, p c = true) (ht : ∀ c ∈ t.head?, p c = false) :
    (w ++ t).dropWhile p = t := by
  rw [List.dropWhile_append_of_pos hw]
  cases t with
  | nil => rfl
  | cons c t => rw [List.dropWhile_cons_of_neg (by simp [ht c rfl])]

end

/-! ## Beginnings and ends -/

theorem dropStart?_eq_some {start t r : Text} (h : dropStart? start t = some r) :
    t = start ++ r := by
  induction start generalizing t with
  | nil => simpa [dropStart?] using h
  | cons a start ih =>
    cases t with
    | nil => simp [dropStart?] at h
    | cons c t =>
      rw [dropStart?] at h
      split at h
      · next hac => rw [hac, List.cons_append, ← ih h]
      · cases h

theorem dropEnd?_eq_some {tail t r : Text} (h : dropEnd? tail t = some r) : t = r ++ tail := by
  rw [dropEnd?, Option.map_eq_some_iff] at h
  obtain ⟨s, hs, rfl⟩ := h
  have hrev := congrArg List.reverse (dropStart?_eq_some hs)
  simpa using hrev

theorem dropStart?_append (start t : Text) : dropStart? start (start ++ t) = some t := by
  induction start with
  | nil => simp [dropStart?]
  | cons a start ih => rw [List.cons_append, dropStart?, if_pos rfl, ih]

theorem dropEnd?_append (tail t : Text) : dropEnd? tail (t ++ tail) = some t := by
  rw [dropEnd?, List.reverse_append, dropStart?_append, Option.map_some, List.reverse_reverse]

/-- Another last character than the one to take off. -/
theorem dropEnd?_concat_of_ne {c d : Char} (h : c ≠ d) (t : Text) :
    dropEnd? [c] (t ++ [d]) = none := by
  rw [dropEnd?, List.reverse_append]
  show (if c = d then dropStart? [] t.reverse else none).map List.reverse = none
  rw [if_neg h, Option.map_none]

/-! ## Trimming -/

/-- A text with no white space at either end. -/
structure IsTrimmed (t : Text) : Prop where
  ne_nil : t ≠ []
  start : ∀ c ∈ t.head?, isBlank c = false
  last : ∀ c ∈ t.getLast?, isBlank c = false

theorem isTrimmed_iff {t : Text} : IsTrimmed t ↔ t ≠ [] ∧
    t.head?.all (fun c => !isBlank c) = true ∧ t.getLast?.all (fun c => !isBlank c) = true := by
  simp only [Option.all_eq_true, Bool.not_eq_true']
  constructor
  · exact fun h => ⟨h.ne_nil, fun c hc => h.start c hc, fun c hc => h.last c hc⟩
  · exact fun h => ⟨h.1, fun c hc => h.2.1 c hc, fun c hc => h.2.2 c hc⟩

instance (t : Text) : Decidable (IsTrimmed t) := decidable_of_iff _ isTrimmed_iff.symm

/-- What comes first and what comes last decide whether there is white space at an end. -/
theorem IsTrimmed.append {w t : Text} (hw : IsTrimmed w) (mid : Text) (ht : IsTrimmed t) :
    IsTrimmed (w ++ (mid ++ t)) := by
  obtain ⟨c, r, rfl⟩ := List.exists_cons_of_ne_nil hw.ne_nil
  refine ⟨by simp, hw.start, fun d hd => ?_⟩
  have hlast := List.getLast?_eq_some_getLast ht.ne_nil
  rw [← List.append_assoc, List.getLast?_append, hlast, Option.some_or, ← hlast] at hd
  exact ht.last d hd

theorem IsTrimmed.exists_concat {t : Text} (h : IsTrimmed t) :
    ∃ r c, t = r ++ [c] ∧ isBlank c = false := by
  obtain ⟨r, c, hconcat⟩ := (List.eq_nil_or_concat t).resolve_left h.ne_nil
  rw [List.concat_eq_append] at hconcat
  exact ⟨r, c, hconcat, h.last c (by simp [hconcat])⟩

theorem IsTrimmed.trimStart {t : Text} (h : IsTrimmed t) : trimStart t = t := by
  obtain ⟨c, r, rfl⟩ := List.exists_cons_of_ne_nil h.ne_nil
  exact List.dropWhile_cons_of_neg (by simp [h.start c rfl])

theorem IsTrimmed.trimEnd {t : Text} (h : IsTrimmed t) : trimEnd t = t := by
  obtain ⟨r, c, rfl⟩ := (List.eq_nil_or_concat t).resolve_left h.ne_nil
  have hlast := h.last c (by simp)
  rw [Text.trimEnd, List.concat_eq_append, List.reverse_append, List.reverse_singleton,
    List.singleton_append, List.dropWhile_cons_of_neg (by simp [hlast])]
  simp

theorem IsTrimmed.trim {t : Text} (h : IsTrimmed t) : trim t = t := by
  rw [Text.trim, h.trimStart, h.trimEnd]

/-- White space before a text is taken off. -/
theorem trim_blanks_append (blanks : Text) (hblanks : ∀ c ∈ blanks, isBlank c = true) {t : Text}
    (h : IsTrimmed t) : trim (blanks ++ t) = t := by
  have hstart : Text.trimStart (blanks ++ t) = t := by
    rw [Text.trimStart, List.dropWhile_append_of_pos hblanks]
    exact h.trimStart
  rw [Text.trim, hstart, h.trimEnd]

theorem trimStart_suffix (t : Text) : trimStart t <:+ t := List.dropWhile_suffix _

theorem trimEnd_isPrefix (t : Text) : trimEnd t <+: t := by
  have h : t.reverse.dropWhile isBlank <:+ t.reverse := List.dropWhile_suffix _
  rwa [← List.reverse_prefix, List.reverse_reverse] at h

/-- White space stands in front of what trimming leaves and behind it. -/
theorem exists_trim_append (t : Text) : ∃ blanks, (∀ c ∈ blanks, isBlank c = true) ∧
    leadingBlanks t ++ (trim t ++ blanks) = t := by
  refine ⟨(leadingBlanks (trimStart t).reverse).reverse,
    fun c hc => isBlank_of_mem_leadingBlanks (List.mem_reverse.1 hc), ?_⟩
  have h := congrArg List.reverse (leadingBlanks_append_trimStart (trimStart t).reverse)
  rw [List.reverse_append, List.reverse_reverse, trimStart] at h
  rw [trim, trimEnd, h, leadingBlanks_append_trimStart]

/-! ## Pieces -/

theorem join_cons (sep w : Text) (ws : List Text) : join sep (w :: ws) = w ++ ws.flatMap (sep ++ ·) := by
  induction ws generalizing w with
  | nil => simp [join]
  | cons v ws ih =>
    rw [List.flatMap_cons, List.append_assoc, ← ih v]
    simp [join]

/-- Parts with a separator between them and another one at the end. -/
theorem join_append_sep (sep : Text) {parts : List Text} (h : parts ≠ []) :
    join sep parts ++ sep = parts.flatMap (· ++ sep) := by
  obtain ⟨first, others, rfl⟩ := List.exists_cons_of_ne_nil h
  rw [join_cons]
  clear h
  induction others generalizing first with
  | nil => simp
  | cons second others ih =>
    rw [List.flatMap_cons, List.flatMap_cons, ← ih second]
    simp

theorem length_join_cons (sep v u : Text) (ws : List Text) :
    (join sep (v :: u :: ws)).length = v.length + sep.length + (join sep (u :: ws)).length := by
  simp only [join_cons, List.flatMap_cons, List.length_append]
  omega

/-- No part is longer than all of them joined. -/
theorem length_le_join {sep w : Text} {ws : List Text} (h : w ∈ ws) :
    w.length ≤ (join sep ws).length := by
  induction ws with
  | nil => simp at h
  | cons v ws ih =>
    cases ws with
    | nil =>
      obtain rfl : w = v := by simpa using h
      simp [join]
    | cons u ws =>
      have hlength := length_join_cons sep v u ws
      rcases List.mem_cons.1 h with rfl | h
      · omega
      · exact Nat.le_trans (ih h) (by omega)

/-- Parts that are not empty are no more than the characters of all of them joined. -/
theorem count_le_length_join {sep : Text} {ws : List Text} (h : ∀ w ∈ ws, w ≠ []) :
    ws.length ≤ (join sep ws).length := by
  induction ws with
  | nil => simp
  | cons v ws ih =>
    have hv : 0 < v.length := List.length_pos_iff.2 (h v (by simp))
    have hothers := ih fun w hw => h w (List.mem_cons_of_mem _ hw)
    cases ws with
    | nil =>
      rw [join_cons]
      simpa using Nat.succ_le_of_lt hv
    | cons u ws =>
      rw [length_join_cons, List.length_cons]
      omega

theorem pieces_eq_splitOn (sep : Char) (t : Text) : pieces sep t = List.splitOn sep t := by
  induction t with
  | nil => rfl
  | cons c r ih =>
    rw [pieces, List.splitOn_cons_eq_if_modifyHead, ← ih]
    by_cases h : c = sep
    · simp [h]
    · cases hp : pieces sep r with
      | nil => exact absurd hp (pieces_ne_nil sep r)
      | cons first others => simp [h]

/-- Parts without the separator are the pieces of what they are joined to. -/
theorem pieces_join {sep : Char} {parts : List Text} (hne : parts ≠ [])
    (h : ∀ p ∈ parts, sep ∉ p) : pieces sep (join [sep] parts) = parts := by
  rw [pieces_eq_splitOn, join]
  exact List.splitOn_intercalate sep h hne

theorem pieces_append_cons (sep : Char) (s t : Text) :
    pieces sep (s ++ sep :: t) = pieces sep s ++ pieces sep t := by
  simp only [pieces_eq_splitOn]
  exact List.splitOn_append_cons_of_beq s t (beq_self_eq_true sep)

/-- Every separator begins another piece. -/
theorem length_pieces (sep : Char) (t : Text) : (pieces sep t).length = t.count sep + 1 := by
  induction t with
  | nil => rfl
  | cons c r ih =>
    rw [pieces, List.count_cons]
    by_cases h : c = sep
    · rw [if_pos h, List.length_cons, ih, if_pos (beq_iff_eq.2 h)]
    · rw [if_neg h, if_neg (mt beq_iff_eq.1 h), Nat.add_zero, ← ih]
      cases hp : pieces sep r with
      | nil => exact absurd hp (pieces_ne_nil sep r)
      | cons first others => rfl

/-- No piece holds the separator. -/
theorem not_mem_of_mem_pieces {sep : Char} {t p : Text} (h : p ∈ pieces sep t) : sep ∉ p := by
  induction t generalizing p with
  | nil =>
    obtain rfl : p = [] := by simpa [pieces] using h
    simp
  | cons c r ih =>
    rw [pieces] at h
    split at h
    · rcases List.mem_cons.1 h with rfl | h
      · simp
      · exact ih h
    · next hc =>
      -- the character joins the first piece of the rest
      cases hp : pieces sep r with
      | nil => exact absurd hp (pieces_ne_nil sep r)
      | cons first others =>
        rw [hp] at h ih
        rcases List.mem_cons.1 h with rfl | h
        · simp only [List.mem_cons, not_or]
          exact ⟨Ne.symm hc, ih List.mem_cons_self⟩
        · exact ih (List.mem_cons_of_mem _ h)

end Pseudocode.Text
