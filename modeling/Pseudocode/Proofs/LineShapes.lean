import Pseudocode.Proofs.Text
import Pseudocode.Source.Classify

/-!
# Line shapes on written lines

What the parts of a line shape find in a line that is written as they ask for: one blank between two
words, and operands without blanks at their ends. A passage takes the operand and no more than it,
because what follows an operand is found nowhere inside of it.
-/

namespace Pseudocode

/-! ## ASCII -/

/-- A property of the ASCII characters holds if it holds of each of them. -/
theorem forall_ascii {p : Char → Prop} (h : ∀ n < 128, p (Char.ofNat n)) {c : Char}
    (hc : c.toNat < 128) : p c := by
  have hp := h c.toNat hc
  rwa [Char.ofNat_toNat] at hp

theorem toNat_lt_of_isAlphanum {c : Char} (h : c.isAlphanum = true) : c.toNat < 128 := by
  have hval : c.val < 128 := by
    delta Char.isAlphanum Char.isAlpha Char.isUpper Char.isLower Char.isDigit at h
    grind
  exact UInt32.lt_iff_toNat_lt.1 hval

theorem isBlank_of_isAlphanum {c : Char} (h : c.isAlphanum = true) : Text.isBlank c = false := by
  have hall := forall_ascii (p := fun c => c.isAlphanum = true → Text.isBlank c = false)
    (by decide +kernel) (toNat_lt_of_isAlphanum h)
  exact hall h

/-- A letter of ASCII is a letter when its case is folded. -/
theorem isFoldedNameStart_of_isNameStart {c : Char} (h : Shape.isNameStart c = true) :
    Shape.isFoldedNameStart c = true := by
  have hascii : c.toNat < 128 := by
    simp only [Shape.isNameStart, Bool.or_eq_true, decide_eq_true_eq] at h
    rcases h with halpha | rfl
    · exact toNat_lt_of_isAlphanum (by simp [Char.isAlphanum, halpha])
    · decide
  have hall := forall_ascii
    (p := fun c => Shape.isNameStart c = true → Shape.isFoldedNameStart c = true)
    (by decide +kernel) hascii
  exact hall h

namespace Shape

variable {β : Type} {next : Text → Option β}

/-! ## White space and words -/

theorem blanks_cons {c : Char} (hc : Text.isBlank c = false) (t : Text) :
    blanks next (c :: t) = next (c :: t) := by
  rw [blanks, if_neg (by simp [hc])]

theorem someBlanks_cons {c : Char} (hc : Text.isBlank c = false) (t : Text) :
    someBlanks next (c :: t) = none := by
  rw [someBlanks, if_neg (by simp [hc])]

/-- One blank, and what does not begin with another one. -/
theorem someBlanks_space {t : Text} (ht : Text.IsTrimmed t) :
    someBlanks next (' ' :: t) = next t := by
  obtain ⟨c, r, rfl⟩ := List.exists_cons_of_ne_nil ht.ne_nil
  exact blanks_cons (ht.start c rfl) r

theorem separator_cons {c : Char} (hc : Text.isBlank c = false) (word t : Text) :
    separator word next (c :: t) = none :=
  someBlanks_cons hc t

/-! ## Ends of lines -/

/-- A word that is taken off a text is as long as what is taken, up to case. -/
theorem map_of_dropWord? {word t r : Text} (h : dropWord? word t = some r) :
    ∃ s, t = s ++ r ∧ s.map foldCase = word := by
  induction word generalizing t with
  | nil =>
    obtain rfl : t = r := by simpa [dropWord?] using h
    exact ⟨[], rfl, rfl⟩
  | cons w word ih =>
    cases t with
    | nil => simp [dropWord?] at h
    | cons c t =>
      rw [dropWord?] at h
      split at h
      · rename_i hc
        obtain ⟨s, rfl, hs⟩ := ih h
        exact ⟨c :: s, rfl, by rw [List.map_cons, hc, hs]⟩
      · cases h

/-- A text that does not end in a blank, with a blank behind it, does not close a line. -/
theorem closing_eq_none {words : List Text} (hwords : ∀ w ∈ words, ' ' ∉ w) {p : Text}
    (hne : p ≠ []) (hlast : ∀ c ∈ p.getLast?, Text.isBlank c = false) (t : Text) :
    closing words (p ++ ' ' :: t) = none := by
  -- no closing word is found where there is a blank before the end
  have hword (s : Text) :
      (words.findSome? fun w => (dropWord? w (s ++ ' ' :: t)).bind atEnd) = none := by
    rw [List.findSome?_eq_none_iff]
    intro w hw
    rw [Option.bind_eq_none_iff]
    intro r hr
    obtain ⟨u, hu, hmap⟩ := map_of_dropWord? hr
    cases r with
    | cons c r => rfl
    | nil =>
      rw [List.append_nil] at hu
      have hmem : foldCase ' ' ∈ u.map foldCase := List.mem_map_of_mem (by rw [← hu]; simp)
      rw [hmap] at hmem
      exact absurd hmem (hwords w hw)
  have hblanks : ∀ p : Text, p ≠ [] → (∀ c ∈ p.getLast?, Text.isBlank c = false) →
      blanks (fun t => words.findSome? fun w => (dropWord? w t).bind atEnd) (p ++ ' ' :: t) = none := by
    intro p
    induction p with
    | nil => intro hne; exact absurd rfl hne
    | cons c p ih =>
      intro _ hlast
      rw [List.cons_append, blanks]
      split
      · rename_i hc
        have hp : p ≠ [] := by
          rintro rfl
          rw [hlast c (by simp)] at hc
          cases hc
        rw [ih hp fun d hd => hlast d (by rw [List.getLast?_cons_of_ne_nil hp]; exact hd)]
        exact hword (c :: p)
      · exact hword (c :: p)
  obtain ⟨c, p, rfl⟩ := List.exists_cons_of_ne_nil hne
  rw [closing, List.cons_append, someBlanks]
  split
  · rename_i hc
    have hp : p ≠ [] := by
      rintro rfl
      rw [hlast c (by simp)] at hc
      cases hc
    rw [hblanks p hp fun d hd => hlast d (by rw [List.getLast?_cons_of_ne_nil hp]; exact hd)]
    rfl
  · rfl

theorem closing_cons {c : Char} (hc : Text.isBlank c = false) (words : List Text) (t : Text) :
    closing words (c :: t) = none := by
  rw [closing, someBlanks_cons hc]
  rfl

/-! ## Passages -/

/-- A passage is as long as it has to be. -/
theorem passage_append {p t : Text} {b : β} (hne : p ≠ []) (hline : '\n' ∉ p)
    (hnext : next t = some b)
    (hearlier : ∀ q r, p = q ++ r → q ≠ [] → r ≠ [] → next (r ++ t) = none) :
    passage next (p ++ t) = some (p, b) := by
  -- nothing can be read inside of `p`, so the passage takes all of it
  induction p with
  | nil => exact absurd rfl hne
  | cons c p ih =>
    have hc : c ≠ '\n' := fun h => hline (by simp [h])
    rw [List.cons_append, passage, if_neg hc]
    cases hp : p with
    | nil => rw [List.nil_append, hnext]
    | cons d r =>
      have hpne : p ≠ [] := by rw [hp]; simp
      rw [← hp, hearlier [c] p rfl (by simp) hpne]
      have hrest := ih hpne (fun h => hline (List.mem_cons_of_mem _ h)) fun q r hqr hq hr =>
        hearlier (c :: q) r (by rw [hqr]; rfl) (by simp) hr
      rw [hrest]
      rfl

/-- A passage that is a word ends where the next part can begin, which is not before a character of
    a word. -/
theorem passage_word {p t : Text} {b : β} (hne : p ≠ []) (hp : ∀ c ∈ p, Text.isBlank c = false)
    (hword : ∀ c t, Text.isBlank c = false → next (c :: t) = none) (hnext : next t = some b) :
    passage next (p ++ t) = some (p, b) := by
  refine passage_append hne ?_ hnext ?_
  · intro hline
    exact absurd (hp '\n' hline) (by decide)
  · intro q r hqr _ hr
    obtain ⟨c, r, rfl⟩ := List.exists_cons_of_ne_nil hr
    exact hword c (r ++ t) (hp c (by rw [hqr]; simp))

end Shape

end Pseudocode
