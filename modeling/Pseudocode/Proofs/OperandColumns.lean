import Pseudocode.Proofs.LineParts

/-!
# Columns of an operand

A line of the source and its script line have the same operand between other parts. A column on a word of this
operand in the script line stays in the operand exactly if the number of the occurrence, among the occurrences of
the word in the script line, belongs to the operand in the source line too.

* `LinePart.IsInside`                 a place of a line that is in an operand
* `LinePart.isInside_iff`             the occurrences of a word in an operand, by their numbers
* `Column.forall_isCounterpart_iff`   the numbers of the occurrences that belong to one in the script
* `LinePart.keepsColumns_iff`         columns stay in an operand exactly if numbers do
-/

namespace Pseudocode

open Column

variable {word t written lead trail : Text} {source before after front behind : List LinePart} {number p k : Nat}

namespace LinePart

/-! ## Occurrences in an operand -/

/-- The place of a line is in its operand, with white space `lead` and the parts `front` before the operand. -/
def IsInside (lead : Text) (front : List LinePart) (t : Text) (place : Nat) : Prop :=
  lead.length + (flatten front).length ≤ place ∧ place < lead.length + (flatten front).length + t.length

instance (lead : Text) (front : List LinePart) (t : Text) (place : Nat) : Decidable (IsInside lead front t place) :=
  inferInstanceAs (Decidable (_ ∧ _))

/-- The text of a line: its parts with white space around them. -/
def line (lead : Text) (parts : List LinePart) (trail : Text) : Text := lead ++ (flatten parts ++ trail)

theorem line_split (lead : Text) (front : List LinePart) (number : Nat) (t : Text) (behind : List LinePart)
    (trail : Text) : line lead (front ++ .operand number t :: behind) trail =
      (lead ++ flatten front) ++ (t ++ (flatten behind ++ trail)) := by
  simp [line]

/-- White space around the parts. -/
structure IsMargin (lead trail : Text) : Prop where
  lead : ∀ c ∈ lead, isWordChar c = false
  trail : ∀ c ∈ trail, isWordChar c = false

theorem tally_line (hword : IsWord word) (hmargin : IsMargin lead trail) (parts : List LinePart) :
    tally word (line lead parts trail) = tally word (flatten parts) := by
  rw [line, tally_append hword, tally_append hword, tally_eq_zero hword hmargin.lead,
    tally_eq_zero hword hmargin.trail, Nat.zero_add, Nat.add_zero]
  · exact .inr fun c hc => hmargin.trail c (List.mem_of_mem_head? hc)
  · exact .inl fun c hc => hmargin.lead c (List.mem_of_mem_getLast? hc)

theorem tally_lead_append (hword : IsWord word) (hmargin : IsMargin lead trail) (t : Text) :
    tally word (lead ++ t) = tally word t := by
  rw [tally_append hword (.inl fun c hc => hmargin.lead c (List.mem_of_mem_getLast? hc)),
    tally_eq_zero hword hmargin.lead, Nat.zero_add]

/-- An operand and what stands in front of it hold no more occurrences than the whole line. -/
theorem add_tally_le (hword : IsWord word) (hcut : IsCutApart (front ++ .operand number t :: behind)) :
    tally word (flatten front) + tally word t ≤ tally word (flatten (front ++ .operand number t :: behind)) := by
  have hback : Separated t (flatten behind) := hcut.of_append.1
  have h := tally_append hword hcut.separated
  rw [flatten_cons, chars_operand, tally_append hword hback] at h
  rw [flatten_append, flatten_cons, chars_operand, h]
  omega

section Split

variable (hword : IsWord word) (hmargin : IsMargin lead trail)
  (hcut : IsCutApart (front ++ .operand number t :: behind))
include hmargin hcut

/-- In front of an operand and behind it the line can be cut. -/
theorem separated_split : Separated (lead ++ flatten front) (t ++ (flatten behind ++ trail)) ∧
    Separated t (flatten behind ++ trail) := by
  constructor
  · have h := hcut.separated.surround hmargin.lead hmargin.trail
    rwa [flatten_cons, chars_operand, List.append_assoc] at h
  · exact hcut.of_append.1.surround (x := []) (by simp) hmargin.trail

include hword

/-- The number of an occurrence says whether it is in the operand. -/
theorem isInside_iff (hp : StandsAt word (line lead (front ++ .operand number t :: behind) trail) p) :
    IsInside lead front t p ↔
      tally word (flatten front) ≤
          Nat.count (StandsAt word (line lead (front ++ .operand number t :: behind) trail)) p ∧
        Nat.count (StandsAt word (line lead (front ++ .operand number t :: behind) trail)) p <
          tally word (flatten front) + tally word t := by
  obtain ⟨hfront, hback⟩ := separated_split hmargin hcut
  simp only [line_split] at hp ⊢
  have h := length_le_iff_tally_le hword hfront hback hp
  rwa [tally_lead_append hword hmargin, List.length_append] at h

/-- The characters of a word that begins in the operand are in it. -/
theorem isInside_of_lt (hp : StandsAt word (line lead (front ++ .operand number t :: behind) trail) p)
    (hinside : IsInside lead front t p) {q : Nat} (hle : p ≤ q) (hlt : q < p + word.length) :
    IsInside lead front t q := by
  obtain ⟨hfront, hback⟩ := separated_split hmargin hcut
  rw [line_split] at hp
  have hend := add_length_le_of_lt hword hfront hback hp
  rw [List.length_append] at hend
  have hend := hend hinside.1 hinside.2
  exact ⟨hinside.1.trans hle, hlt.trans_le hend⟩

/-- A word with a character in the operand begins there. -/
theorem isInside_start (hp : StandsAt word (line lead (front ++ .operand number t :: behind) trail) p)
    {q : Nat} (hinside : IsInside lead front t q) (hle : p ≤ q) (hlt : q < p + word.length) :
    IsInside lead front t p := by
  rw [line_split] at hp
  have hstart := length_le_of_le (o := q) hword (separated_split hmargin hcut).1 hp
  rw [List.length_append] at hstart
  exact ⟨hstart hinside.1 hlt, hle.trans_lt hinside.2⟩

end Split

/-! ## Columns -/

/-- The occurrences of the word in the operand that the script writes as `written` have numbers that belong to the
    operand `t` of the source or to nothing there; the only occurrence in the source, to which all further ones
    belong, is in this operand. -/
def KeepsNumbers (word : Text) (source front : List LinePart) (t : Text) (before : List LinePart)
    (written : Text) : Prop :=
  ∀ k, tally word (flatten before) ≤ k → k < tally word (flatten before) + tally word written →
    (tally word (flatten front) ≤ k ∧ k < tally word (flatten front) + tally word t) ∨
      tally word (flatten source) ≤ k ∧ (tally word (flatten source) = 1 → 0 < tally word t)

/-- Every column on the word in the operand of the script line is carried to the operand of the source line, if it is
    carried to a column at all. -/
def KeepsColumns (word generated raw lead : Text) (front : List LinePart) (t : Text) (before : List LinePart)
    (written : Text) : Prop :=
  ∀ offset start column, IsAround generated offset word start → IsInside lead before written offset →
    map? generated raw (offset + 1) = some column → ∃ place, column = place + 1 ∧ IsInside lead front t place

end LinePart

namespace Column

variable {generated raw : Text} {offset start found c : Nat}

/-- A column is carried into the occurrence that belongs to its word. -/
theorem exists_isCounterpart_of_map? (haround : IsAround generated offset word start)
    (h : map? generated raw (offset + 1) = some c) :
    ∃ found place, IsCounterpart word generated raw start found ∧ c = place + 1 ∧ found ≤ place ∧
      place < found + word.length := by
  by_cases hsame : generated = raw
  · rw [map?, if_pos hsame, Option.some.injEq] at h
    refine ⟨start, offset, ⟨hsame ▸ haround.standsAt, .inl (by rw [hsame])⟩, h.symm, haround.start_le,
      haround.lt_end⟩
  · obtain ⟨found, rfl, hfound⟩ := (map?_of_isAround hsame haround).1 h
    exact ⟨found, found, hfound, rfl, Nat.le_refl _,
      Nat.lt_add_of_pos_right (List.length_pos_iff.2 haround.ne_nil)⟩

/-- The column at which a word begins is carried to where its counterpart begins. -/
theorem map?_start (haround : IsAround generated start word start)
    (h : IsCounterpart word generated raw start found) : map? generated raw (start + 1) = some (found + 1) := by
  by_cases hsame : generated = raw
  · obtain rfl : found = start := by
      rcases h.2 with hcount | ⟨honly, -⟩
      · rw [hsame] at hcount
        exact Nat.count_injective h.1 (hsame ▸ haround.standsAt) hcount
      · exact (honly start (hsame ▸ haround.standsAt)).symm
    rw [map?, if_pos hsame]
  · exact (map?_of_isAround hsame haround).2 ⟨found, rfl, h⟩

/-- A word that stands in a text is around the character that it begins with. -/
theorem IsWord.isAround (hword : IsWord word) (h : StandsAt word t start) : IsAround t start word start :=
  ⟨hword.isWord, h, Nat.le_refl _, Nat.lt_add_of_pos_right (List.length_pos_iff.2 hword.ne_nil)⟩

/-- The occurrences that belong to one with the number `k` have numbers of a range exactly if `k` is one, or if the
    source has not as many and the range is not empty where it has a single one. -/
theorem forall_isCounterpart_iff (hword : IsWord word) {first times : Nat} (hle : first + times ≤ tally word raw) :
    (∀ found, IsCounterpart word generated raw start found →
        first ≤ Nat.count (StandsAt word raw) found ∧ Nat.count (StandsAt word raw) found < first + times) ↔
      (first ≤ Nat.count (StandsAt word generated) start ∧
          Nat.count (StandsAt word generated) start < first + times) ∨
        tally word raw ≤ Nat.count (StandsAt word generated) start ∧ (tally word raw = 1 → 0 < times) := by
  have htotal : Nat.count (StandsAt word raw) raw.length = tally word raw := rfl
  simp only [IsCounterpart, htotal]
  generalize Nat.count (StandsAt word generated) start = k
  constructor
  · intro h
    by_cases hk : k < tally word raw
    · obtain ⟨found, hfound, hcount⟩ := exists_count_eq hword hk
      exact .inl (hcount ▸ h found ⟨hfound, .inl hcount⟩)
    · refine .inr ⟨Nat.le_of_not_lt hk, fun hone => ?_⟩
      -- the only occurrence belongs to all further ones
      obtain ⟨found, hfound, -⟩ := exists_count_eq hword (t := raw) (k := 0) (by omega)
      have hin := h found ⟨hfound, .inr ⟨fun other hother => eq_of_tally_eq_one hword hone hother hfound,
        Nat.le_of_not_lt hk⟩⟩
      omega
  · rintro h found ⟨hfound, hcount | ⟨honly, htimes⟩⟩
    · have hlt := count_lt_tally hword hfound
      rw [hcount] at hlt ⊢
      exact h.resolve_right fun h => by omega
    · have hone := tally_eq_one hword hfound honly
      have hlt := count_lt_tally hword hfound
      omega

end Column

namespace LinePart

variable {generated raw : Text}

section Lines

variable (hword : IsWord word) (hmargin : IsMargin lead trail)
  (hsource : IsCutApart (front ++ .operand number t :: behind))
  (hscript : IsCutApart (before ++ .operand number written :: after))
  (hraw : StandsAt word raw = StandsAt word (line lead (front ++ .operand number t :: behind) trail))
  (hlength : raw.length = (line lead (front ++ .operand number t :: behind) trail).length)
include hword hmargin hsource hraw hlength

/-- The counterparts of an occurrence are in the operand exactly if its number belongs to the operand. -/
theorem forall_isInside_iff (start : Nat) :
    (∀ found, IsCounterpart word generated raw start found → IsInside lead front t found) ↔
      (tally word (flatten front) ≤ Nat.count (StandsAt word generated) start ∧
          Nat.count (StandsAt word generated) start < tally word (flatten front) + tally word t) ∨
        tally word (flatten (front ++ .operand number t :: behind)) ≤ Nat.count (StandsAt word generated) start ∧
          (tally word (flatten (front ++ .operand number t :: behind)) = 1 → 0 < tally word t) := by
  -- the occurrences on the line are counted part by part
  have htotal : tally word raw = tally word (flatten (front ++ .operand number t :: behind)) := by
    rw [← tally_line hword hmargin, tally, tally, hlength]
    simp only [hraw]
  have hle := add_tally_le hword hsource
  rw [← htotal] at hle ⊢
  rw [← forall_isCounterpart_iff hword hle]
  refine forall_congr' fun found => imp_congr_right fun hfound => ?_
  have hstands := hfound.1
  rw [hraw] at hstands
  rw [isInside_iff hword hmargin hsource hstands]
  simp only [hraw]

include hscript

/-- The columns of a word stay in an operand exactly if its occurrences have numbers that belong to it. -/
theorem keepsColumns_iff :
    KeepsColumns word (line lead (before ++ .operand number written :: after) []) raw lead front t before written ↔
      KeepsNumbers word (front ++ .operand number t :: behind) front t before written := by
  have hbare : IsMargin lead [] := ⟨hmargin.lead, by simp⟩
  have hinside {start : Nat} := isInside_iff hword hbare hscript (p := start)
  constructor
  · -- every number is the one of a column
    intro hkeeps k hle hlt
    have hk : k < tally word (line lead (before ++ .operand number written :: after) []) := by
      have hwhole := add_tally_le hword hscript
      rw [tally_line hword hbare]
      omega
    obtain ⟨start, hstart, rfl⟩ := exists_count_eq hword hk
    refine (forall_isInside_iff hword hmargin hsource hraw hlength start).1 fun found hfound => ?_
    obtain ⟨place, hplace, hin⟩ := hkeeps start start (found + 1) (hword.isAround hstart)
      ((hinside hstart).2 ⟨hle, hlt⟩) (map?_start (hword.isAround hstart) hfound)
    exact Nat.succ.inj hplace ▸ hin
  · -- every column is on an occurrence with such a number
    intro hkeeps offset start column haround hoffset hmap
    obtain ⟨found, place, hfound, rfl, hle, hlt⟩ := exists_isCounterpart_of_map? haround hmap
    have hstart := isInside_start hword hbare hscript haround.standsAt hoffset haround.start_le haround.lt_end
    obtain ⟨hfirst, hlast⟩ := (hinside haround.standsAt).1 hstart
    have hin := (forall_isInside_iff hword hmargin hsource hraw hlength start).2 (hkeeps _ hfirst hlast) found hfound
    exact ⟨place, rfl, isInside_of_lt hword hmargin hsource (hraw ▸ hfound.1) hin hle hlt⟩

end Lines

end LinePart

end Pseudocode
