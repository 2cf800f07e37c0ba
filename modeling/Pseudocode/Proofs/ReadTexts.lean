import Pseudocode.Proofs.LineLayouts
import Pseudocode.Proofs.LiteralContents

/-!
# The words of a line and of the text that it is read as

A line is read as it is written, without the white space around it; only a first name that begins with `print` or
`input` is read with this word in lower case. So all other words stand where they stand in the text that is read.

* `classify_of_isRespelled`        a line that is read in lower case has no keyword
* `isWordChar_of_isRespelled`      its first word goes on with no word character
* `standsAt_readText`              words stand where they stand in the text that is read
-/

namespace Pseudocode

open Column

namespace Statement

open Shape
variable {w r line : Text}

/-- A dollar sign directly behind the first word of a line is in no statement without a keyword. -/
theorem isAccepted_withoutKeyword_dollar {c : Char} (hc : isNameStart c = true) (hw : w.all Text.isWordChar = true)
    (r : Text) : (withoutKeyword (c :: (w ++ '$' :: r))).isAccepted = false := by
  have hdollar : Text.isWordChar '$' = false := rfl
  have hblank : Text.isBlank '$' = false := rfl
  have hdrop : (w ++ '$' :: r).dropWhile Text.isWordChar = '$' :: r :=
    Text.dropWhile_append_of_ends (List.all_eq_true.1 hw) (by simp [hdollar])
  -- the name ends at the dollar, and nothing goes on with one
  have hvalue : assignedValue? ('$' :: r) = none := by
    rw [assignedValue?, Text.trimStart, List.dropWhile_cons_of_neg (by decide)]
    rfl
  have hassignment : assignment? (c :: (w ++ '$' :: r)) = none := by
    rw [assignment?, name?, if_pos hc, hdrop]
    simp [brackets, groupStart, hvalue, hblank]
  have hcall : call? (c :: (w ++ '$' :: r)) = none := by
    refine Option.eq_none_iff_forall_ne_some.2 fun e he => ?_
    obtain ⟨d, x, htrim, hd⟩ := trimStart_of_call? he
    rw [hdrop, Text.trimStart, List.dropWhile_cons_of_neg (by decide)] at htrim
    obtain rfl : '$' = d := (List.cons.inj htrim).1
    rcases hd with hd | hd <;> exact absurd hd (by decide)
  rw [withoutKeyword_of_none hassignment hcall]
  rfl

theorem classify_of_isRespelled (h : isRespelled line = true) :
    (headWord (Text.trim line) = text "print" ∨ headWord (Text.trim line) = text "input") ∧
      classify line = withoutKeyword (lowered (Text.trim line)) := by
  simp only [isRespelled, Bool.and_eq_true, Bool.or_eq_true, beq_iff_eq, Bool.not_eq_true', bne_iff_ne] at h
  obtain ⟨⟨hword, hrest⟩, -⟩ := h
  refine ⟨hword, ?_⟩
  obtain ⟨keyword, hkeyword, hspelled, heq⟩ : ∃ keyword : Keyword, keyword? (Text.trim line) = some keyword ∧
      keyword.spelled ≠ [] ∧ headWord (Text.trim line) = keyword.spelled := by
    rcases hword with hword | hword
    · exact ⟨.print, by rw [keyword?, hword]; rfl, by decide, hword⟩
    · exact ⟨.input, by rw [keyword?, hword]; rfl, by decide, hword⟩
  have hread := withKeyword_eq_withoutKeyword (Text.trim line) hspelled hrest
  rw [← heq, ← lowered] at hread
  unfold classify
  split
  · next hblank =>
    rw [hblank] at heq
    exact absurd heq.symm hspelled
  · next note hnote =>
    rw [hnote] at heq
    exact absurd heq.symm hspelled
  · rw [hkeyword]
    exact hread

/-- In an accepted line, a first word that is read in lower case goes on with no word character. -/
theorem isWordChar_of_isRespelled (h : isRespelled line = true) (haccepted : (classify line).isAccepted = true) :
    ∀ c ∈ ((Text.trim line).drop (headWord (Text.trim line)).length).head?, isWordChar c = false := by
  obtain ⟨hword, hread⟩ := classify_of_isRespelled h
  intro c hc
  have hsplit := takeWhile_append_drop_headWord (Text.trim line)
  generalize Text.trim line = t at *
  rw [hread, lowered] at haccepted
  generalize hrest : t.drop (headWord t).length = rest at *
  cases rest with
  | nil => cases hc
  | cons d rest =>
    obtain rfl : d = c := Option.some.inj hc
    have hname : Text.isNameChar d = false := by
      have hsplit' := List.takeWhile_append_dropWhile (p := Text.isNameChar) (l := t)
      have hdrop := List.append_cancel_left (hsplit'.trans hsplit.symm)
      have hhead := List.head?_dropWhile_not Text.isNameChar t
      rw [hdrop] at hhead
      simpa using hhead
    rw [isWordChar_eq, hname, Bool.false_or, decide_eq_false_iff_not]
    rintro rfl
    -- a dollar sign would make the line a statement that nothing accepts
    have hnot : (withoutKeyword (headWord t ++ '$' :: rest)).isAccepted = false := by
      rcases hword with hword | hword <;> rw [hword]
      · exact isAccepted_withoutKeyword_dollar (c := 'p') (w := text "rint") rfl rfl rest
      · exact isAccepted_withoutKeyword_dollar (c := 'i') (w := text "nput") rfl rfl rest
    rw [hnot] at haccepted
    cases haccepted

/-- A line is read as a text of the same length. -/
theorem length_readText (line : Text) : (readText line).length = (Text.trim line).length := by
  rw [readText]
  split
  · have hsplit := congrArg List.length (takeWhile_append_drop_headWord (Text.trim line))
    have hlength : (headWord (Text.trim line)).length = ((Text.trim line).takeWhile Text.isNameChar).length := by
      simp [headWord, Text.toLower]
    rw [lowered, ← hsplit, List.length_append, List.length_append, hlength]
  · rfl

end Statement

namespace Column

variable {word a b rest lead : Text}

/-- Two words instead of each other, in front of the same rest, are no matter to other words. -/
theorem standsAt_exchange (hword : IsWord word) (hlength : a.length = b.length)
    (ha : ∀ c ∈ a, isWordChar c = true) (hb : ∀ c ∈ b, isWordChar c = true) (hne : word ≠ a) (hne' : word ≠ b)
    (hlead : ∀ c ∈ lead, isWordChar c = false) (hrest : ∀ c ∈ rest.head?, isWordChar c = false) :
    StandsAt word (lead ++ (a ++ rest)) = StandsAt word (lead ++ (b ++ rest)) := by
  have hcut (t : Text) : Separated lead t := .inl fun c hc => hlead c (List.mem_of_mem_getLast? hc)
  have hnone {t : Text} (ht : ∀ c ∈ t, isWordChar c = true) (hne : word ≠ t) : ∀ o, ¬ StandsAt word t o :=
    (tally_eq_zero_iff hword).1 (tally_eq_zero_of_ne hword ht hne)
  funext o
  apply propext
  -- in front of the exchanged word, within it, behind it
  by_cases hfront : o < lead.length
  · rw [standsAt_append_left hword (hcut _) hfront, standsAt_append_left hword (hcut _) hfront]
  · obtain ⟨o, rfl⟩ := Nat.exists_eq_add_of_le (Nat.le_of_not_lt hfront)
    rw [standsAt_append_right hword (hcut _), standsAt_append_right hword (hcut _)]
    by_cases hinside : o < a.length
    · rw [standsAt_append_left hword (.inr hrest) hinside, standsAt_append_left hword (.inr hrest) (hlength ▸ hinside)]
      exact iff_of_false (hnone ha hne o) (hnone hb hne' o)
    · obtain ⟨o, rfl⟩ := Nat.exists_eq_add_of_le (Nat.le_of_not_lt hinside)
      rw [standsAt_append_right hword (.inr hrest), hlength, standsAt_append_right hword (.inr hrest)]

end Column

open Statement

/-- The words of a line stand where they stand in the text that it is read as, its first word apart if this is read
    in lower case. -/
theorem standsAt_readText {line lead trail word : Text} (hword : IsWord word)
    (haccepted : (classify line).isAccepted = true) (hlead : ∀ c ∈ lead, isWordChar c = false)
    (htrail : ∀ c ∈ trail, isWordChar c = false)
    (hhead : isRespelled line = true → Text.toLower word ≠ headWord (Text.trim line)) :
    StandsAt word (lead ++ (Text.trim line ++ trail)) = StandsAt word (lead ++ (readText line ++ trail)) := by
  rw [readText]
  split
  · next hrespelled =>
    have hrest := isWordChar_of_isRespelled hrespelled haccepted
    have hne := hhead hrespelled
    have hsplit := takeWhile_append_drop_headWord (Text.trim line)
    have hlower : Text.toLower ((Text.trim line).takeWhile Text.isNameChar) = headWord (Text.trim line) := rfl
    have hletters : ∀ c ∈ headWord (Text.trim line), isWordChar c = true := by
      rcases (classify_of_isRespelled hrespelled).1 with hprint | hinput
      · rw [hprint]
        exact List.all_eq_true.1 (show (text "print").all isWordChar = true from rfl)
      · rw [hinput]
        exact List.all_eq_true.1 (show (text "input").all isWordChar = true from rfl)
    rw [lowered]
    nth_rewrite 1 [← hsplit]
    rw [List.append_assoc, List.append_assoc]
    -- the word in front is put in lower case, and the word that is looked for is another one
    refine standsAt_exchange hword (by simp [headWord, Text.toLower]) (fun c hc => ?_) hletters ?_ ?_ hlead ?_
    · exact isWordChar_of_isNameChar (List.mem_takeWhile_imp hc)
    · rintro rfl
      exact hne hlower
    · rintro rfl
      exact hne (by rw [← hlower, Expression.toLower_toLower])
    · intro c hc
      rw [List.head?_append, Option.mem_def, Option.or_eq_some_iff] at hc
      rcases hc with hc | ⟨-, hc⟩
      · exact hrest c hc
      · exact htrail c (List.mem_of_mem_head? hc)
  · rfl

end Pseudocode
