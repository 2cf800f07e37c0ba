import Mathlib
import Pseudocode.Proofs.Operands

/-!
# Statements keep the wording of their line

What a statement keeps of its line stands there as it is written, letter case included, and so does the
operator of an assignment, except that an arrow counts as an equals sign. There is one kind of line that
is not read as it is written: `print` and `input` may be part of a name, and the word in front of such a
line is put back in lower case before the line is read as an assignment or a call.

* `Statement.KeepsTextOf`     what it is to keep the wording of a text
* `Statement.isRespelled`     the lines whose first word is put back in another case
* `classify_keeps_text`       every other line is kept as it is written, and these up to letter case
-/

namespace Pseudocode

/-- The ways to write an assignment operator. -/
def AssignmentOperator.spellings : AssignmentOperator → List Text
  | plain => [text "=", text "<-", text "←"]
  | operator => [operator.sign]

namespace Statement

open Shape Expression

/-! ## Wording -/

/-- What a statement says beside its operands stands in `t`: behind the target of an assignment comes its
    operator, in one of its spellings, and behind that the value. A word that should have been a parameter
    is quoted as it is written. -/
def IsWordedIn (t : Text) : Statement → Prop
  | assignment target operator value => ∃ gap sign rest, (∀ c ∈ gap, Text.isBlank c = true) ∧
      sign ∈ operator.spellings ∧ value = initializer rest ∧ target ++ (gap ++ (sign ++ rest)) <:+: t
  | malformed _ (.parameter written) => written <:+: t
  | _ => True

/-- All that a statement keeps of its line stands in `t` as it is. -/
structure KeepsTextOf (s : Statement) (t : Text) : Prop where
  operands : s.IsCutFrom t
  wording : s.IsWordedIn t

variable {s : Statement} {t u : Text}

theorem IsWordedIn.mono (h : s.IsWordedIn t) (htu : t <:+: u) : s.IsWordedIn u := by
  unfold IsWordedIn at h ⊢
  split
  · obtain ⟨gap, sign, rest, hgap, hsign, hvalue, hcut⟩ := h
    exact ⟨gap, sign, rest, hgap, hsign, hvalue, hcut.trans htu⟩
  · exact List.IsInfix.trans h htu
  · trivial

theorem KeepsTextOf.mono (h : s.KeepsTextOf t) (htu : t <:+: u) : s.KeepsTextOf u :=
  ⟨h.operands.mono htu, h.wording.mono htu⟩

theorem IsWordedIn.ifBalanced {form : Form} {texts : List Text} (h : s.IsWordedIn t) :
    (ifBalanced form texts s).IsWordedIn t := by
  rw [Statement.ifBalanced]
  split
  · trivial
  · exact h

theorem assignmentOperator?_eq_some {operator : AssignmentOperator} {r : Text}
    (h : assignmentOperator? t = some (operator, r)) : ∃ sign ∈ operator.spellings, t = sign ++ r := by
  unfold assignmentOperator? at h
  split at h <;> cases h
  all_goals simp [AssignmentOperator.spellings, AssignmentOperator.sign, text]

/-- The target, the operator and the value of an assignment make up its line. -/
theorem assignment?_eq_some {target value : Text} {operator : AssignmentOperator}
    (h : assignment? t = some (target, operator, value)) :
    ∃ gap, (∀ c ∈ gap, Text.isBlank c = true) ∧ ∃ sign ∈ operator.spellings,
      t = target ++ (gap ++ (sign ++ value)) := by
  simp only [assignment?, Option.bind_eq_bind, Option.bind_eq_some_iff, Prod.exists,
    Option.pure_def, Option.some.injEq, Prod.mk.injEq] at h
  obtain ⟨name, rest, hname, indices, _, _, hread, rfl, rfl, rfl⟩ := h
  obtain rfl := name?_eq_some hname
  obtain ⟨r, rfl, hvalue⟩ := brackets_eq_some hread
  rw [assignedValue?] at hvalue
  split at hvalue
  · next c v hs =>
    simp only [Option.ite_none_left_eq_some, Option.some.injEq, Prod.mk.injEq] at hvalue
    obtain ⟨-, rfl, rfl⟩ := hvalue
    obtain ⟨sign, hsign, hr⟩ := assignmentOperator?_eq_some hs
    refine ⟨Text.leadingBlanks r, fun c hc => Text.isBlank_of_mem_leadingBlanks hc, sign, hsign, ?_⟩
    rw [← hr, Text.leadingBlanks_append_trimStart, List.append_assoc]
  · cases hvalue

theorem isWordedIn_withoutKeyword (t : Text) : (withoutKeyword t).IsWordedIn t := by
  rw [withoutKeyword]
  split
  · next target operator value hread =>
    obtain ⟨gap, hgap, sign, hsign, ht⟩ := assignment?_eq_some hread
    have hworded : (assignment target operator (initializer value)).IsWordedIn t :=
      ⟨gap, sign, value, hgap, hsign, rfl, ht ▸ List.infix_refl _⟩
    simp only
    split
    · exact hworded.ifBalanced
    · exact hworded.ifBalanced
    · trivial
  · split
    · exact IsWordedIn.ifBalanced trivial
    · trivial

theorem keepsTextOf_withoutKeyword (t : Text) : (withoutKeyword t).KeepsTextOf t :=
  ⟨isCutFrom_withoutKeyword t, isWordedIn_withoutKeyword t⟩

/-! ## Keywords -/

theorem isWordedIn_functionOf (rest : Text) : (functionOf rest).IsWordedIn rest := by
  rw [functionOf]
  split
  · trivial
  · next name list hread =>
    simp only
    split
    · next written hwritten =>
      have hlist := (function?_isInfix hread).2
      exact (splitList_isInfix (List.mem_of_find?_eq_some hwritten)).trans hlist
    · trivial

theorem isWordedIn_elseIfOf (rest : Option Text) (t : Text) : (elseIfOf rest).IsWordedIn t := by
  rw [elseIfOf]
  split
  · exact IsWordedIn.ifBalanced trivial
  · trivial

/-- Behind a keyword, an assignment is found only where `print` or `input` is part of a name. -/
theorem isWordedIn_withKeyword {keyword : Keyword} {rest : Text} (t : Text)
    (h : keyword.spelled = [] ∨ followsKeyword rest = true) :
    (withKeyword keyword t rest).IsWordedIn rest := by
  -- `print` and `input` are keywords only if what follows allows it
  cases keyword with
  | function => exact isWordedIn_functionOf rest
  | elseIf => exact isWordedIn_elseIfOf _ _
  | «else» =>
    simp only [withKeyword]
    split
    · trivial
    · exact isWordedIn_elseIfOf _ _
  | ending =>
    simp only [withKeyword, endingOf]
    split
    · trivial
    · split <;> trivial
  | declaration kind =>
    simp only [withKeyword, declarationOf]
    split
    · trivial
    · trivial
    · exact IsWordedIn.ifBalanced trivial
  | print =>
    have hrest : followsKeyword rest = true := h.resolve_left (by decide)
    simp only [withKeyword, printOf, if_pos hrest]
    apply IsWordedIn.ifBalanced
    split <;> trivial
  | input =>
    have hrest : followsKeyword rest = true := h.resolve_left (by decide)
    simp only [withKeyword, inputOf, if_pos hrest]
    split
    · trivial
    · apply IsWordedIn.ifBalanced
      split <;> trivial
  | _ =>
    simp only [withKeyword]
    split <;> first | trivial | exact IsWordedIn.ifBalanced trivial

theorem keepsTextOf_withKeyword {keyword : Keyword} {rest : Text} (t : Text)
    (h : keyword.spelled = [] ∨ followsKeyword rest = true) :
    (withKeyword keyword t rest).KeepsTextOf rest := by
  refine ⟨?_, isWordedIn_withKeyword t h⟩
  rcases h with hspelled | hrest
  · have hcut := isCutFrom_withKeyword keyword t rest
    rwa [hspelled] at hcut
  · cases keyword with
    | print => exact isCutFrom_printOf_of_followsKeyword hrest
    | input => exact isCutFrom_inputOf_of_followsKeyword hrest
    | _ => exact isCutFrom_withKeyword _ t rest

/-- A keyword that is part of a name is put back in front of what follows it. -/
theorem withKeyword_eq_withoutKeyword {keyword : Keyword} {rest : Text} (t : Text)
    (hspelled : keyword.spelled ≠ []) (hrest : followsKeyword rest = false) :
    withKeyword keyword t rest = withoutKeyword (keyword.spelled ++ rest) := by
  cases keyword with
  | print => simp only [withKeyword, printOf, hrest, Bool.false_eq_true, if_false, Keyword.spelled]
  | input => simp only [withKeyword, inputOf, hrest, Bool.false_eq_true, if_false, Keyword.spelled]
  | _ => exact absurd rfl hspelled

theorem headWord_of_keyword? {keyword : Keyword} (h : keyword? t = some keyword)
    (hspelled : keyword.spelled ≠ []) : headWord t = keyword.spelled := by
  -- both words stand in the table with their own spelling
  have hall : ∀ entry ∈ keywords, entry.2.spelled ≠ [] → entry.1 = entry.2.spelled := by decide
  obtain ⟨before, after, htable, -⟩ := List.lookup_eq_some_iff.1 h
  apply hall (headWord t, keyword) _ hspelled
  rw [htable]
  exact List.mem_append_right before List.mem_cons_self

/-! ## Lines -/

/-- The text with its first word in lower case. -/
def lowered (t : Text) : Text := headWord t ++ t.drop (headWord t).length

/-- The line begins with `print` or `input`, not in lower case, and what follows makes the word part of a
    name. -/
def isRespelled (line : Text) : Bool :=
  let t := Text.trim line
  (headWord t == text "print" || headWord t == text "input") &&
    !followsKeyword (t.drop (headWord t).length) && lowered t != t

/-- The first word and what follows it make up the text. -/
theorem takeWhile_append_drop_headWord (t : Text) :
    t.takeWhile Text.isNameChar ++ t.drop (headWord t).length = t := by
  have hlength : (headWord t).length = (t.takeWhile Text.isNameChar).length := by
    simp [headWord, Text.toLower]
  have hword := List.takeWhile_append_dropWhile (p := Text.isNameChar) (l := t)
  have hdrop := congrArg (List.drop (t.takeWhile Text.isNameChar).length) hword
  rw [List.drop_left] at hdrop
  rw [hlength, ← hdrop, hword]

theorem toLower_append (t u : Text) : Text.toLower (t ++ u) = Text.toLower t ++ Text.toLower u :=
  List.map_append

theorem toLower_lowered (t : Text) : Text.toLower (lowered t) = Text.toLower t := by
  have hword : Text.toLower (headWord t) = headWord t := by simp [headWord, Text.toLower]
  calc Text.toLower (lowered t)
      = headWord t ++ Text.toLower (t.drop (headWord t).length) := by
        rw [lowered, toLower_append, hword]
    _ = Text.toLower (t.takeWhile Text.isNameChar ++ t.drop (headWord t).length) := by
        rw [toLower_append]
        rfl
    _ = Text.toLower t := by rw [takeWhile_append_drop_headWord]

/-- A trimmed line is read as it is written, or with its first word in lower case. -/
theorem keepsTextOf_keyword {keyword : Keyword} (h : keyword? t = some keyword) :
    let s := withKeyword keyword t (t.drop (headWord t).length)
    s.KeepsTextOf t ∨ (headWord t = text "print" ∨ headWord t = text "input") ∧
      followsKeyword (t.drop (headWord t).length) = false ∧ s.KeepsTextOf (lowered t) := by
  intro s
  by_cases hread : keyword.spelled = [] ∨ followsKeyword (t.drop (headWord t).length) = true
  · exact .inl ((keepsTextOf_withKeyword t hread).mono (List.drop_suffix _ t).isInfix)
  · obtain ⟨hspelled, hrest⟩ := not_or.1 hread
    rw [Bool.not_eq_true] at hrest
    have hword := headWord_of_keyword? h hspelled
    have hs : s = withoutKeyword (lowered t) := by
      rw [lowered, hword, ← withKeyword_eq_withoutKeyword t hspelled (hword ▸ hrest), ← hword]
    refine .inr ⟨?_, hrest, hs ▸ keepsTextOf_withoutKeyword _⟩
    rw [hword]
    cases keyword <;> simp_all [Keyword.spelled]

/-- Classification keeps the wording of a line, letter case included, unless the line begins with `print`
    or `input` in another case and this is part of a name; and it keeps the wording of every line up to
    the case of its letters. -/
theorem classify_keeps_text (line : Text) :
    (isRespelled line = false → (classify line).KeepsTextOf line) ∧
      ∃ copy, Text.sameWord copy line = true ∧ (classify line).KeepsTextOf copy := by
  have htrim : Text.trim line <:+: line := Text.trim_isInfix line
  have hself : Text.sameWord line line = true := beq_self_eq_true _
  -- a line that is read as it is written is its own copy
  suffices h : (classify line).KeepsTextOf line ∨ isRespelled line = true ∧
      (classify line).KeepsTextOf (lowered (Text.trim line)) by
    rcases h with hkept | ⟨hrespelled, hkept⟩
    · exact ⟨fun _ => hkept, line, hself, hkept⟩
    · refine ⟨fun hread => absurd (hrespelled.symm.trans hread) (by simp), ?_⟩
      obtain ⟨before, after, hline⟩ := htrim
      refine ⟨before ++ lowered (Text.trim line) ++ after, ?_, hkept.mono ⟨before, after, rfl⟩⟩
      apply beq_iff_eq.2
      rw [toLower_append, toLower_append, toLower_lowered, ← toLower_append, ← toLower_append, hline]
  unfold classify
  split
  · exact .inl ⟨by simp [IsCutFrom, Statement.operands], trivial⟩
  · next note ht =>
    have hnote : Text.trim note <:+: Text.trim line := by
      rw [ht]
      exact (Text.trim_isInfix note).trans (List.suffix_cons '#' note).isInfix
    refine .inl ⟨?_, trivial⟩
    simp [IsCutFrom, Statement.operands, hnote.trans htrim]
  · split
    · next keyword hkeyword =>
      by_cases hlower : lowered (Text.trim line) = Text.trim line
      · -- the word stands there in lower case already
        rcases keepsTextOf_keyword hkeyword with hkept | ⟨-, -, hkept⟩
        · exact .inl (hkept.mono htrim)
        · exact .inl ((hlower ▸ hkept).mono htrim)
      · rcases keepsTextOf_keyword hkeyword with hkept | ⟨hword, hrest, hkept⟩
        · exact .inl (hkept.mono htrim)
        · refine .inr ⟨?_, hkept⟩
          simp [isRespelled, hrest, hlower, hword]
    · exact .inl ((keepsTextOf_withoutKeyword _).mono htrim)

/-- A name in capital letters that begins with `print` is put in lower case. -/
theorem classify_lowers_name : ¬ (classify (text "PRINT[0] = 5")).KeepsTextOf (text "PRINT[0] = 5") := by
  intro h
  have hread : classify (text "PRINT[0] = 5") =
      .assignment (text "print[0]") .plain (.expression (text "5")) := by decide +kernel
  have htarget : text "print[0]" <:+: text "PRINT[0] = 5" := by
    apply h.operands
    rw [hread]
    exact List.mem_cons_self
  -- the line holds no small letter at all
  have hletter : 'p' ∈ text "PRINT[0] = 5" := htarget.subset (by decide)
  exact absurd hletter (by decide)

/-- Any other name is kept as it is written. -/
theorem classify_keeps_text_index : isRespelled (text " Print_[0] <- 5") = false ∧
    (classify (text " Print_[0] <- 5")).KeepsTextOf (text " Print_[0] <- 5") := by
  have hread : isRespelled (text " Print_[0] <- 5") = false := by decide
  exact ⟨hread, (classify_keeps_text _).1 hread⟩

end Statement

end Pseudocode
