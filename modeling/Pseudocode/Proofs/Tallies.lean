import Pseudocode.Proofs.Scanning

/-!
# Findings add up

Whatever is wrong with a program, its findings account for every statement that opens or ends a block, and for
every line that has not the shape of a statement.

* `Validation.Tallied`               what the findings after some of the lines say, one field for each account
* `Validation.tallied_findings`      the account of a whole program
* `validate_counts_blocks`           the statements that open blocks, counted by messages
* `validate_anchors`                 where findings stand, and which lines have the shape of no statement
-/

namespace Pseudocode

namespace Validation

variable {lines read : List Line} {line : Line} {places reported : List Place} {fs : List Finding}

/-- The finding says that a block is never closed. -/
def isUnclosed (f : Finding) : Bool := topic? f.cause == some .unclosed

/-- The finding about a block that is never closed. -/
def unclosedAt (lines : List Line) (place : Place) : Finding :=
  ⟨place.1, textOf lines place.1, .unclosed place.2⟩

/-- `Tallied lines read places reported fs`: the findings `fs` are those after the lines `read` of the program,
    the blocks `places` are open, and the blocks `reported` are said to be never closed. -/
structure Tallied (lines read : List Line) (places reported : List Place) (fs : List Finding) : Prop where
  anchored : ∀ f ∈ fs, IsAnchored lines f
  unclosed : (fs.filter isUnclosed).Perm (reported.map (unclosedAt lines))
  /-- A block that is opened is open or has its end, and the other ends are found to be wrong. -/
  balance : (openings read).length + count .mismatchedEnd fs + count .unexpectedEnd fs =
    places.length + (endings read).length
  opened : places.reverse.Sublist (openings read)
  shape : ∀ n, (fs.countP fun f => f.line == n && isAboutShape f) = ((shapeless read).map Line.number).count n

/-- Findings about nothing that is counted, and about blocks that are never closed. -/
theorem Tallied.append (h : Tallied lines read places reported fs) (gs : List Finding) (more : List Place)
    (hanchored : ∀ g ∈ gs, IsAnchored lines g)
    (hunclosed : (gs.filter isUnclosed).Perm (more.map (unclosedAt lines)))
    (htopic : ∀ g ∈ gs, topic? g.cause = none ∨ topic? g.cause = some .unclosed) :
    Tallied lines read places (more ++ reported) (gs ++ fs) := by
  -- the new findings are about no other topic, so the other counts stay
  have hcount {topic : Topic} (hne : topic ≠ .unclosed) : count topic (gs ++ fs) = count topic fs := by
    have hnone : count topic gs = 0 := by
      refine List.countP_eq_zero.2 fun g hg => ?_
      rcases htopic g hg with h | h <;> simp [h, hne.symm]
    rw [count] at hnone ⊢
    rw [List.countP_append, hnone, Nat.zero_add, count]
  have hshape : ∀ g ∈ gs, isAboutShape g = false := by
    intro g hg
    rcases htopic g hg with h | h <;> simp [isAboutShape, h]
  refine ⟨List.forall_mem_append.2 ⟨hanchored, h.anchored⟩, ?_, ?_, h.opened, fun n => ?_⟩
  · rw [List.filter_append, List.map_append]
    exact hunclosed.append h.unclosed
  · rw [hcount (by decide), hcount (by decide), h.balance]
  · rw [List.countP_append, h.shape, List.countP_eq_zero.2, Nat.zero_add]
    intro g hg
    simp [hshape g hg]

/-- Findings about nothing that is counted. -/
theorem Tallied.append_remarks (h : Tallied lines read places reported fs) {gs : List Finding}
    (hgs : ∀ g ∈ gs, topic? g.cause = none ∧ IsAnchored lines g) :
    Tallied lines read places reported (gs ++ fs) := by
  have hunclosed : gs.filter isUnclosed = [] := by
    refine List.filter_eq_nil_iff.2 fun g hg => ?_
    simp [isUnclosed, (hgs g hg).1]
  exact h.append gs [] (fun g hg => (hgs g hg).2) (by rw [hunclosed]; rfl) fun g hg => .inl (hgs g hg).1

theorem Tallied.cons (h : Tallied lines read places reported fs) {f : Finding}
    (hanchored : IsAnchored lines f) (htopic : topic? f.cause = none) :
    Tallied lines read places reported (f :: fs) :=
  h.append_remarks fun _ hg => List.mem_singleton.1 hg ▸ ⟨htopic, hanchored⟩

theorem Tallied.remarks {s s' : State} (h : Tallied lines read s.places reported s.findings)
    (hremarks : s.Remarks lines s') : Tallied lines read s'.places reported s'.findings := by
  obtain ⟨hplaces, remarks, hfindings, hnone⟩ := hremarks
  rw [hplaces, hfindings]
  exact h.append_remarks hnone

/-! ## The next line -/

theorem openings_concat (read : List Line) {statement : Statement} (h : statement? line = some statement) :
    openings (read ++ [line]) = openings read ++ (statement.opened?.map (line.number, ·)).toList := by
  cases hopened : statement.opened? <;> simp [openings, List.filterMap_append, h, hopened]

theorem endings_concat (read : List Line) {statement : Statement} (h : statement? line = some statement) :
    endings (read ++ [line]) = endings read ++ (statement.closed?.map (line.number, ·)).toList := by
  cases hclosed : statement.closed? <;> simp [endings, List.filterMap_append, h, hclosed]

theorem shapeless_concat (read : List Line) {statement : Statement} (h : statement? line = some statement) :
    shapeless (read ++ [line]) = shapeless read ++ if statement.isShapeless then [line] else [] := by
  cases hshape : statement.isShapeless <;> simp [shapeless, List.filter_append, h, hshape]

/-- A line without a statement is not counted. -/
theorem Tallied.skip (h : Tallied lines read places reported fs) (hnone : statement? line = none) :
    Tallied lines (read ++ [line]) places reported fs := by
  have hopenings : openings (read ++ [line]) = openings read := by simp [openings, hnone]
  have hendings : endings (read ++ [line]) = endings read := by simp [endings, hnone]
  have hshapeless : shapeless (read ++ [line]) = shapeless read := by simp [shapeless, hnone]
  refine ⟨h.anchored, h.unclosed, ?_, ?_, ?_⟩
  · rw [hopenings, hendings, h.balance]
  · rw [hopenings]
    exact h.opened
  · rw [hshapeless]
    exact h.shape

section Moves

variable {statement : Statement} {cause? : Option Finding.Cause} {places' : List Place}

theorem Moves.balance (h : Moves line.number places statement cause? places') :
    (statement.opened?.map (line.number, ·)).toList.length + places.length
      + count .mismatchedEnd (foundAt line cause?) + count .unexpectedEnd (foundAt line cause?) =
    places'.length + (statement.closed?.map (line.number, ·)).toList.length := by
  cases h with
  | opens hopens => simp [hopens, Statement.closed?_of_opened? hopens, foundAt, count, Nat.add_comm]
  | stays hopens hcloses => simp [hopens, hcloses, foundAt, count]
  | _ => simp [Statement.opened?, Statement.closed?, foundAt, findingAt, count, topic?]

/-- The open blocks stay in the order in which they have been opened. -/
theorem Moves.opened (h : Moves line.number places statement cause? places') {os : List Place}
    (hos : places.reverse.Sublist os) :
    places'.reverse.Sublist (os ++ (statement.opened?.map (line.number, ·)).toList) := by
  cases h with
  | opens hopens =>
    rw [List.reverse_cons, hopens]
    exact hos.append (List.Sublist.refl _)
  | @closes opened kind places =>
    rw [List.reverse_cons] at hos
    exact ((List.sublist_append_left ..).trans hos).trans (List.sublist_append_left ..)
  | _ => exact hos.trans (List.sublist_append_left ..)

theorem Moves.unclosed (h : Moves line.number places statement cause? places') :
    (foundAt line cause?).filter isUnclosed = [] := by
  cases h <;> rfl

theorem Moves.shape (h : Moves line.number places statement cause? places') (n : Nat) :
    ((foundAt line cause?).countP fun f => f.line == n && isAboutShape f) =
      ((if statement.isShapeless then [line] else []).map Line.number).count n := by
  cases h with
  | opens hopens => simp [Statement.isShapeless_of_opened? hopens, foundAt]
  | stays _ _ hshape => simp [hshape, foundAt]
  | _ => simp [Statement.isShapeless, foundAt, findingAt, isAboutShape, topic?, List.count_cons]

end Moves

/-- A statement is accounted for, and nothing else changes. -/
theorem Tallied.takes {statement : Statement} {s s' : State} (hnumbered : AreNumbered lines)
    (hline : line ∈ lines) (h : Tallied lines read s.places reported s.findings)
    (hstatement : statement? line = some statement) (htakes : s.Takes lines line statement s') :
    Tallied lines (read ++ [line]) s'.places reported s'.findings := by
  obtain ⟨t, cause?, hremarks, hfindings, hmoves⟩ := htakes
  obtain ⟨hanchored, hunclosed, hbalance, hopened, hshape⟩ := h.remarks hremarks
  rw [hfindings]
  refine ⟨List.forall_mem_append.2 ⟨fun f hf => ?_, hanchored⟩, ?_, ?_, ?_, fun n => ?_⟩
  · obtain ⟨cause, -, rfl⟩ := by simpa [foundAt] using hf
    exact isAnchored_findingAt hnumbered hline cause
  · rw [List.filter_append, hmoves.unclosed]
    exact hunclosed
  · have hmove := hmoves.balance
    simp only [openings_concat read hstatement, endings_concat read hstatement, List.length_append, count,
      List.countP_append] at hbalance hmove ⊢
    omega
  · rw [openings_concat read hstatement]
    exact hmoves.opened hopened
  · rw [shapeless_concat read hstatement, List.countP_append, hshape, hmoves.shape, List.map_append,
      List.count_append, Nat.add_comm]

/-- The next line is accounted for. -/
theorem Tallied.visit {s : State} (hnumbered : AreNumbered lines) (hline : line ∈ lines)
    (h : Tallied lines read s.places reported s.findings) :
    Tallied lines (read ++ [line]) (s.visit lines line).places reported (s.visit lines line).findings := by
  obtain ⟨hnone, hvisit⟩ | ⟨statement, hstatement, htakes⟩ := s.visit_cases hnumbered hline
  · rw [hvisit]
    exact h.skip hnone
  · exact h.takes hnumbered hline hstatement htakes

/-! ## The whole program -/

/-- All lines are accounted for, one after the other. -/
theorem Tallied.foldl_visit (hnumbered : AreNumbered lines) {rest : List Line} (hrest : rest ⊆ lines) {s : State}
    (h : Tallied lines read s.places reported s.findings) :
    Tallied lines (read ++ rest) (rest.foldl (State.visit lines) s).places reported
      (rest.foldl (State.visit lines) s).findings := by
  induction rest generalizing read s with
  | nil => simpa using h
  | cons line rest ih =>
    obtain ⟨hline, hrest⟩ := List.cons_subset.1 hrest
    have hnext := ih hrest (h.visit hnumbered hline)
    rwa [List.append_assoc, List.singleton_append] at hnext

/-- Before the first line there is nothing to account for. -/
theorem tallied_initial (lines : List Line) :
    Tallied lines [] State.initial.places [] State.initial.findings :=
  ⟨by simp [State.initial], by simp [State.initial], rfl, by simp [State.initial, State.places, openings],
    fun n => by simp [State.initial, shapeless]⟩

/-- Blocks that are open at the end are said to be never closed. -/
theorem findings_foldr_unclosed (lines : List Line) (frames : List Frame) (s : State) :
    (frames.foldr (fun f s => s.reportAt lines f.line (.unclosed f.kind)) s).findings =
      (frames.map fun f => (f.line, f.kind)).map (unclosedAt lines) ++ s.findings := by
  induction frames with
  | nil => rfl
  | cons f frames ih =>
    rw [List.foldr_cons, State.reportAt, ih]
    rfl

theorem isAnchored_opening (hnumbered : AreNumbered lines) {place : Place} (h : place ∈ openings lines) :
    IsAnchored lines (unclosedAt lines place) := by
  obtain ⟨line, hline, hplace⟩ := List.mem_filterMap.1 h
  obtain ⟨statement, -, hplace⟩ := Option.bind_eq_some_iff.1 hplace
  obtain ⟨kind, -, rfl⟩ := Option.map_eq_some_iff.1 hplace
  have hanchored := isAnchored_findingAt hnumbered hline (.unclosed kind)
  exact ⟨hanchored.one_le, hanchored.le, rfl⟩

/-- The end of the program is accounted for: what is open is said to be never closed. -/
theorem Tallied.finish (hnumbered : AreNumbered lines) {s : State}
    (h : Tallied lines lines s.places [] s.findings) :
    Tallied lines lines s.places s.places (s.finish lines).findings := by
  -- a missing header is reported first, then the open blocks, then a missing footer
  obtain ⟨t, ht, hstack, hheader⟩ : ∃ t, (if s.started then s else s.reportAt lines 1 .missingHeader) = t ∧
      t.stack = s.stack ∧ Tallied lines lines s.places [] t.findings := by
    refine ⟨_, rfl, ?_⟩
    split
    · exact ⟨rfl, h⟩
    · exact ⟨rfl, h.cons ⟨Nat.le_refl 1, Nat.le_max_left .., rfl⟩ rfl⟩
  have hunclosed : (s.places.map (unclosedAt lines)).filter isUnclosed = s.places.map (unclosedAt lines) :=
    List.filter_eq_self.2 <| List.forall_mem_map.2 fun _ _ => rfl
  have hopen : Tallied lines lines s.places s.places (s.places.map (unclosedAt lines) ++ t.findings) := by
    have hmore := hheader.append _ s.places (List.forall_mem_map.2 fun place hplace =>
      isAnchored_opening hnumbered (h.opened.subset (List.mem_reverse.2 hplace)))
      (by rw [hunclosed]) (List.forall_mem_map.2 fun _ _ => .inr rfl)
    rwa [List.append_nil] at hmore
  have hfindings := findings_foldr_unclosed lines s.stack t
  rw [State.finish, ht, hstack]
  split
  · refine Tallied.cons (hfindings ▸ hopen) ⟨Nat.le_max_right .., Nat.le_of_eq (Nat.max_comm ..), rfl⟩ ?_
    rfl
  · exact hfindings ▸ hopen

/-- The order of the findings does not matter. -/
theorem Tallied.perm (h : Tallied lines read places reported fs) {fs' : List Finding} (hperm : fs'.Perm fs) :
    Tallied lines read places reported fs' := by
  obtain ⟨hanchored, hunclosed, hbalance, hopened, hshape⟩ := h
  refine ⟨fun f hf => hanchored f (hperm.subset hf), (hperm.filter _).trans hunclosed, ?_, hopened, fun n => ?_⟩
  · rw [count, count, hperm.countP_eq, hperm.countP_eq, ← count, ← count, hbalance]
  · rw [hperm.countP_eq, hshape]

/-- The findings of a program account for all of its lines. -/
theorem tallied_findings (hnumbered : AreNumbered lines) :
    ∃ places, Tallied lines lines places places (findings lines) := by
  have hread := (tallied_initial lines).foldl_visit hnumbered (List.Subset.refl lines)
  exact ⟨_, (hread.finish hnumbered).perm ((List.mergeSort_perm _ _).trans (List.reverse_perm _))⟩

/-! ## Numbers of lines -/

theorem AreNumbered.nodup (h : AreNumbered lines) : (lines.map Line.number).Nodup := by
  rw [List.nodup_iff_pairwise_ne, List.pairwise_iff_getElem]
  intro i j hi hj hij
  rw [List.length_map] at hi hj
  rw [List.getElem_map, List.getElem_map, h i hi, h j hj]
  omega

theorem AreNumbered.eq_of_number_eq (h : AreNumbered lines) {line line' : Line} (hline : line ∈ lines)
    (hline' : line' ∈ lines) (hnumber : line.number = line'.number) : line = line' := by
  obtain ⟨i, hi, rfl⟩ := List.getElem_of_mem hline
  obtain ⟨j, hj, rfl⟩ := List.getElem_of_mem hline'
  rw [h i hi, h j hj] at hnumber
  obtain rfl : i = j := by omega
  rfl

/-- Every finding is at a line of the program, unless the program has no lines. -/
theorem IsAnchored.exists_line (hnumbered : AreNumbered lines) {f : Finding} (h : IsAnchored lines f) :
    (∃ line ∈ lines, line.number = f.line ∧ f.text = line.raw) ∨ (lines = [] ∧ f.text = []) := by
  obtain ⟨hone, hle, htext⟩ := h
  obtain ⟨i, hi⟩ : ∃ i, f.line = i + 1 := ⟨f.line - 1, by omega⟩
  rw [hi, textOf] at htext
  by_cases hlt : i < lines.length
  · refine .inl ⟨lines[i], List.getElem_mem hlt, by rw [hnumbered i hlt, hi], ?_⟩
    rw [htext, List.getElem?_eq_getElem hlt]
    rfl
  · obtain rfl := List.length_eq_zero_iff.1 (show lines.length = 0 by omega)
    exact .inr ⟨rfl, htext⟩

/-- Every line opens one block at most. -/
theorem map_fst_openings_sublist (read : List Line) :
    ((openings read).map Prod.fst).Sublist (read.map Line.number) := by
  induction read with
  | nil => exact .slnil
  | cons line read ih =>
    rw [openings, List.filterMap_cons]
    split
    · exact ih.cons _
    · next place hplace =>
      obtain ⟨statement, -, hplace⟩ := Option.bind_eq_some_iff.1 hplace
      obtain ⟨kind, -, rfl⟩ := Option.map_eq_some_iff.1 hplace
      exact ih.cons_cons _

/-- No two of the blocks that are said to be never closed have been opened by the same line. -/
theorem Tallied.nodup_unclosed (h : Tallied lines lines reported reported fs) (hnumbered : AreNumbered lines) :
    ((fs.filter isUnclosed).map Finding.line).Nodup := by
  have hopened : (reported.map Prod.fst).Nodup := by
    have hsublist := (h.opened.map Prod.fst).trans (map_fst_openings_sublist lines)
    rw [List.map_reverse] at hsublist
    exact (List.reverse_perm _).nodup_iff.1 (hnumbered.nodup.sublist hsublist)
  refine ((h.unclosed.map Finding.line).nodup_iff).2 ?_
  rwa [List.map_map]

/-- Whether a line has the shape of a statement is found once, at the line. -/
theorem Tallied.countP_isAboutShape (h : Tallied lines lines places reported fs) (hnumbered : AreNumbered lines)
    (hline : line ∈ lines) :
    (fs.countP fun f => f.line == line.number && isAboutShape f) =
      if (statement? line).any Statement.isShapeless then 1 else 0 := by
  have hnodup : ((shapeless lines).map Line.number).Nodup :=
    hnumbered.nodup.sublist (List.filter_sublist.map _)
  have hmem : line.number ∈ (shapeless lines).map Line.number ↔
      (statement? line).any Statement.isShapeless = true := by
    rw [List.mem_map]
    constructor
    · -- no other line has the same number
      rintro ⟨other, hother, hnumber⟩
      obtain ⟨hother, hshape⟩ := List.mem_filter.1 hother
      rwa [← hnumbered.eq_of_number_eq hother hline hnumber]
    · exact fun hshape => ⟨line, List.mem_filter.2 ⟨hline, hshape⟩, rfl⟩
  rw [h.shape, hnodup.count]
  simp only [hmem]

/-! ## Messages -/

theorem count_eq_countP_isWorded (topic : Topic) (fs : List Finding) :
    count topic fs = fs.countP (isWorded topic.opening) :=
  List.countP_congr fun f _ => by rw [isWorded_opening]

theorem isUnclosed_eq : isUnclosed = isWorded (text "Unclosed ") :=
  funext fun f => (isWorded_opening .unclosed f).symm

theorem isAboutShape_eq (f : Finding) :
    isAboutShape f = (isWorded (text "Malformed ") f || isWorded (text "Unrecognized statement") f) := by
  rw [isAboutShape, ← isWorded_opening, ← isWorded_opening]
  rfl

end Validation

open Validation

/-- The statements that open blocks are as many as the blocks that are said to be never closed and the ends
    that are not said to be wrong. What is said to be never closed is a block at the line of its opening
    statement, and none is said to be so twice. -/
theorem validate_counts_blocks (source : Text) :
    ((openings (Source.lines source)).length : Int) =
      (validate source).countP (isWorded (text "Unclosed ")) + (endings (Source.lines source)).length
        - (validate source).countP (isWorded (text "Expected end"))
        - (validate source).countP (isWorded (text "Unexpected end")) ∧
    (((validate source).filter (isWorded (text "Unclosed "))).map Finding.line).Nodup ∧
    (∀ f ∈ validate source, isWorded (text "Unclosed ") f = true →
      ∃ kind, (f.line, kind) ∈ openings (Source.lines source) ∧
        f.cause.message = text "Unclosed " ++ kind.word ++ text " block") ∧
    ((openings (Source.lines source)).length = (endings (Source.lines source)).length + 1 →
      (validate source).countP (isWorded (text "Expected end")) = 0 →
      (validate source).countP (isWorded (text "Unexpected end")) = 0 →
      (validate source).countP (isWorded (text "Unclosed ")) = 1) := by
  have hnumbered := areNumbered_lines source
  obtain ⟨places, h⟩ : ∃ places, Tallied (Source.lines source) (Source.lines source) places places
      (validate source) := tallied_findings hnumbered
  -- the message of a finding begins with the words of its cause
  have hmismatched : count .mismatchedEnd (validate source) =
      (validate source).countP (isWorded (text "Expected end")) := count_eq_countP_isWorded _ _
  have hunexpected : count .unexpectedEnd (validate source) =
      (validate source).countP (isWorded (text "Unexpected end")) := count_eq_countP_isWorded _ _
  have hunclosed : (validate source).countP (isWorded (text "Unclosed ")) = places.length := by
    rw [← isUnclosed_eq, List.countP_eq_length_filter, h.unclosed.length_eq, List.length_map]
  have hbalance := h.balance
  rw [hmismatched, hunexpected] at hbalance
  refine ⟨by omega, ?_, fun f hf hworded => ?_, by omega⟩
  · rw [← isUnclosed_eq]
    exact h.nodup_unclosed hnumbered
  · rw [← isUnclosed_eq] at hworded
    obtain ⟨place, hplace, rfl⟩ := List.mem_map.1 (h.unclosed.subset (List.mem_filter.2 ⟨hf, hworded⟩))
    exact ⟨place.2, h.opened.subset (List.mem_reverse.2 hplace), rfl⟩

/-- The findings stand in the order of their lines, at lines of the program and with their texts; an empty
    program has them at its first line. A line that says something is found to have the shape of no statement
    if it is read as no statement, once, and else it is not. -/
theorem validate_anchors (source : Text) :
    (validate source).Pairwise (fun f g => f.line ≤ g.line) ∧
    (∀ f ∈ validate source, 1 ≤ f.line ∧ f.line ≤ max 1 (Source.lines source).length ∧
      ((∃ line ∈ Source.lines source, line.number = f.line ∧ f.text = line.raw) ∨
        (Source.lines source = [] ∧ f.text = []))) ∧
    ∀ line ∈ Source.lines source, line.isTrivial = false →
      ((validate source).countP fun f => f.line == line.number &&
        (isWorded (text "Malformed ") f || isWorded (text "Unrecognized statement") f)) =
      if (Statement.classify line.trimmed).isShapeless then 1 else 0 := by
  have hnumbered := areNumbered_lines source
  obtain ⟨places, h⟩ : ∃ places, Tallied (Source.lines source) (Source.lines source) places places
      (validate source) := tallied_findings hnumbered
  refine ⟨?_, fun f hf => ?_, fun line hline hsaid => ?_⟩
  -- the findings come out of a sort by line
  · have hsorted := List.pairwise_mergeSort Finding.precedes_trans Finding.precedes_total
      (((Source.lines source).foldl (State.visit (Source.lines source)) State.initial).finish
        (Source.lines source)).findings.reverse
    exact hsorted.imp of_decide_eq_true
  · have hanchored := h.anchored f hf
    exact ⟨hanchored.one_le, hanchored.le, hanchored.exists_line hnumbered⟩
  · have hcount := h.countP_isAboutShape hnumbered hline
    simp only [isAboutShape_eq] at hcount
    rw [hcount, statement?, hsaid]
    rfl

end Pseudocode
