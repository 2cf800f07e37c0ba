import Mathlib.Data.List.DropRight
import Pseudocode.Proofs.Positions

/-!
# Offsets and positions

The position behind some text says how many lines it has and how long the last one is. Whoever looks
it up among the line starts finds the same as whoever counts from the beginning, and further on in a
text positions are later. Where a text is kept in UTF-8, its offsets count bytes and so do the line
starts; at the ends of characters the positions are the same ones.

* `Position.behind`             the position behind a text
* `Position.isBefore_scan`      positions get later from character to character
* `ByteIndex`                   line starts as numbers of bytes
* `ByteIndex.position_ofText`   bytes and characters have the same positions
* `Program.settles_parse`       the positions in a program, and the one of its fault, are in the text
* `LineIndex.position_is_scanned`   what all of them say
-/

namespace Pseudocode

/-! ## Bytes -/

namespace Text

/-- The number of bytes of a text in UTF-8. -/
def utf8Size (t : Text) : Nat := (t.map Char.utf8Size).sum

/-- Cuts a text behind its first `n` bytes, if a character ends there. -/
def cutAt? : (n : Nat) → Text → Option (Text × Text)
  | 0, t => some ([], t)
  | _ + 1, [] => none
  | n + 1, c :: r =>
    if c.utf8Size ≤ n + 1 then (cutAt? (n + 1 - c.utf8Size) r).map (Prod.map (c :: ·) id) else none

/-- The text from one number of bytes to another, if characters end at both. -/
def slice? (t : Text) (first last : Nat) : Option Text := do
  let (before, _) ← cutAt? last t
  let (_, between) ← cutAt? first before
  return between

@[simp] theorem utf8Size_nil : utf8Size [] = 0 := rfl

@[simp] theorem utf8Size_cons (c : Char) (t : Text) :
    utf8Size (c :: t) = c.utf8Size + utf8Size t := by
  rw [utf8Size, List.map_cons, List.sum_cons, utf8Size]

@[simp] theorem utf8Size_append (s t : Text) : utf8Size (s ++ t) = utf8Size s + utf8Size t := by
  rw [utf8Size, List.map_append, List.sum_append, utf8Size, utf8Size]

theorem cutAt?_append (s t : Text) : cutAt? (utf8Size s) (s ++ t) = some (s, t) := by
  induction s with
  | nil => rw [utf8Size_nil, List.nil_append, cutAt?]
  | cons c s ih =>
    -- a character has a byte at least, so the cut is not at the beginning
    have hpos := c.utf8Size_pos
    obtain ⟨n, hn⟩ : ∃ n, utf8Size (c :: s) = n + 1 :=
      Nat.exists_eq_add_one.2 (by rw [utf8Size_cons]; omega)
    have hrest : n + 1 - c.utf8Size = utf8Size s := by
      rw [← hn, utf8Size_cons, Nat.add_sub_cancel_left]
    have hle : c.utf8Size ≤ n + 1 := by
      rw [← hn, utf8Size_cons]
      exact Nat.le_add_right _ _
    rw [hn, List.cons_append, cutAt?, if_pos hle, hrest, ih]
    rfl

/-- The number of bytes of the first `n` characters. -/
def byteOffset (t : Text) (n : Nat) : Nat := utf8Size (t.take n)

variable {t : Text} {m n : Nat}

/-- What is taken up to a later place goes on behind an earlier one. -/
theorem exists_take_eq (hlt : m < n) (hn : n ≤ t.length) :
    ∃ c s, t.take n = t.take m ++ c :: s := by
  have hm : m < t.length := Nat.lt_of_lt_of_le hlt hn
  obtain ⟨k, rfl⟩ := Nat.exists_eq_add_of_lt hlt
  refine ⟨t[m], (t.drop (m + 1)).take k, ?_⟩
  rw [Nat.add_assoc, List.take_add, List.drop_eq_getElem_cons hm, List.take_succ_cons]

theorem byteOffset_lt (hlt : m < n) (hn : n ≤ t.length) : byteOffset t m < byteOffset t n := by
  obtain ⟨c, s, htake⟩ := exists_take_eq hlt hn
  rw [byteOffset, byteOffset, htake, utf8Size_append, utf8Size_cons]
  have := c.utf8Size_pos
  omega

theorem byteOffset_le_iff (hm : m ≤ t.length) (hn : n ≤ t.length) :
    byteOffset t m ≤ byteOffset t n ↔ m ≤ n := by
  constructor
  · intro hle
    by_contra hlt
    exact absurd (byteOffset_lt (Nat.lt_of_not_le hlt) hm) (Nat.not_lt_of_le hle)
  · intro hle
    rcases Nat.lt_or_eq_of_le hle with hlt | rfl
    · exact Nat.le_of_lt (byteOffset_lt hlt hn)
    · exact Nat.le_refl _

/-- Between two ends of characters are the characters between them. -/
theorem slice?_byteOffset (hle : m ≤ n) (t : Text) :
    slice? t (byteOffset t m) (byteOffset t n) = some ((t.take n).drop m) := by
  have hbefore : cutAt? (byteOffset t n) t = some (t.take n, t.drop n) := by
    have hcut := cutAt?_append (t.take n) (t.drop n)
    rwa [List.take_append_drop] at hcut
  have hbetween : cutAt? (byteOffset t m) (t.take n) = some (t.take m, (t.take n).drop m) := by
    have hcut := cutAt?_append ((t.take n).take m) ((t.take n).drop m)
    rwa [List.take_append_drop, List.take_take, Nat.min_eq_left hle] at hcut
  rw [slice?, hbefore]
  show (cutAt? (byteOffset t m) (t.take n) >>= fun cut => some cut.2) = _
  rw [hbetween]
  rfl

end Text

namespace Script

/-! ## Counting -/

namespace Position

/-- The position is on an earlier line, or further to the left on the same line. -/
def IsBefore (p q : Position) : Prop := p.line < q.line ∨ p.line = q.line ∧ p.column < q.column

/-- The position behind a text: its line feeds are counted, and the characters behind the last one. -/
def behind (t : Text) : Position :=
  ⟨t.count '\n' + 1, (t.rtakeWhile (· ≠ '\n')).length + 1⟩

variable {p q r : Position} {t : Text} {a b offset : Nat}

theorem IsBefore.trans (hpq : p.IsBefore q) (hqr : q.IsBefore r) : p.IsBefore r := by
  unfold IsBefore at *
  omega

theorem IsBefore.ne (h : p.IsBefore q) : p ≠ q := by
  rintro rfl
  unfold IsBefore at h
  omega

theorem after_append (p : Position) (s t : Text) : p.after (s ++ t) = (p.after s).after t := by
  induction s generalizing p with
  | nil => rfl
  | cons c s ih =>
    rw [List.cons_append, after, after]
    split <;> exact ih _

/-- To count from the beginning is to count the line feeds and what is behind the last one. -/
theorem after_eq_behind (t : Text) : after ⟨1, 1⟩ t = behind t := by
  -- from the end, since the column belongs to the last line
  induction t using List.reverseRecOn with
  | nil => rfl
  | append_singleton t c ih =>
    rw [after_append, ih, behind, behind, List.count_append, List.rtakeWhile_concat]
    by_cases hc : c = '\n'
    · subst hc
      rfl
    · have hcount : [c].count '\n' = 0 := List.count_eq_zero.2 (by simpa using Ne.symm hc)
      rw [hcount, if_pos (decide_eq_true hc), List.length_append]
      simp only [after, if_neg hc, List.length_singleton, Nat.add_zero]

theorem scan_eq_behind (t : Text) (offset : Nat) : scan t offset = behind (t.take offset) :=
  after_eq_behind _

/-- Every character leads to a later position. -/
theorem isBefore_after_cons (p : Position) (c : Char) (t : Text) : p.IsBefore (p.after (c :: t)) := by
  have hstep (p : Position) (c : Char) : p.IsBefore (p.after [c]) := by
    simp only [after]
    split
    · exact .inl (Nat.lt_succ_self _)
    · exact .inr ⟨rfl, Nat.lt_succ_self _⟩
  induction t generalizing p c with
  | nil => exact hstep p c
  | cons d t ih =>
    rw [← List.singleton_append, after_append]
    exact (hstep p c).trans (ih _ d)

theorem isBefore_scan (hlt : a < b) (hb : b ≤ t.length) : (scan t a).IsBefore (scan t b) := by
  obtain ⟨c, s, htake⟩ := Text.exists_take_eq hlt hb
  rw [scan, scan, htake, after_append]
  exact isBefore_after_cons _ c s

/-- A position belongs to one place in a text only. -/
theorem scan_inj (ha : a ≤ t.length) (hb : b ≤ t.length) : scan t a = scan t b ↔ a = b := by
  constructor
  · intro heq
    rcases Nat.lt_trichotomy a b with hlt | hab | hlt
    · exact absurd heq (isBefore_scan hlt hb).ne
    · exact hab
    · exact absurd heq.symm (isBefore_scan hlt ha).ne
  · rintro rfl
    rfl

end Position

/-! ## Looking up -/

namespace LineIndex

/-- A search is decided by which starts are above the offset. -/
theorem countFrom_congr {starts starts' : Array Nat} {offset offset' low high : Nat}
    (h : ∀ i < high, starts[i]?.getD 0 ≤ offset ↔ starts'[i]?.getD 0 ≤ offset') :
    countFrom starts offset low high = countFrom starts' offset' low high := by
  -- both searches look at the same middle and go on in the same half
  fun_induction countFrom starts offset low high with
  | case1 low high hlt middle hmiddle ih =>
    have hmiddle' : starts'[(low + high) / 2]?.getD 0 ≤ offset' := (h _ (by omega)).1 hmiddle
    conv_rhs => rw [countFrom, if_pos hlt]
    rw [ih h, if_pos hmiddle']
  | case2 low high hlt middle hmiddle ih =>
    have hmiddle' : ¬starts'[(low + high) / 2]?.getD 0 ≤ offset' := mt (h _ (by omega)).2 hmiddle
    conv_rhs => rw [countFrom, if_pos hlt]
    rw [ih fun i hi => h i (by omega), if_neg hmiddle']
  | case3 low high hle => rw [countFrom, if_neg hle]

/-- The search stops behind a start that is not above the offset, unless it stops at once. -/
theorem start_countFrom_le {starts : Array Nat} {offset : Nat} (low high : Nat)
    (hlow : starts[low - 1]?.getD 0 ≤ offset) :
    starts[countFrom starts offset low high - 1]?.getD 0 ≤ offset := by
  fun_induction countFrom starts offset low high with
  | case1 low high hlt middle hmiddle ih => exact ih hmiddle
  | case2 low high hlt middle hmiddle ih => exact ih hlow
  | case3 low high hle => exact hlow

/-- The start of the line of an offset is not behind the offset. -/
theorem start_position_le (t : Text) (offset : Nat) :
    (ofText t).starts[((ofText t).position offset).line - 1]?.getD 0 ≤ offset := by
  have hfirst : (ofText t).starts[0]?.getD 0 ≤ offset := Nat.zero_le _
  have hstart := start_countFrom_le 0 (ofText t).starts.size hfirst
  show (ofText t).starts[max (countFrom _ _ _ _) 1 - 1]?.getD 0 ≤ offset
  rcases Nat.eq_zero_or_pos (countFrom (ofText t).starts offset 0 (ofText t).starts.size) with hzero | hpos
  · rw [hzero]
    exact hfirst
  · rwa [Nat.max_eq_left hpos]

theorem start_le_length (t : Text) (i : Nat) : (ofText t).starts[i]?.getD 0 ≤ t.length := by
  rw [ofText, List.getElem?_toArray]
  cases hstart : (0 :: startsFrom 0 t)[i]? with
  | none => exact Nat.zero_le _
  | some start =>
    rcases List.mem_cons.1 (List.mem_of_getElem? hstart) with rfl | hstart
    · exact Nat.zero_le _
    · exact Nat.le_trans (mem_startsFrom hstart).2 (Nat.le_of_eq (Nat.zero_add _))

end LineIndex

/-! ## Bytes and characters -/

/-- The lines of a text in UTF-8: their starts are numbers of bytes. -/
structure ByteIndex where
  content : Text
  starts : Array Nat

namespace ByteIndex

/-- The numbers of bytes up to the ends of line feeds, in a text that starts at `offset`. -/
def startsFrom (offset : Nat) : Text → List Nat
  | [] => []
  | c :: r =>
    if c = '\n' then (offset + 1) :: startsFrom (offset + 1) r
    else startsFrom (offset + c.utf8Size) r

/-- The line starts of a text. -/
def ofText (t : Text) : ByteIndex := ⟨t, (0 :: startsFrom 0 t).toArray⟩

/-- The position of a number of bytes. Characters are counted from the start of the line, unless the
    bytes end inside a character. -/
def position (index : ByteIndex) (offset : Nat) : Position :=
  let line := max (LineIndex.countFrom index.starts offset 0 index.starts.size) 1
  let start := index.starts[line - 1]?.getD 0
  ⟨line, (index.content.slice? start offset).elim 1 fun between => between.length + 1⟩

/-- Lines start at the same characters, however the starts are counted. -/
theorem startsFrom_eq_map (s r : Text) :
    startsFrom (Text.utf8Size s) r =
      (LineIndex.startsFrom s.length r).map (Text.byteOffset (s ++ r)) := by
  -- what has been passed already grows by one character
  induction r generalizing s with
  | nil => rfl
  | cons c r ih =>
    have hrest := ih (s ++ [c])
    rw [Text.utf8Size_append, Text.utf8Size_cons, Text.utf8Size_nil, Nat.add_zero,
      List.length_append, List.length_singleton, List.append_assoc, List.singleton_append] at hrest
    rw [startsFrom, LineIndex.startsFrom]
    by_cases hc : c = '\n'
    · have hsize : c.utf8Size = 1 := by
        rw [hc]
        rfl
      have hstart : Text.byteOffset (s ++ c :: r) (s.length + 1) = Text.utf8Size s + 1 := by
        rw [Text.byteOffset, List.take_length_add_append, List.take_succ_cons, List.take_zero,
          Text.utf8Size_append, Text.utf8Size_cons, hsize, Text.utf8Size_nil]
      rw [hsize] at hrest
      rw [if_pos hc, if_pos hc, List.map_cons, hstart, hrest]
    · rw [if_neg hc, if_neg hc]
      exact hrest

theorem starts_ofText (t : Text) :
    (ofText t).starts = (LineIndex.ofText t).starts.map (Text.byteOffset t) := by
  have hstarts : startsFrom 0 t = (LineIndex.startsFrom 0 t).map (Text.byteOffset t) :=
    startsFrom_eq_map [] t
  rw [ofText, LineIndex.ofText, hstarts, List.map_toArray, List.map_cons]
  rfl

theorem start_ofText (t : Text) (i : Nat) :
    (ofText t).starts[i]?.getD 0 = Text.byteOffset t ((LineIndex.ofText t).starts[i]?.getD 0) := by
  rw [starts_ofText, Array.getElem?_map]
  cases (LineIndex.ofText t).starts[i]? <;> rfl

/-- At the end of a character, a number of bytes has the position that the number of characters has. -/
theorem position_ofText {t : Text} {offset : Nat} (h : offset ≤ t.length) :
    (ofText t).position (Text.byteOffset t offset) = (LineIndex.ofText t).position offset := by
  have hsize : (ofText t).starts.size = (LineIndex.ofText t).starts.size := by
    rw [starts_ofText, Array.size_map]
  have hcount : LineIndex.countFrom (ofText t).starts (Text.byteOffset t offset) 0
        (ofText t).starts.size =
      LineIndex.countFrom (LineIndex.ofText t).starts offset 0 (LineIndex.ofText t).starts.size := by
    rw [hsize]
    refine LineIndex.countFrom_congr fun i _ => ?_
    rw [start_ofText, Text.byteOffset_le_iff (LineIndex.start_le_length t i) h]
  have hstart := LineIndex.start_position_le t offset
  simp only [LineIndex.position] at hstart
  simp only [position, LineIndex.position, hcount, start_ofText]
  -- the characters between the start of the line and the offset
  have hslice := Text.slice?_byteOffset hstart t
  rw [show (ofText t).content = t from rfl, hslice, Option.elim_some, List.length_drop,
    List.length_take, Nat.min_eq_left h]

end ByteIndex

/-! ## Programs -/

/-- The position of some place in a text, as it is found by counting from the beginning. -/
def Position.IsOf (t : Text) (p : Position) : Prop := ∃ offset ≤ t.length, p = scan t offset

/-- All that is written in a program has a position in its text, and so has a fault, whether the text
    is not understood or a check fails. -/
theorem Program.settles_parse (t : Text) :
    Settles (fun fault => fault.position.IsOf t)
      (fun program => ∀ c ∈ program, c.Everywhere (Expression.IsSoundAt (Position.IsOf t))
        (Position.IsOf t) (Position.IsOf t) IsIdentifier) (Program.parse t) := by
  have hplace (offset : Nat) (hoffset : StandsFrom 0 t offset) :
      ((LineIndex.ofText t).position offset).IsOf t := by
    have hle := Nat.le_of_lt hoffset.lt_length
    exact ⟨offset, hle, LineIndex.position_ofText hle⟩
  unfold Program.parse
  split
  · -- a text that ends too early is not understood at its end
    rename_i reach _
    refine ⟨min reach t.length, Nat.min_le_right _ _, ?_⟩
    rw [Position.scan, Position.scan, List.take_eq_take_min]
  · rename_i sentences hread
    have hwritten := read_isWritten (surveys_standsFrom 0 t) Grammar.names_isIdentifier
      (Cursor.isFrom_ofText t) hread
    have hsettles := (isCarried_isSoundAt hplace).checkAll hwritten
      ⟨LineIndex.ofText t, false, false⟩ rfl []
    cases hcheck : Statement.checkAll ⟨LineIndex.ofText t, false, false⟩ [] sentences with
    | ok found =>
      rw [hcheck] at hsettles
      exact hsettles
    | error fault =>
      rw [hcheck] at hsettles
      exact hsettles

/-- At every end of a character, the line index finds the line feeds before it, counted from one, and
    the characters behind the last of them, whether offsets count characters or bytes; and so does a
    count from the beginning of the text. Positions get later with the offset, so each of them is
    found at one place only. Whatever has a position in a program, or is wrong with it, has one that a
    count from the beginning finds. -/
theorem LineIndex.position_is_scanned (t : Text) :
    (∀ offset ≤ t.length,
      (ofText t).position offset = Position.behind (t.take offset) ∧
        (ByteIndex.ofText t).position (Text.byteOffset t offset) = Position.behind (t.take offset) ∧
        Position.scan t offset = Position.behind (t.take offset)) ∧
      (∀ a b, a < b → b ≤ t.length → Text.byteOffset t a < Text.byteOffset t b ∧
        ((ofText t).position a).IsBefore ((ofText t).position b)) ∧
      (∀ a ≤ t.length, ∀ b ≤ t.length, (ofText t).position a = Position.scan t b ↔ a = b) ∧
      Settles (fun fault => fault.position.IsOf t)
        (fun program => ∀ c ∈ program, c.Everywhere (Expression.IsSoundAt (Position.IsOf t))
          (Position.IsOf t) (Position.IsOf t) IsIdentifier) (Program.parse t) := by
  refine ⟨fun offset hoffset => ?_, fun a b hlt hb => ?_, fun a ha b hb => ?_, Program.settles_parse t⟩
  · have hscan := Position.scan_eq_behind t offset
    refine ⟨(position_ofText hoffset).trans hscan, ?_, hscan⟩
    rw [ByteIndex.position_ofText hoffset, position_ofText hoffset, hscan]
  · refine ⟨Text.byteOffset_lt hlt hb, ?_⟩
    rw [position_ofText (Nat.le_trans (Nat.le_of_lt hlt) hb), position_ofText hb]
    exact Position.isBefore_scan hlt hb
  · rw [position_ofText ha]
    exact Position.scan_inj ha hb

/-- The name behind an accented letter and two line feeds is on the third line, at the end of nine
    bytes but eight characters. -/
theorem LineIndex.position_is_scanned_accented :
    let t := text "\"é\"; \n\n x;"
    (ofText t).position 8 = ⟨3, 2⟩ ∧ Text.byteOffset t 8 = 9 ∧
      (ByteIndex.ofText t).position 9 = ⟨3, 2⟩ ∧ ((ofText t).position 7).IsBefore ⟨3, 2⟩ ∧
      (ofText t).position 8 ≠ Position.scan t 7 := by
  intro t
  have hlength : t.length = 10 := rfl
  obtain ⟨hplaces, hlater, honce, -⟩ := position_is_scanned t
  obtain ⟨hposition, hbytes, -⟩ := hplaces 8 (by omega)
  refine ⟨hposition, rfl, hbytes, ?_, ?_⟩
  · have hbefore := (hlater 7 8 (by decide) (by omega)).2
    rwa [hposition] at hbefore
  · exact mt (honce 8 (by omega) 7 (by omega)).1 (by decide)

end Script

end Pseudocode
