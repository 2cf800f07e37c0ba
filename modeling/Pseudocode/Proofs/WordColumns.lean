import Mathlib.Data.List.TakeWhile
import Mathlib.Data.Nat.Count
import Pseudocode.Proofs.Text
import Pseudocode.Report.Column

/-!
# Columns that follow a word

A column of a script line is carried over to the source line by the word that it is on. The word has a
number among its occurrences in the script line, and the column is where the occurrence of that number
begins in the source line, or the only one there if there are not as many.

* `StandsAt`, `IsAround`        whole words of a text, and the word that a character belongs to
* `occurrences_eq_filter`       the scan finds the places where a word stands
* `wordAround?_eq_some_iff`     the search in both directions finds the whole word
* `IsCounterpart`               the occurrence in the source that one in the script belongs to
* `map?_follows_word`           where a column is carried to, and when it is not
-/

namespace Pseudocode.Column

/-! ## Whole words -/

/-- The word stands at an offset of a text, and neither directly before it nor directly behind it the
    text goes on with a word. -/
def StandsAt (word t : Text) (offset : Nat) : Prop :=
  word <+: t.drop offset ∧ (∀ c ∈ (t.take offset).getLast?, isWordChar c = false) ∧
    ∀ c ∈ (t.drop (offset + word.length)).head?, isWordChar c = false

instance (word t : Text) : DecidablePred (StandsAt word t) := fun offset =>
  decidable_of_iff (word <+: t.drop offset ∧ (t.take offset).getLast?.all (fun c => !isWordChar c) = true ∧
    (t.drop (offset + word.length)).head?.all (fun c => !isWordChar c) = true) (by simp [StandsAt, Option.all_eq_true])

/-- The word is the whole word that the character at an offset belongs to. -/
structure IsAround (t : Text) (offset : Nat) (word : Text) (start : Nat) : Prop where
  isWord : ∀ c ∈ word, isWordChar c = true
  standsAt : StandsAt word t start
  start_le : start ≤ offset
  lt_end : offset < start + word.length

variable {word t u v before behind : Text} {offset start : Nat} {c : Char}

theorem standsAt_append (before word behind : Text) :
    StandsAt word (before ++ (word ++ behind)) before.length ↔
      (∀ c ∈ before.getLast?, isWordChar c = false) ∧ ∀ c ∈ behind.head?, isWordChar c = false := by
  have hbehind : (before ++ (word ++ behind)).drop (before.length + word.length) = behind := by
    rw [← List.append_assoc, ← List.length_append, List.drop_left]
  simp [StandsAt, hbehind]

/-- A word that stands somewhere cuts the text in front of it and behind it. -/
theorem StandsAt.exists_append (h : StandsAt word t offset) (hle : offset ≤ t.length) :
    ∃ before behind, t = before ++ (word ++ behind) ∧ before.length = offset := by
  obtain ⟨⟨behind, hbehind⟩, -⟩ := h
  exact ⟨t.take offset, behind, by rw [hbehind, List.take_append_drop], List.length_take_of_le hle⟩

theorem StandsAt.add_length_le (h : StandsAt word t offset) (hle : offset ≤ t.length) :
    offset + word.length ≤ t.length := by
  obtain ⟨before, behind, rfl, rfl⟩ := h.exists_append hle
  simp

/-- A word of at least one character stands inside of the text. -/
theorem StandsAt.lt_length (h : StandsAt word t offset) (hword : word ≠ []) : offset < t.length := by
  by_contra hle
  have hnil : t.drop offset = [] := List.drop_eq_nil_of_le (Nat.le_of_not_lt hle)
  exact hword (List.prefix_nil.1 (hnil ▸ h.1))

theorem IsAround.ne_nil (h : IsAround t offset word start) : word ≠ [] := by
  rintro rfl
  exact absurd h.lt_end (Nat.not_lt.2 h.start_le)

/-! ## The search for occurrences -/

theorem startsWithWord_iff : startsWithWord word t = true ↔
    word <+: t ∧ ∀ c ∈ (t.drop word.length).head?, isWordChar c = false := by
  unfold startsWithWord
  split
  · next d r hr =>
    rw [Text.dropStart?_eq_some hr]
    simp
  · next hr =>
    rw [Text.dropStart?_eq_some hr]
    simp
  · next hnone =>
    refine iff_of_false (by simp) fun ⟨⟨r, hr⟩, _⟩ => ?_
    rw [← hr, Text.dropStart?_append] at hnone
    cases hnone

/-- Behind `u`, the scan finds the places where the word stands in the whole text. -/
theorem occurrencesFrom_eq (word u v : Text) :
    occurrencesFrom word u.length (u.getLast?.any isWordChar) v =
      (List.range' u.length v.length).filter fun o => StandsAt word (u ++ v) o := by
  induction v generalizing u with
  | nil => rfl
  | cons c v ih =>
    have hrest := ih (u ++ [c])
    rw [List.length_append, List.length_singleton, List.append_assoc, List.singleton_append,
      List.getLast?_concat, Option.any_some] at hrest
    have hhere : StandsAt word (u ++ c :: v) u.length ↔
        (!u.getLast?.any isWordChar && startsWithWord word (c :: v)) = true := by
      rw [Bool.and_eq_true, startsWithWord_iff, Bool.not_eq_true', Option.any_eq_false]
      simp [StandsAt, and_left_comm]
    rw [occurrencesFrom, hrest, List.length_cons, List.range'_succ, List.filter_cons]
    simp only [hhere, decide_eq_true_eq]

/-- The scan finds the places where the word stands, in order. -/
theorem occurrences_eq_filter (word t : Text) :
    occurrences word t = (List.range t.length).filter fun o => StandsAt word t o := by
  rw [List.range_eq_range']
  exact occurrencesFrom_eq word [] t

/-- The numbers of a range that have a property are numbered by how many of them come before. -/
theorem getElem?_filter_range {p : Nat → Prop} [DecidablePred p] {n k x : Nat} :
    ((List.range n).filter p)[k]? = some x ↔ x < n ∧ p x ∧ Nat.count p x = k := by
  -- a number with the property comes behind all smaller ones that have it
  have hnumber (hlt : x < n) (hx : p x) : ((List.range n).filter p)[Nat.count p x]? = some x := by
    obtain ⟨m, rfl⟩ := Nat.exists_eq_add_of_lt hlt
    rw [Nat.add_assoc, List.range_add, List.range_succ_eq_map, List.map_cons, List.filter_append,
      Nat.count, List.countP_eq_length_filter, List.getElem?_append_right (Nat.le_refl _), Nat.sub_self,
      Nat.add_zero, List.filter_cons_of_pos (by simpa using hx)]
    rfl
  constructor
  · intro h
    obtain ⟨hlt, hx⟩ := List.mem_filter.1 (List.mem_of_getElem? h)
    rw [List.mem_range] at hlt
    rw [decide_eq_true_eq] at hx
    have hnodup : ((List.range n).filter p).Nodup := List.nodup_range.filter _
    have hsame := h.trans (hnumber hlt hx).symm
    exact ⟨hlt, hx, ((List.getElem?_inj (List.getElem?_eq_some_iff.1 h).1 hnodup).1 hsame).symm⟩
  · rintro ⟨hlt, hx, rfl⟩
    exact hnumber hlt hx

theorem idxOf?_filter_range {p : Nat → Prop} [DecidablePred p] {n x : Nat} (hlt : x < n) (hx : p x) :
    ((List.range n).filter p).idxOf? x = some (Nat.count p x) := by
  have hfound := getElem?_filter_range.2 ⟨hlt, hx, rfl⟩
  obtain ⟨hlength, hget⟩ := List.getElem?_eq_some_iff.1 hfound
  refine List.idxOf?_eq_some_iff.2 ⟨hlength, hget, fun j hj hsame => ?_⟩
  have hj' := List.getElem?_eq_some_iff.2 ⟨Nat.lt_trans hj hlength, hsame⟩
  exact absurd (getElem?_filter_range.1 hj').2.2 (Nat.ne_of_gt hj)

/-! ## The word around a character -/

/-- A text that is cut at a character of a word, and in front of the word and behind it. -/
structure WordCut where
  before : Text
  front : Text
  char : Char
  back : Text
  behind : Text
  isWord : ∀ c ∈ front ++ char :: back, isWordChar c = true
  before_ends : ∀ c ∈ before.getLast?, isWordChar c = false
  behind_ends : ∀ c ∈ behind.head?, isWordChar c = false

namespace WordCut

/-- The text that is cut. -/
def whole (w : WordCut) : Text := w.before ++ (w.front ++ w.char :: w.back ++ w.behind)

/-- The offset of the character that the text is cut at. -/
def place (w : WordCut) : Nat := w.before.length + w.front.length

variable (w : WordCut)

theorem whole_eq : w.whole = (w.before ++ w.front) ++ w.char :: (w.back ++ w.behind) := by
  simp [whole]

theorem place_eq : w.place = (w.before ++ w.front).length := by
  rw [place, List.length_append]

theorem isAround : IsAround w.whole w.place (w.front ++ w.char :: w.back) w.before.length where
  isWord := w.isWord
  standsAt := (standsAt_append ..).2 ⟨w.before_ends, w.behind_ends⟩
  start_le := Nat.le_add_right _ _
  lt_end := by simp [place]

theorem wordAround?_eq : wordAround? w.whole w.place = some (w.front ++ w.char :: w.back, w.before.length) := by
  have hchar : isWordChar w.char = true := w.isWord _ (by simp)
  have hfront : ((w.before ++ w.front).reverse.takeWhile isWordChar) = w.front.reverse := by
    rw [List.reverse_append]
    refine Text.takeWhile_append_of_ends (fun c hc => w.isWord c (by simp_all)) fun d hd => ?_
    exact w.before_ends d (List.getLast?_eq_head?_reverse ▸ hd)
  have hback : (w.char :: (w.back ++ w.behind)).takeWhile isWordChar = w.char :: w.back := by
    rw [← List.cons_append]
    exact Text.takeWhile_append_of_ends (fun c hc => w.isWord c (List.mem_append_right _ hc)) w.behind_ends
  rw [wordAround?, w.whole_eq, w.place_eq, List.getElem?_append_right (Nat.le_refl _), Nat.sub_self,
    List.getElem?_cons_zero]
  simp only [hchar, if_true, List.take_left, List.drop_left, hfront, hback]
  simp

/-- Every character of a word is where the text can be cut. -/
theorem exists_of_isWordChar (h : t[offset]? = some c) (hc : isWordChar c = true) :
    ∃ w : WordCut, w.whole = t ∧ w.place = offset := by
  obtain ⟨hlt, hget⟩ := List.getElem?_eq_some_iff.1 h
  have hsplit : t.take offset ++ c :: t.drop (offset + 1) = t := by
    rw [← hget, ← List.drop_eq_getElem_cons hlt, List.take_append_drop]
  obtain ⟨u, hu⟩ : ∃ u, t.take offset = u := ⟨_, rfl⟩
  obtain ⟨v, hv⟩ : ∃ v, t.drop (offset + 1) = v := ⟨_, rfl⟩
  have hlength : u.length = offset := by rw [← hu, List.length_take_of_le hlt.le]
  rw [hu, hv] at hsplit
  -- the word reaches back to the last other character, and on to the next one
  have hfront : (u.reverse.dropWhile isWordChar).reverse ++ (u.reverse.takeWhile isWordChar).reverse = u := by
    rw [← List.reverse_append, List.takeWhile_append_dropWhile, List.reverse_reverse]
  refine ⟨⟨(u.reverse.dropWhile isWordChar).reverse, (u.reverse.takeWhile isWordChar).reverse, c,
    v.takeWhile isWordChar, v.dropWhile isWordChar, fun d hd => ?_, fun d hd => ?_, fun d hd => ?_⟩, ?_, ?_⟩
  · rcases List.mem_append.1 hd with hd | hd
    · exact List.mem_takeWhile_imp (List.mem_reverse.1 hd)
    · rcases List.mem_cons.1 hd with rfl | hd
      · exact hc
      · exact List.mem_takeWhile_imp hd
  · rw [List.getLast?_reverse] at hd
    have hnot := List.head?_dropWhile_not isWordChar u.reverse
    rw [Option.mem_def.1 hd] at hnot
    simpa using hnot
  · have hnot := List.head?_dropWhile_not isWordChar v
    rw [Option.mem_def.1 hd] at hnot
    simpa using hnot
  · rw [whole_eq, hfront, List.takeWhile_append_dropWhile, hsplit]
  · rw [place_eq, hfront, hlength]

/-- A character inside of a word is where the text can be cut. -/
theorem exists_of_isAround (h : IsAround t offset word start) :
    ∃ w : WordCut, w.whole = t ∧ w.place = offset ∧ w.front ++ w.char :: w.back = word ∧
      w.before.length = start := by
  obtain ⟨before, behind, rfl, rfl⟩ := h.standsAt.exists_append (h.standsAt.lt_length h.ne_nil).le
  obtain ⟨k, rfl⟩ := Nat.exists_eq_add_of_le h.start_le
  have hk : k < word.length := by
    have hlt := h.lt_end
    omega
  have hword : word.take k ++ word[k] :: word.drop (k + 1) = word := by
    rw [← List.drop_eq_getElem_cons hk, List.take_append_drop]
  obtain ⟨hbefore, hbehind⟩ := (standsAt_append ..).1 h.standsAt
  refine ⟨⟨before, word.take k, word[k], word.drop (k + 1), behind, by rw [hword]; exact h.isWord, hbefore,
    hbehind⟩, ?_, ?_, hword, rfl⟩
  · rw [whole]
    simp only [hword]
  · simp [place, hk.le]

end WordCut

/-- The search in both directions finds the word around a character. -/
theorem wordAround?_eq_some_iff :
    wordAround? t offset = some (word, start) ↔ IsAround t offset word start := by
  constructor
  · intro h
    obtain ⟨c, hget, hc⟩ : ∃ c, t[offset]? = some c ∧ isWordChar c = true := by
      unfold wordAround? at h
      split at h
      · next c hget =>
        split at h
        · next hc => exact ⟨c, hget, hc⟩
        · cases h
      · cases h
    -- the line is cut around the word, and on a cut line the search is known
    obtain ⟨w, rfl, rfl⟩ := WordCut.exists_of_isWordChar hget hc
    rw [w.wordAround?_eq, Option.some.injEq, Prod.mk.injEq] at h
    obtain ⟨rfl, rfl⟩ := h
    exact w.isAround
  · intro h
    obtain ⟨w, rfl, rfl, rfl, rfl⟩ := WordCut.exists_of_isAround h
    exact w.wordAround?_eq

/-- There is a word around every word character, and around no other. -/
theorem exists_isAround_iff :
    (∃ word start, IsAround t offset word start) ↔ ∃ c ∈ t[offset]?, isWordChar c = true := by
  constructor
  · rintro ⟨word, start, h⟩
    obtain ⟨w, rfl, rfl, rfl, rfl⟩ := WordCut.exists_of_isAround h
    refine ⟨w.char, ?_, w.isWord _ (by simp)⟩
    rw [w.whole_eq, w.place_eq, List.getElem?_append_right (Nat.le_refl _), Nat.sub_self]
    rfl
  · rintro ⟨c, hget, hc⟩
    obtain ⟨w, rfl, rfl⟩ := WordCut.exists_of_isWordChar hget hc
    exact ⟨_, _, w.isAround⟩

/-! ## Columns -/

/-- The place in `source` that an occurrence of the word in `generated` belongs to: the occurrence with the
    same number, or the only one if there are not as many. -/
def IsCounterpart (word generated source : Text) (start found : Nat) : Prop :=
  StandsAt word source found ∧
    (Nat.count (StandsAt word source) found = Nat.count (StandsAt word generated) start ∨
      (∀ other, StandsAt word source other → other = found) ∧
        Nat.count (StandsAt word source) source.length ≤ Nat.count (StandsAt word generated) start)

variable {generated source : Text} {column found : Nat}

theorem mem_occurrences_iff (hword : word ≠ []) : found ∈ occurrences word t ↔ StandsAt word t found := by
  rw [occurrences_eq_filter, List.mem_filter, List.mem_range, decide_eq_true_eq, and_iff_right_iff_imp]
  exact fun h => h.lt_length hword

theorem length_occurrences (word t : Text) :
    (occurrences word t).length = Nat.count (StandsAt word t) t.length := by
  rw [occurrences_eq_filter, Nat.count, List.countP_eq_length_filter]

theorem getElem?_occurrences {k : Nat} (hword : word ≠ []) : (occurrences word t)[k]? = some found ↔
    StandsAt word t found ∧ Nat.count (StandsAt word t) found = k := by
  rw [occurrences_eq_filter, getElem?_filter_range, and_iff_right_iff_imp]
  exact fun h => h.1.lt_length hword

theorem nodup_occurrences (word t : Text) : (occurrences word t).Nodup := by
  rw [occurrences_eq_filter]
  exact List.nodup_range.filter _

theorem exists_occurrences_eq_singleton (hword : word ≠ []) (h : StandsAt word t found)
    (honly : ∀ other, StandsAt word t other → other = found) : ∃ only, occurrences word t = [only] := by
  have hmem := (mem_occurrences_iff hword).2 h
  have hall : ∀ o ∈ occurrences word t, o = found := fun o ho => honly o ((mem_occurrences_iff hword).1 ho)
  have hnodup := nodup_occurrences word t
  match hoffsets : occurrences word t with
  | [] => simp [hoffsets] at hmem
  | [only] => exact ⟨only, rfl⟩
  | first :: second :: _ =>
    rw [hoffsets] at hall hnodup
    simp [hall first (by simp), hall second (by simp)] at hnodup

/-- The column of a word is carried to where its counterpart begins. -/
theorem map?_of_isAround (h : generated ≠ source) (haround : IsAround generated offset word start) {c : Nat} :
    map? generated source (offset + 1) = some c ↔
      ∃ found, c = found + 1 ∧ IsCounterpart word generated source start found := by
  have hword := haround.ne_nil
  have hnumber : (occurrences word generated).idxOf? start = some (Nat.count (StandsAt word generated) start) := by
    rw [occurrences_eq_filter]
    exact idxOf?_filter_range (haround.standsAt.lt_length hword) haround.standsAt
  simp only [map?, if_neg h, wordAround?_eq_some_iff.2 haround, Option.bind_eq_bind, Option.bind_some, hnumber]
  generalize hk : Nat.count (StandsAt word generated) start = k
  split
  · next first hfound =>
    -- there is an occurrence with the same number
    obtain ⟨hstands, hcount⟩ := (getElem?_occurrences hword).1 hfound
    constructor
    · rintro ⟨⟩
      exact ⟨first, rfl, hstands, .inl (by rw [hcount, hk])⟩
    · rintro ⟨other, rfl, hother, hsame | ⟨honly, -⟩⟩
      · rw [Nat.count_injective hother hstands (by rw [hsame, hcount, hk])]
      · rw [honly first hstands]
  · next only honly hnone =>
    have hmem {other : Nat} : StandsAt word source other ↔ other = only := by
      rw [← mem_occurrences_iff hword, honly, List.mem_singleton]
    have hcount : Nat.count (StandsAt word source) source.length ≤ k := by
      rw [← length_occurrences]
      exact List.getElem?_eq_none_iff.1 hnone
    constructor
    · rintro ⟨⟩
      exact ⟨only, rfl, hmem.2 rfl, .inr ⟨fun other hother => hmem.1 hother, by rw [hk]; exact hcount⟩⟩
    · rintro ⟨other, rfl, hother, -⟩
      rw [hmem.1 hother]
  · next hnone hmany =>
    refine iff_of_false nofun ?_
    rintro ⟨other, -, hother, hsame | ⟨honly, -⟩⟩
    · rw [(getElem?_occurrences hword).2 ⟨hother, hsame.trans hk⟩] at hnone
      cases hnone
    · obtain ⟨o, ho⟩ := exists_occurrences_eq_singleton hword hother honly
      exact hmany o ho

theorem map?_of_not_isAround (h : generated ≠ source) (hnone : ∀ word start, ¬ IsAround generated offset word start) :
    map? generated source (offset + 1) = none := by
  have haround : wordAround? generated offset = none :=
    Option.eq_none_iff_forall_ne_some.2 fun found hfound => hnone _ _ (wordAround?_eq_some_iff.1 hfound)
  simp only [map?, if_neg h, haround, Option.bind_eq_bind, Option.bind_none]

/-- Where a column is carried to. -/
theorem map?_eq_some_iff (h : generated ≠ source) {c : Nat} :
    map? generated source column = some c ↔ ∃ offset word start found, column = offset + 1 ∧ c = found + 1 ∧
      IsAround generated offset word start ∧ IsCounterpart word generated source start found := by
  constructor
  · intro hmap
    cases column with
    | zero => simp [map?, h] at hmap
    | succ offset =>
      by_cases haround : ∃ word start, IsAround generated offset word start
      · obtain ⟨word, start, haround⟩ := haround
        obtain ⟨found, rfl, hfound⟩ := (map?_of_isAround h haround).1 hmap
        exact ⟨offset, word, start, found, rfl, rfl, haround, hfound⟩
      · rw [map?_of_not_isAround h fun word start hword => haround ⟨word, start, hword⟩] at hmap
        cases hmap
  · rintro ⟨offset, word, start, found, rfl, rfl, haround, hfound⟩
    exact (map?_of_isAround h haround).2 ⟨found, rfl, hfound⟩

/-- When a column is carried nowhere. -/
theorem map?_eq_none_iff (h : generated ≠ source) : map? generated source column = none ↔
    (column = 0 ∨ generated.length < column) ∨
    (∃ offset, column = offset + 1 ∧ ∃ d ∈ generated[offset]?, isWordChar d = false) ∨
    ∃ offset word start, column = offset + 1 ∧ IsAround generated offset word start ∧
      ∀ found, ¬ IsCounterpart word generated source start found := by
  have hnone (offset : Nat) (hnot : ¬ ∃ d ∈ generated[offset]?, isWordChar d = true) :
      map? generated source (offset + 1) = none :=
    map?_of_not_isAround h fun word start haround => hnot (exists_isAround_iff.1 ⟨word, start, haround⟩)
  -- off the line, off every word, or on a word without a counterpart
  constructor
  · intro hmap
    cases column with
    | zero => exact .inl (.inl rfl)
    | succ offset =>
      cases hchar : generated[offset]? with
      | none => exact .inl (.inr (Nat.lt_succ_of_le (List.getElem?_eq_none_iff.1 hchar)))
      | some d =>
        cases hd : isWordChar d with
        | false => exact .inr (.inl ⟨offset, rfl, d, hchar, hd⟩)
        | true =>
          obtain ⟨word, start, haround⟩ := exists_isAround_iff.2 ⟨d, hchar, hd⟩
          refine .inr (.inr ⟨offset, word, start, rfl, haround, fun found hfound => ?_⟩)
          rw [(map?_of_isAround h haround).2 ⟨found, rfl, hfound⟩] at hmap
          cases hmap
  · rintro ((rfl | hlt) | ⟨offset, rfl, d, hchar, hd⟩ | ⟨offset, word, start, rfl, haround, hno⟩)
    · simp [map?, h]
    · obtain ⟨offset, rfl⟩ := Nat.exists_eq_add_of_lt (Nat.zero_lt_of_lt hlt)
      rw [Nat.zero_add] at hlt ⊢
      apply hnone
      rw [List.getElem?_eq_none (Nat.le_of_lt_succ hlt)]
      rintro ⟨_, ⟨⟩, _⟩
    · apply hnone
      rintro ⟨_, hother, hword⟩
      rw [Option.mem_unique hchar hother] at hd
      rw [hd] at hword
      cases hword
    · refine Option.eq_none_iff_forall_ne_some.2 fun c hc => ?_
      obtain ⟨found, -, hfound⟩ := (map?_of_isAround h haround).1 hc
      exact hno found hfound

/-- A column that is on a word of the script line is carried to the column at which the same word stands in
    the source line, to the occurrence of the same number or to the only one if there are not as many. It is
    carried nowhere exactly if it is outside of the line, on no word, or if there is no such occurrence. -/
theorem map?_follows_word (generated source : Text) (h : generated ≠ source) (column : Nat) :
    (∀ c, map? generated source column = some c ↔ ∃ offset word start found, column = offset + 1 ∧
      c = found + 1 ∧ IsAround generated offset word start ∧ IsCounterpart word generated source start found) ∧
    (∀ c, map? generated source column = some c → 0 < c ∧ c ≤ source.length) ∧
    (map? generated source column = none ↔
      (column = 0 ∨ generated.length < column) ∨
      (∃ offset, column = offset + 1 ∧ ∃ d ∈ generated[offset]?, isWordChar d = false) ∨
      ∃ offset word start, column = offset + 1 ∧ IsAround generated offset word start ∧
        ∀ found, ¬ IsCounterpart word generated source start found) := by
  refine ⟨fun c => map?_eq_some_iff h, fun c hc => ?_, map?_eq_none_iff h⟩
  obtain ⟨offset, word, start, found, -, rfl, haround, hfound⟩ := (map?_eq_some_iff h).1 hc
  exact ⟨Nat.succ_pos _, hfound.1.lt_length haround.ne_nil⟩

/-- The third `i` of the script line belongs to the only one of the source line. -/
theorem map?_follows_word_loop :
    text "for (let i = 1; i <= n; i += 1) \x7b" ≠ text "for i = 1 to n" ∧
      map? (text "for (let i = 1; i <= n; i += 1) \x7b") (text "for i = 1 to n") 25 = some 5 := by
  have hne : text "for (let i = 1; i <= n; i += 1) \x7b" ≠ text "for i = 1 to n" := by decide
  have hletter : isWordChar 'i' = true := rfl
  have haround : IsAround (text "for (let i = 1; i <= n; i += 1) \x7b") 24 ['i'] 24 :=
    ⟨by simp [hletter], by decide +kernel, Nat.le_refl _, by decide⟩
  have honly : occurrences ['i'] (text "for i = 1 to n") = [4] := by decide +kernel
  have hcounterpart : IsCounterpart ['i'] (text "for (let i = 1; i <= n; i += 1) \x7b")
      (text "for i = 1 to n") 24 4 := by
    refine ⟨by decide +kernel, .inr ⟨fun other hother => ?_, by decide +kernel⟩⟩
    rw [← mem_occurrences_iff (List.cons_ne_nil _ _), honly] at hother
    exact List.mem_singleton.1 hother
  exact ⟨hne, ((map?_follows_word _ _ hne 25).1 5).2 ⟨24, ['i'], 24, 4, rfl, rfl, haround, hcounterpart⟩⟩

end Pseudocode.Column
