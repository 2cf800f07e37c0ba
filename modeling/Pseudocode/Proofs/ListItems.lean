import Pseudocode.Proofs.Brackets

/-!
# Items of a list

A list is split at its commas, except those in string literals and those in brackets. For a balanced text these
commas are known beforehand: the brackets in front of such a comma are closed as often as they are opened. The
items are what stands between them, without the white space around it.

* `IsTopLevel`, `AreCommas`        the commas that separate items, by what stands in front of them
* `segmentsBetween`                the text between commas, cut at their offsets
* `HasBrackets.exists_segments`    the split cuts the text at these commas and at no others
* `AreCommas.isItem`               what stands between two of them is balanced and holds none
* `splitList_of_isBalanced`        the items of a balanced text
-/

namespace Pseudocode.Expression

/-! ## Commas -/

/-- What stands behind `s` in a text stands outside of the literals, and at depth zero: the brackets of `s` are
    closed as often as they are opened. -/
def IsTopLevel (s : Text) : Prop :=
  ∃ bs, HasBrackets s bs ∧ bs.countP isOpening = bs.countP fun c => (openingOf? c).isSome

/-- At offset `i` the text has a comma outside of its literals and brackets. -/
def IsTopLevelComma (t : Text) (i : Nat) : Prop := t[i]? = some ',' ∧ IsTopLevel (t.take i)

/-- The offsets, from the left, of the commas from `start` on that stand outside of literals and brackets. -/
structure AreCommas (t : Text) (start : Nat) (commas : List Nat) : Prop where
  ordered : commas.Pairwise (· < ·)
  mem_iff : ∀ i, i ∈ commas ↔ start ≤ i ∧ IsTopLevelComma t i

/-- The segments of a text from `start` on between the characters at the given offsets. -/
def segmentsBetween (t : Text) (start : Nat) : (offsets : List Nat) → List Text
  | [] => [t.drop start]
  | i :: r => (t.take i).drop start :: segmentsBetween t (i + 1) r

/-- The text is balanced and holds no comma at which it would be split. -/
structure IsUndivided (t : Text) : Prop where
  balanced : imbalance? t = none
  undivided : ∀ i, ¬ IsTopLevelComma t i

variable {s t r bs bs' b stack : Text} {start i : Nat} {commas : List Nat} {c quote : Char}

theorem length_segmentsBetween (t : Text) (start : Nat) (offsets : List Nat) :
    (segmentsBetween t start offsets).length = offsets.length + 1 := by
  induction offsets generalizing start with
  | nil => rfl
  | cons i r ih => rw [segmentsBetween, List.length_cons, ih, List.length_cons]

/-- With commas between them the segments make up the text. -/
theorem join_segmentsBetween (hordered : commas.Pairwise (· < ·))
    (hcommas : ∀ i ∈ commas, start ≤ i ∧ t[i]? = some ',') :
    Text.join [','] (segmentsBetween t start commas) = t.drop start := by
  induction commas generalizing start with
  | nil => simp [segmentsBetween, Text.join]
  | cons i r ih =>
    obtain ⟨⟨hle, hcomma⟩, hr⟩ := List.forall_mem_cons.1 hcommas
    obtain ⟨hlt, hordered⟩ := List.pairwise_cons.1 hordered
    have hrest := ih hordered fun j hj => ⟨hlt j hj, (hr j hj).2⟩
    obtain ⟨hi, hget⟩ := List.getElem?_eq_some_iff.1 hcomma
    -- the text from `start` on is a segment, the comma and the rest
    have hsplit : t.drop start = (t.take i).drop start ++ ',' :: t.drop (i + 1) := by
      rw [← hget, ← List.drop_eq_getElem_cons hi, List.drop_take]
      conv_lhs => rw [← List.take_append_drop (i - start) (t.drop start), List.drop_drop, Nat.add_sub_cancel' hle]
    rw [hsplit, ← hrest]
    obtain ⟨first, others, hsegments⟩ :=
      List.exists_cons_of_ne_nil (List.ne_nil_of_length_eq_add_one (length_segmentsBetween t (i + 1) r))
    rw [segmentsBetween, hsegments, Text.join_cons, Text.join_cons, List.flatMap_cons]
    rfl

/-! ## What stands in front of a comma -/

/-- No literal of a text ends before its closing quote. -/
theorem not_hasBrackets_in_literal (hs : HasBrackets s bs) (hquote : isQuote quote = true)
    (hbody : IsInside quote b) (k : Nat) : ¬ HasBrackets (s ++ quote :: b.take k) bs' := by
  intro h
  obtain ⟨_, h, -⟩ := hs.of_append h
  obtain ⟨body, r, hbody', hr, -⟩ := h.inv_literal hquote
  -- the literal would end twice
  have htwice : b ++ quote :: [] = body ++ quote :: (r ++ (b.drop k ++ [quote])) := by
    conv_lhs => rw [← List.take_append_drop k b, hr]
    simp
  obtain ⟨rfl, -⟩ := hbody.unique (ne_backslash_of_isQuote hquote) hbody' htwice
  have hlength := congrArg List.length hr
  simp only [List.length_take, List.length_append, List.length_cons] at hlength
  omega

theorem Nests.countP_eq (h : Nests b) :
    b.countP isOpening = b.countP fun c => (openingOf? c).isSome := by
  induction h with
  | nil => rfl
  | round _ _ ih ih' =>
    simp only [List.countP_cons, List.countP_append, ih, ih']
    simp [isOpening, openingOf?]
    omega
  | square _ _ ih ih' =>
    simp only [List.countP_cons, List.countP_append, ih, ih']
    simp [isOpening, openingOf?]
    omega

/-- The brackets that are left open are those that are not closed. -/
theorem LeavesOpen.countP_eq (h : LeavesOpen bs stack) :
    bs.countP isOpening = (bs.countP fun c => (openingOf? c).isSome) + stack.length := by
  induction h with
  | nests h => exact h.countP_eq
  | @opens bs b stack c hopening _ hb ih =>
    have hclosing : (openingOf? c).isSome = false := by
      rw [← Bool.not_eq_true, Option.isSome_iff_exists]
      rintro ⟨opening, hc⟩
      rw [isOpening_of_openingOf? hc] at hopening
      cases hopening
    simp only [List.countP_append, List.countP_cons, ih, hb.countP_eq, hopening, hclosing, List.length_cons]
    simp
    omega

/-- Behind a text without a fault no bracket is open if the next character is at depth zero. -/
theorem isTopLevel_iff (hs : HasBrackets s bs) (hopen : LeavesOpen bs stack) :
    IsTopLevel s ↔ stack = [] := by
  have hcount := hopen.countP_eq
  constructor
  · rintro ⟨bs', hs', hzero⟩
    obtain rfl := hs.unique hs'
    exact List.length_eq_zero_iff.1 (by omega)
  · rintro rfl
    exact ⟨bs, hs, hcount⟩

theorem IsTopLevel.append (hs : IsTopLevel s) (ht : IsTopLevel t) : IsTopLevel (s ++ t) := by
  obtain ⟨bs, hs, hzero⟩ := hs
  obtain ⟨bs', ht, hzero'⟩ := ht
  exact ⟨bs ++ bs', hs.append ht, by rw [List.countP_append, List.countP_append, hzero, hzero']⟩

/-- With more text around it, a comma at depth zero is one if the text in front is. -/
theorem IsTopLevelComma.within (hs : IsTopLevel s) (h : IsTopLevelComma t i) (r : Text) :
    IsTopLevelComma (s ++ (t ++ r)) (s.length + i) := by
  obtain ⟨hcomma, hzero⟩ := h
  have hlt : i < t.length := (List.getElem?_eq_some_iff.1 hcomma).1
  constructor
  · rw [List.getElem?_append_right (Nat.le_add_right _ _), Nat.add_sub_cancel_left,
      List.getElem?_append_left hlt]
    exact hcomma
  · rw [List.take_length_add_append, List.take_append_of_le_length hlt.le]
    exact hs.append hzero

theorem isTopLevel_of_nests (hs : HasBrackets s bs) (hbs : Nests bs) : IsTopLevel s := ⟨bs, hs, hbs.countP_eq⟩

/-! ## Where the text is split -/

/-- A character that is no bracket and no comma joins the segment. -/
theorem segmentsFrom_other (hbracket : c ∉ bracketChars) (hcomma : c ≠ ',') (depth : Nat) (current : Text)
    (ts : List Token) : segmentsFrom depth current (.sign c :: ts) = segmentsFrom depth (c :: current) ts := by
  obtain ⟨hopening, hclosing⟩ := not_isBracket hbracket
  simp [segmentsFrom, hopening, hclosing, hcomma]

/-- The split may look at the parts of a text. -/
theorem segmentsFrom_parts (depth : Nat) (current t : Text) :
    segmentsFrom depth current (parts t) = segmentsFrom depth current (tokens t) := by
  apply walk_parts (fun (state : Nat × Text) ts => segmentsFrom state.1 state.2 ts) _ _ (depth, current) t
  · intro token ts us h state
    have hrest (depth : Nat) (current : Text) : segmentsFrom depth current ts = segmentsFrom depth current us :=
      h (depth, current)
    cases token <;> simp only [segmentsFrom, hrest]
  · rintro w ts ⟨depth, current⟩ hw
    show segmentsFrom depth current _ = segmentsFrom depth current (.word w :: ts)
    rw [segmentsFrom, Token.chars]
    -- no character of a word is a comma or a bracket
    · induction w generalizing current with
      | nil => rfl
      | cons c w ih =>
        obtain ⟨hc, hw⟩ := List.forall_mem_cons.1 hw
        have hcomma : c ≠ ',' := by
          rintro rfl
          exact absurd hc (by decide)
        rw [List.map_cons, List.cons_append, segmentsFrom_other (isNeutral_of_isNameChar hc).2 hcomma, ih _ hw,
          List.reverse_cons, List.append_assoc]
        rfl
    · exact fun _ h => by cases h

/-- A closing bracket that the scan lets through is the match of the innermost open one. -/
theorem exists_of_closing {opening : Char} {ts : List Token} (hclosing : openingOf? c = some opening)
    (h : imbalanceFrom? stack (.sign c :: ts) = none) :
    ∃ below, stack = opening :: below ∧ imbalanceFrom? below ts = none := by
  rw [imbalanceFrom?, if_neg (by simp [isOpening_of_openingOf? hclosing]), hclosing] at h
  cases stack with
  | nil => cases h
  | cons top below =>
    simp only at h
    split at h
    · next htop => exact ⟨below, by rw [htop], h⟩
    · cases h

theorem isTopLevelComma_length : IsTopLevelComma (s ++ c :: r) s.length ↔ c = ',' ∧ IsTopLevel s := by
  rw [IsTopLevelComma, List.getElem?_append_right (Nat.le_refl _), Nat.sub_self, List.take_left]
  simp

/-- The commas from behind `r` on are those from behind `s` on, if there is none between. -/
theorem AreCommas.of_append (h : AreCommas t (s ++ r).length commas)
    (hnone : ∀ i, s.length ≤ i → i < (s ++ r).length → ¬ IsTopLevelComma t i) :
    AreCommas t s.length commas := by
  have hle : s.length ≤ (s ++ r).length := by simp
  refine ⟨h.ordered, fun i => ?_⟩
  rw [h.mem_iff]
  constructor
  · exact fun ⟨hi, hcomma⟩ => ⟨hle.trans hi, hcomma⟩
  · intro ⟨hi, hcomma⟩
    exact ⟨Nat.le_of_not_lt fun hlt => hnone i hi hlt hcomma, hcomma⟩

theorem AreCommas.of_concat (h : AreCommas (s ++ c :: r) (s ++ [c]).length commas)
    (hnone : ¬ (c = ',' ∧ IsTopLevel s)) : AreCommas (s ++ c :: r) s.length commas := by
  apply h.of_append
  intro i hi hlt
  have hlast : i = s.length := by
    rw [List.length_append, List.length_singleton] at hlt
    omega
  rw [hlast, isTopLevelComma_length]
  exact hnone

theorem AreCommas.cons (h : AreCommas t (i + 1) commas) (hi : IsTopLevelComma t i) :
    AreCommas t i (i :: commas) := by
  constructor
  · exact List.pairwise_cons.2 ⟨fun j hj => ((h.mem_iff j).1 hj).1, h.ordered⟩
  · intro j
    rw [List.mem_cons, h.mem_iff]
    constructor
    · rintro (rfl | ⟨hj, hcomma⟩)
      · exact ⟨Nat.le_refl _, hi⟩
      · exact ⟨Nat.le_of_succ_le hj, hcomma⟩
    · intro ⟨hj, hcomma⟩
      rcases Nat.eq_or_lt_of_le hj with rfl | hlt
      · exact .inl rfl
      · exact .inr ⟨hlt, hcomma⟩

/-- No comma of a literal separates items. -/
theorem AreCommas.of_literal (hs : HasBrackets s bs) (hquote : isQuote quote = true) (hbody : IsInside quote b)
    (h : AreCommas (s ++ quote :: (b ++ quote :: r)) (s ++ quote :: (b ++ [quote])).length commas) :
    AreCommas (s ++ quote :: (b ++ quote :: r)) s.length commas := by
  apply h.of_append
  intro i hi hlt htop
  obtain ⟨hcomma, bs', hbefore, -⟩ := htop
  obtain ⟨k, rfl⟩ := Nat.exists_eq_add_of_le hi
  cases k with
  | zero =>
    -- the quote itself is no comma
    rw [Nat.add_zero, List.getElem?_append_right (Nat.le_refl _), Nat.sub_self] at hcomma
    obtain rfl : quote = ',' := by simpa using hcomma
    cases hquote
  | succ k =>
    have hk : k ≤ b.length := by
      simp only [List.length_append, List.length_cons, List.length_nil] at hlt
      omega
    have htake : (s ++ quote :: (b ++ quote :: r)).take (s.length + (k + 1)) = s ++ quote :: b.take k := by
      rw [List.take_length_add_append, List.take_succ_cons, List.take_append_of_le_length hk]
    rw [htake] at hbefore
    exact not_hasBrackets_in_literal hs hquote hbody k hbefore

theorem reverse_drop_append (h : start ≤ s.length) (w : Text) :
    ((s ++ w).drop start).reverse = w.reverse ++ (s.drop start).reverse := by
  rw [List.drop_append_of_le_length h, List.reverse_append]

/-- The split of a text that is read up to the end of `s` without a fault, `start` being where the current
    segment begins: from there on it cuts the text at its commas. -/
theorem HasBrackets.exists_segments (hr : HasBrackets r b) (hs : HasBrackets s bs) (hopen : LeavesOpen bs stack)
    (hrest : imbalanceFrom? stack (parts r) = none) (hstart : start ≤ s.length) :
    ∃ commas, AreCommas (s ++ r) s.length commas ∧
      segmentsFrom stack.length (s.drop start).reverse (parts r) = segmentsBetween (s ++ r) start commas := by
  induction hr generalizing s bs stack start with
  | nil =>
    refine ⟨[], ⟨.nil, fun i => ?_⟩, ?_⟩
    · rw [List.append_nil]
      constructor
      · exact fun h => absurd h List.not_mem_nil
      · intro h
        obtain ⟨hi, hcomma, -⟩ := h
        rw [List.getElem?_eq_none hi] at hcomma
        cases hcomma
    · rw [parts_nil, segmentsFrom, segmentsBetween, List.reverse_reverse, List.append_nil]
  | @literal quote body r b hquote hbody _ ih =>
    have hsplit : s ++ quote :: (body ++ quote :: r) = s ++ quote :: (body ++ [quote]) ++ r := by simp
    have hread : HasBrackets (s ++ quote :: (body ++ [quote])) (bs ++ []) :=
      hs.append (.literal hquote hbody .nil)
    rw [parts_append_literal hquote hbody, imbalanceFrom?, if_pos rfl] at hrest
    obtain ⟨commas, hcommas, hsegments⟩ := ih hread (hopen.append .nil) hrest (hstart.trans (by simp))
    rw [← hsplit] at hcommas hsegments
    refine ⟨commas, hcommas.of_literal hs hquote hbody, ?_⟩
    rw [← hsegments, reverse_drop_append hstart, parts_append_literal hquote hbody, segmentsFrom, Token.chars]
    exact fun _ h => by cases h
  | @bracket c r b hbracket _ ih =>
    have hquote := isQuote_of_mem_bracketChars hbracket
    have hread : HasBrackets (s ++ [c]) (bs ++ [c]) := hs.append (.bracket hbracket .nil)
    have hcomma : ¬ (c = ',' ∧ IsTopLevel s) := by
      rintro ⟨rfl, -⟩
      exact absurd hbracket (by decide)
    -- whatever the bracket does, it joins the segment
    have hjoin {stack' : Text} (hopen' : LeavesOpen (bs ++ [c]) stack')
        (hrest' : imbalanceFrom? stack' (parts r) = none)
        (hstep : segmentsFrom stack.length (s.drop start).reverse (.sign c :: parts r) =
          segmentsFrom stack'.length (c :: (s.drop start).reverse) (parts r)) :
        ∃ commas, AreCommas (s ++ c :: r) s.length commas ∧
          segmentsFrom stack.length (s.drop start).reverse (parts (c :: r)) =
            segmentsBetween (s ++ c :: r) start commas := by
      obtain ⟨commas, hcommas, hsegments⟩ := ih hread hopen' hrest' (hstart.trans (by simp))
      rw [← List.append_cons] at hcommas hsegments
      refine ⟨commas, hcommas.of_concat hcomma, ?_⟩
      rw [← hsegments, parts_cons hquote, hstep, reverse_drop_append hstart]
      rfl
    rw [parts_cons hquote] at hrest
    by_cases hopening : isOpening c = true
    · rw [imbalanceFrom?, if_pos hopening] at hrest
      exact hjoin (.opens hopening hopen .nil) hrest (by rw [segmentsFrom, if_pos hopening]; rfl)
    · obtain ⟨opening, hclosing⟩ :=
        Option.isSome_iff_exists.1 ((isBracket_iff.1 hbracket).resolve_left hopening)
      obtain ⟨below, rfl, hbelow⟩ := exists_of_closing hclosing hrest
      exact hjoin (hopen.closes hclosing) hbelow (by rw [segmentsFrom, if_neg hopening, hclosing]; rfl)
  | @other c r b hquote hbracket _ ih =>
    have hread : HasBrackets (s ++ [c]) (bs ++ []) := hs.append (.other hquote hbracket .nil)
    obtain ⟨hopening, hclosing⟩ := not_isBracket hbracket
    rw [parts_cons hquote, imbalanceFrom?_other hbracket] at hrest
    by_cases hcomma : c = ',' ∧ IsTopLevel s
    · -- the segment ends here, and the next one starts behind the comma
      obtain ⟨rfl, hzero⟩ := hcomma
      have hstack : stack = [] := (isTopLevel_iff hs hopen).1 hzero
      obtain ⟨commas, hcommas, hsegments⟩ := ih hread (hopen.append .nil) hrest (Nat.le_refl _)
      rw [← List.append_cons] at hcommas hsegments
      have hlength : (s ++ [',']).length = s.length + 1 := by simp
      rw [hlength] at hcommas hsegments
      refine ⟨s.length :: commas, hcommas.cons (isTopLevelComma_length.2 ⟨rfl, hzero⟩), ?_⟩
      rw [segmentsBetween, ← hsegments, List.take_left, parts_cons hquote, hstack, ← hlength, List.drop_length]
      simp [segmentsFrom, hopening, hclosing]
    · obtain ⟨commas, hcommas, hsegments⟩ := ih hread (hopen.append .nil) hrest (hstart.trans (by simp))
      rw [← List.append_cons] at hcommas hsegments
      refine ⟨commas, hcommas.of_concat hcomma, ?_⟩
      have hdepth : ¬ (c = ',' ∧ stack.length = 0) := by
        rw [List.length_eq_zero_iff, ← isTopLevel_iff hs hopen]
        exact hcomma
      rw [← hsegments, parts_cons hquote, reverse_drop_append hstart, segmentsFrom, if_neg (by simp [hopening]),
        if_neg (by simp [hclosing]), if_neg (by simpa using hdepth)]
      rfl

/-! ## What stands between the commas -/

/-- What stands in front of a character at depth zero is balanced, if the text is. -/
theorem IsTopLevel.exists_nests (ht : imbalance? (s ++ t) = none) (hs : IsTopLevel s) :
    ∃ bs, HasBrackets s bs ∧ Nests bs := by
  obtain ⟨bs, hs, hzero⟩ := hs
  rcases exists_firstFault s .nil (.nests .nil) with h | ⟨message, h⟩
  · exact h
  · rw [List.nil_append] at h
    exfalso
    cases h with
    | @unterminated s r bs' stack quote hs' _ hquote hends =>
      obtain ⟨_, hr, -⟩ := hs'.of_append hs
      obtain ⟨body, r', hbody, hr, -⟩ := hr.inv_literal hquote
      exact hends ⟨body, r', hbody, hr⟩
    | @unmatched s r bs' stack c opening hs' hopen hclosing htop =>
      -- what follows does not take the fault away
      rw [List.append_assoc, List.cons_append] at ht
      have hfault := (FirstFault.unmatched (r := r ++ t) hs' hopen hclosing htop).complaint?_eq
      rw [complaint?, ht] at hfault
      cases hfault
    | unclosed hs' hopen =>
      obtain rfl := hs'.unique hs
      have hcount := hopen.countP_eq
      rw [List.length_cons] at hcount
      omega

/-- What stands behind a balanced text is balanced if the whole is. -/
theorem imbalance?_of_append (hs : HasBrackets s bs) (hbs : Nests bs) (t : Text) :
    imbalance? (s ++ t) = imbalance? t := by
  rw [hs.imbalance?_append (.nests hbs), imbalance?_eq]

/-- The segments between the commas of a balanced text are balanced and have no such comma. -/
theorem AreCommas.isUndivided (h : AreCommas t start commas) (ht : imbalance? t = none)
    (hlength : start ≤ t.length) (hb : HasBrackets (t.take start) b) (hnests : Nests b) :
    ∀ segment ∈ segmentsBetween t start commas, IsUndivided segment := by
  induction commas generalizing start b with
  | nil =>
    intro segment hsegment
    obtain rfl := List.mem_singleton.1 hsegment
    have hsplit : t.take start ++ (t.drop start ++ []) = t := by rw [List.append_nil, List.take_append_drop]
    constructor
    · rw [← imbalance?_of_append hb hnests, List.take_append_drop]
      exact ht
    · -- it would be one of the commas from `start` on
      intro i hcomma
      have hcomma := hcomma.within (isTopLevel_of_nests hb hnests) []
      rw [hsplit, List.length_take_of_le hlength] at hcomma
      exact List.not_mem_nil ((h.mem_iff _).2 ⟨Nat.le_add_right _ _, hcomma⟩)
  | cons j r ih =>
    obtain ⟨hj, hcomma⟩ := (h.mem_iff j).1 List.mem_cons_self
    obtain ⟨hlater, hordered⟩ := List.pairwise_cons.1 h.ordered
    have hlt : j < t.length := (List.getElem?_eq_some_iff.1 hcomma.1).1
    obtain ⟨bj, hbj, hnestsj⟩ := hcomma.2.exists_nests (t := t.drop j) (by rwa [List.take_append_drop])
    have hbalanced : imbalance? (t.take j) = none := by
      have hscan := hbj.imbalance?_append (.nests hnestsj) []
      rwa [List.append_nil, parts_nil] at hscan
    have htake : t.take start ++ (t.take j).drop start = t.take j := by
      conv_rhs => rw [← List.take_append_drop start (t.take j), List.take_take, Nat.min_eq_left hj]
    intro segment hsegment
    rw [segmentsBetween] at hsegment
    rcases List.mem_cons.1 hsegment with rfl | hsegment
    · constructor
      · rw [← imbalance?_of_append hb hnests, htake]
        exact hbalanced
      · intro i hwithin
        -- it would be a comma before the next one
        have hi : i < ((t.take j).drop start).length := (List.getElem?_eq_some_iff.1 hwithin.1).1
        rw [List.length_drop, List.length_take_of_le hlt.le] at hi
        have hmem := hwithin.within (isTopLevel_of_nests hb hnests) (t.drop j)
        rw [← List.append_assoc, htake, List.take_append_drop, List.length_take_of_le hlength] at hmem
        rcases List.mem_cons.1 ((h.mem_iff _).2 ⟨Nat.le_add_right _ _, hmem⟩) with heq | hmem
        · omega
        · have hafter := hlater _ hmem
          omega
    · have hrest : AreCommas t (j + 1) r := by
        refine ⟨hordered, fun i => ?_⟩
        constructor
        · intro hi
          exact ⟨hlater i hi, ((h.mem_iff i).1 (List.mem_cons_of_mem j hi)).2⟩
        · intro ⟨hi, hcomma⟩
          have hmem := (h.mem_iff i).2 ⟨by omega, hcomma⟩
          exact (List.mem_cons.1 hmem).resolve_left (by omega)
      have hnext : HasBrackets (t.take (j + 1)) (bj ++ []) := by
        rw [List.take_add_one, hcomma.1]
        exact hbj.append (.other (by decide) (by decide) .nil)
      exact ih hrest hlt hnext (hnestsj.append .nil) segment hsegment

/-- Without the white space around it the text has no other commas. -/
theorem IsUndivided.trim (h : IsUndivided t) : IsUndivided (Text.trim t) := by
  refine ⟨imbalance?_trim h.balanced, fun i hcomma => ?_⟩
  obtain ⟨blanks, -, ht⟩ := Text.exists_trim_append t
  have hneutral : ∀ c ∈ Text.leadingBlanks t, IsNeutral c :=
    fun c hc => isNeutral_of_isBlank (Text.isBlank_of_mem_leadingBlanks hc)
  have hleading : IsTopLevel (Text.leadingBlanks t) :=
    isTopLevel_of_nests (hasBrackets_of_neutral hneutral) .nil
  have hwhole := hcomma.within hleading blanks
  rw [ht] at hwhole
  exact h.undivided _ hwhole

/-! ## The items -/

/-- The items of a balanced text are the segments between its commas, trimmed. -/
theorem exists_splitList (h : imbalance? t = none) : ∃ commas, AreCommas t 0 commas ∧
    splitList t = if Text.trim t = [] ∧ commas = [] then [] else (segmentsBetween t 0 commas).map Text.trim := by
  obtain ⟨bs, hbs, -⟩ := imbalance?_eq_none_iff.1 h
  rw [imbalance?_eq] at h
  obtain ⟨commas, hcommas, hsegments⟩ := hbs.exists_segments .nil (.nests .nil) h (Nat.le_refl 0)
  rw [List.nil_append] at hcommas hsegments
  refine ⟨commas, hcommas, ?_⟩
  rw [segmentsFrom_parts] at hsegments
  rw [splitList, show segmentsFrom 0 [] (tokens t) = _ from hsegments]
  -- without a comma the text is one item, or none if it is blank
  cases commas with
  | nil =>
    rw [segmentsBetween, List.drop_zero, List.map_singleton]
    by_cases htrim : Text.trim t = []
    · simp [htrim]
    · rw [if_neg (by simp [htrim])]
      split
      · next heq => exact absurd (List.singleton_inj.1 heq) htrim
      · rfl
  | cons i r =>
    rw [if_neg (by simp)]
    split
    · next heq =>
      have hlength := congrArg List.length heq
      rw [List.length_map, length_segmentsBetween] at hlength
      cases hlength
    · rfl

/-- The items of a balanced text are balanced, with no white space around them and no commas to split at. -/
theorem isUndivided_of_mem_splitList (h : imbalance? t = none) :
    ∀ item ∈ splitList t, IsUndivided item ∧ Text.trim item = item := by
  obtain ⟨commas, hcommas, hsplit⟩ := exists_splitList h
  intro item hitem
  rw [hsplit] at hitem
  split at hitem
  · exact absurd hitem List.not_mem_nil
  · obtain ⟨segment, hsegment, rfl⟩ := List.mem_map.1 hitem
    have hundivided := hcommas.isUndivided h (Nat.zero_le _) .nil .nil segment hsegment
    exact ⟨hundivided.trim, Text.trim_trim segment⟩

/-- An item is split into itself only. -/
theorem IsUndivided.splitList_eq (h : IsUndivided t) (htrim : Text.trim t = t) :
    splitList t = if t = [] then [] else [t] := by
  obtain ⟨commas, hcommas, hsplit⟩ := exists_splitList h.balanced
  obtain rfl : commas = [] := by
    apply List.eq_nil_iff_forall_not_mem.2
    exact fun i hi => h.undivided i ((hcommas.mem_iff i).1 hi).2
  rw [hsplit, htrim]
  simp [segmentsBetween, htrim]

/-- The items of a balanced text are what stands between its commas, without white space around it: the commas
    outside of string literals and at bracket depth zero, all of them and no others, from left to right. So
    there is one item more than such commas, unless the text is blank. Each item is balanced, and splitting it
    again gives nothing but the item. -/
theorem splitList_of_isBalanced (h : isBalanced t = true) :
    ∃ commas, commas.Pairwise (· < ·) ∧ (∀ i, i ∈ commas ↔ IsTopLevelComma t i) ∧
      Text.join [','] (segmentsBetween t 0 commas) = t ∧
      splitList t = (if Text.trim t = [] ∧ commas = [] then []
        else (segmentsBetween t 0 commas).map Text.trim) ∧
      (splitList t).length = (if Text.trim t = [] ∧ commas = [] then 0 else commas.length + 1) ∧
      ∀ item ∈ splitList t, isBalanced item = true ∧ splitList item = if item = [] then [] else [item] := by
  have hnone : imbalance? t = none := Option.isNone_iff_eq_none.1 h
  obtain ⟨commas, hcommas, hsplit⟩ := exists_splitList hnone
  refine ⟨commas, hcommas.ordered, fun i => ?_, ?_, hsplit, ?_, ?_⟩
  · rw [hcommas.mem_iff]
    simp
  · apply join_segmentsBetween hcommas.ordered
    intro i hi
    exact ⟨Nat.zero_le i, ((hcommas.mem_iff i).1 hi).2.1⟩
  · rw [hsplit]
    split
    · rfl
    · rw [List.length_map, length_segmentsBetween]
  · intro item hmem
    -- an item has no comma outside of its brackets
    obtain ⟨hundivided, htrim⟩ := isUndivided_of_mem_splitList hnone item hmem
    exact ⟨by rw [isBalanced, hundivided.balanced]; rfl, hundivided.splitList_eq htrim⟩

/-- Two of the five commas separate items. -/
theorem splitList_of_isBalanced_quoted :
    isBalanced (text "\"a, \\\"b\", f(1, 2), x[0, 1]") = true ∧
    ∃ commas : List Nat, (∀ i, i ∈ commas ↔ IsTopLevelComma (text "\"a, \\\"b\", f(1, 2), x[0, 1]") i) ∧
      splitList (text "\"a, \\\"b\", f(1, 2), x[0, 1]") =
        [text "\"a, \\\"b\"", text "f(1, 2)", text "x[0, 1]"] ∧ commas.length = 2 := by
  have hbalanced : isBalanced (text "\"a, \\\"b\", f(1, 2), x[0, 1]") = true := by decide +kernel
  have hitems : splitList (text "\"a, \\\"b\", f(1, 2), x[0, 1]") =
      [text "\"a, \\\"b\"", text "f(1, 2)", text "x[0, 1]"] := by decide +kernel
  obtain ⟨commas, -, hcommas, -, -, hlength, -⟩ := splitList_of_isBalanced hbalanced
  refine ⟨hbalanced, commas, hcommas, hitems, ?_⟩
  rw [hitems] at hlength
  split at hlength
  · cases hlength
  · exact (Nat.succ.inj hlength).symm

end Pseudocode.Expression
