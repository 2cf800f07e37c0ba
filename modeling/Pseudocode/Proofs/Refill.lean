import Pseudocode.Proofs.BalancedScripts
import Pseudocode.Proofs.EqualitySigns

/-!
# Other contents for a literal

Two texts that differ in the contents of one string literal. The brackets outside of the literals are
the same in both, so both are balanced or neither is, and the commas that separate items are the same.
A part of the first text that is balanced holds the literal as a whole or nothing of it, so there is a
part of the second text that corresponds to it.

* `Refill`                    a literal and the contents that it gets
* `Refill.At`, `Changes`      the texts with the one literal and with the other
* `Refill.Changes.split`      the literal stands in the first part of a text or in the second one
* `Refill.Changes.splitList`  the items of a list
-/

namespace Pseudocode.Expression

/-- A string literal and other contents for it, both within a line. -/
structure Refill where
  quote : Char
  body : Text
  contents : Text
  opens : isQuote quote = true
  inside : IsInside quote body
  refilled : IsInside quote contents
  inLine : '\n' ∉ body ∧ '\n' ∉ contents

/-- A text without quotes and backslashes may be the inside of any literal. -/
theorem isInside_of_plain {quote : Char} (hquote : isQuote quote = true) {w : Text}
    (h : ∀ c ∈ w, isQuote c = false ∧ c ≠ '\\') : IsInside quote w := by
  induction w with
  | nil => exact .nil
  | cons c w ih =>
    obtain ⟨⟨hplain, hescape⟩, hw⟩ := List.forall_mem_cons.1 h
    refine .plain hescape ?_ (ih hw)
    rintro rfl
    rw [hquote] at hplain
    cases hplain

instance (c : Char) : Decidable (IsNeutral c) := inferInstanceAs (Decidable (_ ∧ _))

theorem forall_isNeutral {t : Text} (h : t.all (fun c => decide (IsNeutral c)) = true) : ∀ c ∈ t, IsNeutral c :=
  fun c hc => of_decide_eq_true (List.all_eq_true.1 h c hc)

/-- Where a text is cut in two that holds a literal with the inside `w`: in front of the literal, inside
    of it or behind it. -/
theorem append_eq_literal {p r u w v : Text} {q : Char} (h : p ++ r = u ++ q :: (w ++ q :: v)) :
    (∃ s, u = p ++ s ∧ r = s ++ q :: (w ++ q :: v)) ∨
    (∃ w₁ w₂, w = w₁ ++ w₂ ∧ p = u ++ q :: w₁ ∧ r = w₂ ++ q :: v) ∨
    ∃ v₁, p = u ++ q :: (w ++ q :: v₁) ∧ v = v₁ ++ r := by
  rcases List.append_eq_append_iff.1 h with ⟨s, hu, hr⟩ | ⟨s, hp, hs⟩
  · exact .inl ⟨s, hu, hr⟩
  · cases s with
    | nil => exact .inl ⟨[], by simpa using hp.symm, hs.symm⟩
    | cons c s =>
      -- the opening quote belongs to the first part
      rw [List.cons_append, List.cons.injEq] at hs
      obtain ⟨rfl, hs⟩ := hs
      rcases List.append_eq_append_iff.1 hs.symm with ⟨w₂, hw, hr⟩ | ⟨s', hs', hv⟩
      · exact .inr (.inl ⟨s, w₂, hw, hp, hr⟩)
      · cases s' with
        | nil => exact .inr (.inl ⟨w, [], by simp, by rw [hp, hs', List.append_nil], by simpa using hv.symm⟩)
        | cons d v₁ =>
          rw [List.cons_append, List.cons.injEq] at hv
          obtain ⟨rfl, hv⟩ := hv
          exact .inr (.inr ⟨v₁, by rw [hp, hs'], hv⟩)

/-- A literal that is left open keeps the text from being balanced. -/
theorem imbalance?_open_literal {u w : Text} {quote : Char} (hu : IsOutside u) (hquote : isQuote quote = true)
    (hopen : ¬ Closes quote w) : imbalance? (u ++ quote :: w) ≠ none := by
  intro hnone
  obtain ⟨bs, hread, -⟩ := imbalance?_eq_none_iff.1 hnone
  obtain ⟨_, hu⟩ := hu
  obtain ⟨_, hrest, -⟩ := hu.of_append hread
  obtain ⟨body, r, hbody, hw, -⟩ := hrest.inv_literal hquote
  exact hopen ⟨body, r, hbody, hw⟩

theorem isOutside_of_balanced {t : Text} (h : imbalance? t = none) : IsOutside t := by
  obtain ⟨bs, ht, -⟩ := imbalance?_eq_none_iff.1 h
  exact ⟨bs, ht⟩

theorem isQuote_of_isBlank {c : Char} (h : Text.isBlank c = true) : isQuote c = false := (isNeutral_of_isBlank h).1

theorem isOutside_of_unquoted {t : Text} (h : ∀ c ∈ t, isQuote c = false) : IsOutside t :=
  ⟨_, Spells.hasBrackets ⟨List.any_eq_false.2 fun c hc => by simp [h c hc], rfl⟩⟩

theorem IsOutside.append {s t : Text} (hs : IsOutside s) (ht : IsOutside t) : IsOutside (s ++ t) := by
  obtain ⟨bs, hs⟩ := hs
  obtain ⟨bs', ht⟩ := ht
  exact ⟨bs ++ bs', hs.append ht⟩

theorem IsOutside.of_append {s t : Text} (hs : IsOutside s) (h : IsOutside (s ++ t)) : IsOutside t := by
  obtain ⟨_, hs⟩ := hs
  obtain ⟨_, h⟩ := h
  obtain ⟨b, hb, -⟩ := hs.of_append h
  exact ⟨b, hb⟩

/-- What follows some tokens matters to the scan only by what it finds there. -/
theorem imbalanceFrom?_append_congr {ts us : List Token}
    (h : ∀ stack, imbalanceFrom? stack ts = imbalanceFrom? stack us) (front : List Token) (stack : List Char) :
    imbalanceFrom? stack (front ++ ts) = imbalanceFrom? stack (front ++ us) := by
  induction front generalizing stack with
  | nil => exact h stack
  | cons token front ih => exact imbalanceFrom?_congr ih token stack

/-- The first segment continues what was read of it; the others do not depend on it. -/
theorem exists_segmentsFrom (depth : Nat) (ts : List Token) :
    ∃ s behind, ∀ current, segmentsFrom depth current ts = (current.reverse ++ s) :: behind := by
  induction ts generalizing depth with
  | nil => exact ⟨[], [], fun current => by rw [segmentsFrom, List.append_nil]⟩
  | cons token ts ih =>
    -- only a comma outside of brackets starts a segment
    have joined (depth : Nat) : ∃ s behind, ∀ current,
        segmentsFrom depth (token.chars.reverse ++ current) ts = (current.reverse ++ s) :: behind := by
      obtain ⟨s, behind, h⟩ := ih depth
      exact ⟨token.chars ++ s, behind, fun current => by rw [h]; simp⟩
    cases token with
    | literal chars closed => simpa only [segmentsFrom] using joined depth
    | word chars => simpa only [segmentsFrom] using joined depth
    | sign c =>
      simp only [segmentsFrom]
      split
      · exact joined (depth + 1)
      · split
        · exact joined (depth - 1)
        · split
          · exact ⟨[], segmentsFrom 0 [] ts, fun current => by rw [List.append_nil]⟩
          · exact joined depth

namespace Refill

variable (F : Refill) {t t' u v p r k : Text} {c : Char}

/-- A character that means nothing in a literal but itself. -/
def isPlain (c : Char) : Bool := !isQuote c && c ≠ '\\' && c ≠ '\n'

theorem isInside_of_isPlain {quote : Char} (hquote : isQuote quote = true) {w : Text} (h : w.all isPlain = true) :
    IsInside quote w ∧ '\n' ∉ w := by
  have hplain : ∀ c ∈ w, (isQuote c = false ∧ c ≠ '\\') ∧ c ≠ '\n' := by simpa [isPlain] using h
  exact ⟨isInside_of_plain hquote fun c hc => (hplain c hc).1, fun hmem => (hplain _ hmem).2 rfl⟩

/-- A literal without quotes and backslashes gets other contents without them. -/
def plain (quote : Char) (body contents : Text) (hquote : isQuote quote = true) (hbody : body.all isPlain = true)
    (hcontents : contents.all isPlain = true) : Refill :=
  { quote := quote, body := body, contents := contents, opens := hquote,
    inside := (isInside_of_isPlain hquote hbody).1, refilled := (isInside_of_isPlain hquote hcontents).1,
    inLine := ⟨(isInside_of_isPlain hquote hbody).2, (isInside_of_isPlain hquote hcontents).2⟩ }

/-- The literal as it was. -/
def before : Text := F.quote :: (F.body ++ [F.quote])

/-- The literal with its new contents. -/
def after : Text := F.quote :: (F.contents ++ [F.quote])

/-- Behind `u` stands the literal, with its old contents in `t` and with the new ones in `t'`. -/
def At (u t t' : Text) : Prop := ∃ v, t = u ++ (F.before ++ v) ∧ t' = u ++ (F.after ++ v)

/-- The texts are the same but for the contents of a literal. -/
def Changes (t t' : Text) : Prop := ∃ u, IsOutside u ∧ F.At u t t'

/-- The old contents in place of the new ones. -/
def swap : Refill :=
  { quote := F.quote, body := F.contents, contents := F.body, opens := F.opens, inside := F.refilled,
    refilled := F.inside, inLine := ⟨F.inLine.2, F.inLine.1⟩ }

theorem before_append (v : Text) : F.before ++ v = F.quote :: (F.body ++ F.quote :: v) := by
  simp [before]

theorem after_append (v : Text) : F.after ++ v = F.quote :: (F.contents ++ F.quote :: v) := by
  simp [after]

/-- The literal with the new contents does not end before its closing quote. -/
theorem not_closes {w₁ w₂ : Text} (h : F.contents = w₁ ++ w₂) : ¬ Closes F.quote w₁ := by
  rintro ⟨body, r, hbody, rfl⟩
  have htwice : F.contents ++ F.quote :: [] = body ++ F.quote :: (r ++ (w₂ ++ [F.quote])) := by simp [h]
  obtain ⟨hshort, -⟩ := F.refilled.unique (ne_backslash_of_isQuote F.opens) hbody htwice
  have hlength := congrArg List.length h
  rw [hshort] at hlength
  simp only [List.length_append, List.length_cons] at hlength
  omega

/-- The old literal does not end inside. -/
theorem not_isOutside_body {w₁ w₂ : Text} (hu : IsOutside u) (h : F.body = w₁ ++ w₂) :
    ¬ IsOutside (u ++ F.quote :: w₁) := by
  rintro ⟨_, hread⟩
  obtain ⟨_, hu⟩ := hu
  have hbegin : w₁ = F.body.take w₁.length := by rw [h, List.take_left]
  rw [hbegin] at hread
  exact not_hasBrackets_in_literal hu F.opens F.inside _ hread

theorem quote_eq : F.quote = '"' ∨ F.quote = '\'' := by simpa [isQuote] using F.opens

theorem isQuote_of_eq (h : c = F.quote) : isQuote c = true := h ▸ F.opens

theorem isBlank_quote : Text.isBlank F.quote = false := by
  by_contra hblank
  have hquote := isQuote_of_isBlank (c := F.quote) (by simpa using hblank)
  rw [F.opens] at hquote
  cases hquote

/-! ## The literal in a text -/

variable {F}

theorem At.swap (h : F.At u t t') : F.swap.At u t' t := by
  obtain ⟨v, ht, ht'⟩ := h
  exact ⟨v, ht', ht⟩

theorem At.append (h : F.At u t t') (k : Text) : F.At (k ++ u) (k ++ t) (k ++ t') := by
  obtain ⟨v, rfl, rfl⟩ := h
  exact ⟨v, by rw [List.append_assoc], by rw [List.append_assoc]⟩

theorem At.behind (h : F.At u t t') (r : Text) : F.At u (t ++ r) (t' ++ r) := by
  obtain ⟨v, rfl, rfl⟩ := h
  exact ⟨v ++ r, by simp only [List.append_assoc], by simp only [List.append_assoc]⟩

theorem At.mem (h : F.At u t t') : F.quote ∈ t ∧ F.quote ∈ t' := by
  obtain ⟨v, rfl, rfl⟩ := h
  simp [before, after]

theorem At.inLine (h : F.At u t t') (hline : '\n' ∉ t) : '\n' ∉ t' := by
  obtain ⟨v, rfl, rfl⟩ := h
  have hquote : F.quote ≠ '\n' := by
    intro heq
    have hopens := F.opens
    rw [heq] at hopens
    cases hopens
  simp only [before, after, List.mem_append, List.mem_cons, List.not_mem_nil, or_false, not_or] at hline ⊢
  exact ⟨hline.1, ⟨hquote.symm, F.inLine.2, hquote.symm⟩, hline.2.2⟩

theorem At.head?_eq (h : F.At u t t') : t.head? = t'.head? := by
  obtain ⟨v, rfl, rfl⟩ := h
  cases u with
  | nil => rfl
  | cons c u => rfl

theorem At.head?_open (h : F.At u t t') (w : Text) : (u ++ F.quote :: w).head? = t.head? := by
  obtain ⟨v, rfl, rfl⟩ := h
  cases u with
  | nil => rfl
  | cons c u => rfl

/-- The first character is the quote of the literal or stands in front of the literal in both texts. -/
theorem At.cons_inv (h : F.At u (c :: r) t') (hc : isQuote c = false) :
    ∃ u' r', u = c :: u' ∧ t' = c :: r' ∧ F.At u' r r' := by
  obtain ⟨v, ht, rfl⟩ := h
  cases u with
  | nil =>
    rw [List.nil_append, before_append, List.cons.injEq] at ht
    rw [F.isQuote_of_eq ht.1] at hc
    cases hc
  | cons d u =>
    rw [List.cons_append, List.cons.injEq] at ht
    obtain ⟨rfl, rfl⟩ := ht
    exact ⟨u, u ++ (F.after ++ v), rfl, rfl, v, rfl, rfl⟩

theorem At.append_inv (h : F.At u (k ++ r) t') (hk : ∀ c ∈ k, isQuote c = false) :
    ∃ u' r', u = k ++ u' ∧ t' = k ++ r' ∧ F.At u' r r' := by
  induction k generalizing u t' with
  | nil => exact ⟨u, t', rfl, rfl, h⟩
  | cons c k ih =>
    obtain ⟨hc, hk⟩ := List.forall_mem_cons.1 hk
    rw [List.cons_append] at h
    obtain ⟨u, t', rfl, rfl, hbehind⟩ := h.cons_inv hc
    obtain ⟨u, r', rfl, rfl, hrest⟩ := ih hbehind hk
    exact ⟨u, r', rfl, rfl, hrest⟩

theorem At.concat_inv (h : F.At u (r ++ [c]) t') (hc : isQuote c = false) :
    ∃ r', t' = r' ++ [c] ∧ F.At u r r' := by
  obtain ⟨v, ht, rfl⟩ := h
  rcases List.eq_nil_or_concat v with rfl | ⟨v, d, rfl⟩
  · rw [List.append_nil, before, ← List.cons_append, ← List.append_assoc] at ht
    rw [F.isQuote_of_eq (List.singleton_inj.1 (List.append_inj' ht rfl).2)] at hc
    cases hc
  · rw [List.concat_eq_append, ← List.append_assoc, ← List.append_assoc] at ht
    obtain ⟨rfl, hcd⟩ := List.append_inj' ht rfl
    exact ⟨u ++ (F.after ++ v), by simp [List.singleton_inj.1 hcd], v, by rw [List.append_assoc], rfl⟩

theorem At.trimStart (h : F.At u t t') : F.At (Text.trimStart u) (Text.trimStart t) (Text.trimStart t') := by
  obtain ⟨v, rfl, rfl⟩ := h
  refine ⟨v, ?_, ?_⟩
  · rw [before_append, Text.trimStart_append_cons F.isBlank_quote]
  · rw [after_append, Text.trimStart_append_cons F.isBlank_quote]

theorem At.trimEnd (h : F.At u t t') : F.At u (Text.trimEnd t) (Text.trimEnd t') := by
  obtain ⟨v, rfl, rfl⟩ := h
  -- the closing quote is the last character that has to be passed
  have hend (w : Text) : Text.trimEnd (u ++ F.quote :: (w ++ F.quote :: v)) =
      u ++ F.quote :: (w ++ F.quote :: Text.trimEnd v) := by
    rw [← List.cons_append, ← List.append_assoc, Text.trimEnd_append_cons F.isBlank_quote, List.append_assoc]
    rfl
  exact ⟨Text.trimEnd v, by rw [before_append, before_append, hend], by rw [after_append, after_append, hend]⟩

theorem At.dropWhile {p : Char → Bool} (hp : p F.quote = false) (h : F.At u t t') :
    F.At (u.dropWhile p) (t.dropWhile p) (t'.dropWhile p) := by
  obtain ⟨v, rfl, rfl⟩ := h
  have hdrop (w : Text) : (u ++ F.quote :: w).dropWhile p = u.dropWhile p ++ F.quote :: w := by
    rw [List.dropWhile_append]
    split
    · next hnil =>
      rw [List.isEmpty_iff.1 hnil, List.dropWhile_cons_of_neg (by simp [hp])]
      rfl
    · rfl
  exact ⟨v, by rw [before_append, hdrop], by rw [after_append, hdrop]⟩

theorem At.takeWhile_eq {p : Char → Bool} (hp : p F.quote = false) (h : F.At u t t') :
    t.takeWhile p = u.takeWhile p ∧ t'.takeWhile p = u.takeWhile p := by
  obtain ⟨v, rfl, rfl⟩ := h
  have htake (w : Text) : (u ++ F.quote :: w).takeWhile p = u.takeWhile p := by
    rw [List.takeWhile_append]
    split
    · next hall =>
      rw [List.takeWhile_cons_of_neg (by simp [hp]), List.append_nil]
      exact (List.IsPrefix.eq_of_length (List.takeWhile_prefix p) hall).symm
    · rfl
  exact ⟨by rw [before_append, htake], by rw [after_append, htake]⟩

/-! ## Texts that differ in a literal -/

theorem At.changes (h : F.At u t t') (hu : IsOutside u) : F.Changes t t' := ⟨u, hu, h⟩

theorem Changes.mem (h : F.Changes t t') : F.quote ∈ t ∧ F.quote ∈ t' := by
  obtain ⟨u, -, h⟩ := h
  exact h.mem

theorem Changes.ne_nil (h : F.Changes t t') : t ≠ [] ∧ t' ≠ [] :=
  ⟨List.ne_nil_of_mem h.mem.1, List.ne_nil_of_mem h.mem.2⟩

theorem Changes.head?_eq (h : F.Changes t t') : t.head? = t'.head? := by
  obtain ⟨u, -, h⟩ := h
  exact h.head?_eq

/-- Of the two parts of a text, the first of which has no literal left open, one holds the literal. -/
theorem Changes.split (h : F.Changes (p ++ r) t') (hp : IsOutside p) :
    (∃ p', t' = p' ++ r ∧ F.Changes p p') ∨ ∃ r', t' = p ++ r' ∧ F.Changes r r' := by
  obtain ⟨u, hu, v, ht, rfl⟩ := h
  rw [before_append] at ht
  rcases append_eq_literal ht with ⟨s, rfl, rfl⟩ | ⟨w₁, w₂, hbody, rfl, -⟩ | ⟨v₁, rfl, rfl⟩
  · exact .inr ⟨s ++ (F.after ++ v), by rw [List.append_assoc], s, hp.of_append hu, v,
      by rw [before_append], rfl⟩
  · exact absurd hp (F.not_isOutside_body hu hbody)
  · exact .inl ⟨u ++ (F.after ++ v₁), by simp only [List.append_assoc], u, hu, v₁, by rw [before_append], rfl⟩

/-- What stands in front of the literal without quotes is the same in both texts. -/
theorem Changes.behind (h : F.Changes (k ++ r) t') (hk : ∀ c ∈ k, isQuote c = false) :
    ∃ r', t' = k ++ r' ∧ F.Changes r r' := by
  rcases h.split (isOutside_of_unquoted hk) with ⟨k', -, hchanges⟩ | hrest
  · have hquote := hk _ hchanges.mem.1
    rw [F.opens] at hquote
    cases hquote
  · exact hrest

/-- So is a character behind the literal. -/
theorem Changes.front (h : F.Changes (r ++ [c]) t') (hc : isQuote c = false) :
    ∃ r', t' = r' ++ [c] ∧ F.Changes r r' := by
  obtain ⟨u, hu, h⟩ := h
  obtain ⟨r', rfl, hat⟩ := h.concat_inv hc
  exact ⟨r', rfl, hat.changes hu⟩

theorem Changes.swap (h : F.Changes t t') : F.swap.Changes t' t := by
  obtain ⟨u, hu, h⟩ := h
  exact ⟨u, hu, h.swap⟩

theorem Changes.inLine (h : F.Changes t t') (hline : '\n' ∉ t) : '\n' ∉ t' := by
  obtain ⟨u, -, h⟩ := h
  exact h.inLine hline

theorem Changes.trimStart (h : F.Changes t t') : F.Changes (Text.trimStart t) (Text.trimStart t') := by
  obtain ⟨u, hu, h⟩ := h
  exact h.trimStart.changes hu.trimStart

theorem Changes.trim (h : F.Changes t t') : F.Changes (Text.trim t) (Text.trim t') := by
  obtain ⟨u, hu, h⟩ := h.trimStart
  exact h.trimEnd.changes hu

/-- The scan finds the same imbalance, if there is one. -/
theorem Changes.imbalance?_eq (h : F.Changes t t') : imbalance? t' = imbalance? t := by
  obtain ⟨u, ⟨bs, hu⟩, v, rfl, rfl⟩ := h
  rw [Expression.imbalance?_eq, Expression.imbalance?_eq, hu.scan, hu.scan, before_append, after_append,
    parts_append_literal F.opens F.inside, parts_append_literal F.opens F.refilled]
  apply imbalanceFrom?_append_congr
  intro stack
  rw [imbalanceFrom?, imbalanceFrom?]

/-- The segments of a list are the same but for the one that holds the literal. `current` is what was
    read of the current one. -/
theorem exists_segments {bs : Text} (hu : HasBrackets u bs) (v : Text) (depth : Nat) (current : Text)
    (hcurrent : IsOutside current.reverse) : ∃ front s s' behind,
      segmentsFrom depth current (parts (u ++ (F.before ++ v))) = front ++ s :: behind ∧
      segmentsFrom depth current (parts (u ++ (F.after ++ v))) = front ++ s' :: behind ∧ F.Changes s s' := by
  induction hu generalizing depth current with
  | nil =>
    -- what comes behind the literal continues the segment in the same way
    obtain ⟨s, behind, hrest⟩ := exists_segmentsFrom depth (parts v)
    refine ⟨[], current.reverse ++ (F.before ++ s), current.reverse ++ (F.after ++ s), behind, ?_, ?_,
      current.reverse, hcurrent, s, rfl, rfl⟩
    · rw [List.nil_append, before_append, parts_append_literal F.opens F.inside]
      simp only [segmentsFrom, Token.chars, hrest, ← before.eq_1, List.reverse_append, List.reverse_reverse,
        List.append_assoc, List.nil_append]
    · rw [List.nil_append, after_append, parts_append_literal F.opens F.refilled]
      simp only [segmentsFrom, Token.chars, hrest, ← after.eq_1, List.reverse_append, List.reverse_reverse,
        List.append_assoc, List.nil_append]
  | @literal quote body u bs hquote hbody _ ih =>
    have hread : IsOutside ((quote :: (body ++ [quote])).reverse ++ current).reverse := by
      rw [List.reverse_append, List.reverse_reverse]
      exact hcurrent.append ⟨_, .literal hquote hbody .nil⟩
    obtain ⟨front, s, s', behind, hs, hs', hchanges⟩ := ih depth _ hread
    refine ⟨front, s, s', behind, ?_, ?_, hchanges⟩
    · rw [List.cons_append, List.append_assoc, List.cons_append, parts_append_literal hquote hbody]
      simpa only [segmentsFrom, Token.chars] using hs
    · rw [List.cons_append, List.append_assoc, List.cons_append, parts_append_literal hquote hbody]
      simpa only [segmentsFrom, Token.chars] using hs'
  | @bracket c u bs hbracket _ ih =>
    have hread : IsOutside (c :: current).reverse := by
      rw [List.reverse_cons]
      exact hcurrent.append ⟨_, .bracket hbracket .nil⟩
    rw [List.cons_append, List.cons_append, parts_cons (isQuote_of_mem_bracketChars hbracket),
      parts_cons (isQuote_of_mem_bracketChars hbracket)]
    simp only [segmentsFrom]
    rcases isBracket_iff.1 hbracket with hopening | hclosing
    · simp only [hopening, if_true]
      exact ih _ _ hread
    · by_cases hopening : isOpening c = true
      · simp only [hopening, if_true]
        exact ih _ _ hread
      · simp only [hopening, hclosing, if_true]
        exact ih _ _ hread
  | @other c u bs hquote hbracket _ ih =>
    have hread : IsOutside (c :: current).reverse := by
      rw [List.reverse_cons]
      exact hcurrent.append ⟨_, .other hquote hbracket .nil⟩
    obtain ⟨hopening, hclosing⟩ := not_isBracket hbracket
    rw [List.cons_append, List.cons_append, parts_cons hquote, parts_cons hquote]
    simp only [segmentsFrom, hopening, hclosing, Option.isSome_none, Bool.false_eq_true, if_false]
    split
    · -- the comma ends a segment in front of the one with the literal
      obtain ⟨front, s, s', behind, hs, hs', hchanges⟩ := ih 0 [] ⟨[], .nil⟩
      exact ⟨current.reverse :: front, s, s', behind, by rw [hs]; rfl, by rw [hs']; rfl, hchanges⟩
    · exact ih _ _ hread

/-- The items of a list are the same but for the one that holds the literal. -/
theorem Changes.splitList (h : F.Changes t t') : ∃ front item item' behind,
    Expression.splitList t = front ++ item :: behind ∧ Expression.splitList t' = front ++ item' :: behind ∧
      F.Changes item item' := by
  obtain ⟨u, ⟨bs, hu⟩, v, rfl, rfl⟩ := h
  obtain ⟨front, s, s', behind, hs, hs', hchanges⟩ :=
    exists_segments hu v 0 [] ⟨[], .nil⟩
  -- the list is not blank, because one of its items is not
  have hitems {t s : Text} (hsegments : segmentsFrom 0 [] (parts t) = front ++ s :: behind)
      (hs : Text.trim s ≠ []) : Expression.splitList t =
        front.map Text.trim ++ Text.trim s :: behind.map Text.trim := by
    rw [Expression.splitList, ← segmentsFrom_parts, hsegments, List.map_append, List.map_cons]
    split
    · next hblank =>
      have hmem : Text.trim s ∈ [([] : Text)] := by
        rw [← hblank]
        simp
      exact absurd (List.mem_singleton.1 hmem) hs
    · rfl
  exact ⟨front.map Text.trim, Text.trim s, Text.trim s', behind.map Text.trim,
    hitems hs hchanges.trim.ne_nil.1, hitems hs' hchanges.trim.ne_nil.2, hchanges.trim⟩

end Refill

end Pseudocode.Expression
