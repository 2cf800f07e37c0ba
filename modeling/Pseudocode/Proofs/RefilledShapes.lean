import Pseudocode.Proofs.LineShapes
import Pseudocode.Proofs.Operands
import Pseudocode.Proofs.Refill

/-!
# Line shapes around a literal

The parts of a line shape know nothing of literals. In front of a literal they read the same whatever it
holds, because no word and no white space reaches beyond its quote, and behind it the text is the same. So
a passage in which the literal stands ends where it ended before, or else inside of the literal.

* `IsPassage`                a passage and what stands behind it
* `Refill.Follows`           parts that read neutral characters in front of what the next part reads
* `IsPassage.refill`         a passage whose literal gets other contents
* `Passes`, `passes_blanks`  where the literal stands when a passage is read
-/

namespace Pseudocode

namespace Shape

open Expression

variable {β : Type} {next : Text → Option β} {g p q r s t t' u w : Text} {b b' : β} {F : Refill}

/-! ## White space -/

/-- What is read behind white space that may be there. -/
theorem blanks_split (h : blanks next t = some b) :
    ∃ g r, t = g ++ r ∧ (∀ c ∈ g, Text.isBlank c = true) ∧ next r = some b := by
  induction t with
  | nil => exact ⟨[], [], rfl, by simp, h⟩
  | cons c t ih =>
    rw [blanks] at h
    split at h
    · next hc =>
      rw [Option.orElse_eq_orElse, Option.orElse_eq_or, Option.or_eq_some_iff] at h
      rcases h with h | ⟨-, h⟩
      · obtain ⟨g, r, rfl, hg, hr⟩ := ih h
        exact ⟨c :: g, r, rfl, List.forall_mem_cons.2 ⟨hc, hg⟩, hr⟩
      · exact ⟨[], c :: t, rfl, by simp, h⟩
    · exact ⟨[], c :: t, rfl, by simp, h⟩

theorem someBlanks_uncons (h : someBlanks next t = some b) :
    ∃ c r, t = c :: r ∧ Text.isBlank c = true ∧ blanks next r = some b := by
  cases t with
  | nil => cases h
  | cons c r =>
    rw [someBlanks] at h
    split at h
    · next hc => exact ⟨c, r, rfl, hc, h⟩
    · cases h

theorem someBlanks_split (h : someBlanks next t = some b) :
    ∃ g r, t = g ++ r ∧ g ≠ [] ∧ (∀ c ∈ g, Text.isBlank c = true) ∧ next r = some b := by
  obtain ⟨c, t, rfl, hc, h⟩ := someBlanks_uncons h
  obtain ⟨g, r, rfl, hg, hr⟩ := blanks_split h
  exact ⟨c :: g, r, rfl, List.cons_ne_nil c g, List.forall_mem_cons.2 ⟨hc, hg⟩, hr⟩

/-- With more white space in front the same is read. -/
theorem blanks_append (hg : ∀ c ∈ g, Text.isBlank c = true) (h : blanks next t = some b) :
    blanks next (g ++ t) = some b := by
  induction g with
  | nil => exact h
  | cons c g ih =>
    obtain ⟨hc, hg⟩ := List.forall_mem_cons.1 hg
    rw [List.cons_append, blanks, if_pos hc, ih hg]
    rfl

/-- If something can be read behind the white space, something is read. -/
theorem isSome_blanks (hg : ∀ c ∈ g, Text.isBlank c = true) (h : (next r).isSome = true) :
    (blanks next (g ++ r)).isSome = true := by
  have hr : (blanks next r).isSome = true := by
    cases r with
    | nil => exact h
    | cons c r =>
      rw [blanks]
      split
      · rw [Option.orElse_eq_orElse, Option.orElse_eq_or, Option.isSome_or, h, Bool.or_true]
      · exact h
  obtain ⟨b, hb⟩ := Option.isSome_iff_exists.1 hr
  rw [blanks_append hg hb]
  rfl

theorem isSome_someBlanks (hne : g ≠ []) (hg : ∀ c ∈ g, Text.isBlank c = true)
    (h : (next r).isSome = true) : (someBlanks next (g ++ r)).isSome = true := by
  obtain ⟨c, g, rfl⟩ := List.exists_cons_of_ne_nil hne
  obtain ⟨hc, hg⟩ := List.forall_mem_cons.1 hg
  rw [List.cons_append, someBlanks, if_pos hc]
  exact isSome_blanks hg h

/-! ## Words -/

/-- A character whose small letter is neither a quote nor a bracket is none itself. -/
theorem isNeutral_of_foldCase {c : Char} (h : IsNeutral (foldCase c)) : IsNeutral c := by
  by_contra hc
  have hmem : c ∈ ['"', '\''] ++ bracketChars := by
    rw [IsNeutral, not_and_or, not_not, Bool.not_eq_false] at hc
    rcases hc with hquote | hbracket
    · exact List.mem_append_left _ (by simpa [isQuote] using hquote)
    · exact List.mem_append_right _ hbracket
  -- these six characters have no case
  have hfold : foldCase c = c := by
    simp only [bracketChars, List.cons_append, List.nil_append, List.mem_cons, List.not_mem_nil, or_false] at hmem
    rcases hmem with rfl | rfl | rfl | rfl | rfl | rfl <;> rfl
  exact hc (hfold ▸ h)

theorem dropWord?_append {word : Text} (h : s.map foldCase = word) (t : Text) :
    dropWord? word (s ++ t) = some t := by
  induction s generalizing word with
  | nil =>
    cases h
    rfl
  | cons c s ih =>
    cases h
    rw [List.cons_append, List.map_cons, dropWord?, if_pos rfl, ih rfl]

/-- A word in front of what is left, as it is written. -/
theorem dropWord?_split {word : Text} (hword : ∀ c ∈ word, IsNeutral c) (h : dropWord? word t = some r) :
    ∃ s, t = s ++ r ∧ s.map foldCase = word ∧ ∀ c ∈ s, IsNeutral c := by
  obtain ⟨s, rfl, hs⟩ := map_of_dropWord? h
  refine ⟨s, rfl, hs, fun c hc => isNeutral_of_foldCase (hword _ ?_)⟩
  rw [← hs]
  exact List.mem_map_of_mem hc

theorem separator_split {word : Text} (hword : ∀ c ∈ word, IsNeutral c) (h : separator word next t = some b) :
    ∃ g s g' r, t = g ++ (s ++ (g' ++ r)) ∧ (g ≠ [] ∧ ∀ c ∈ g, Text.isBlank c = true) ∧
      (s.map foldCase = word ∧ ∀ c ∈ s, IsNeutral c) ∧
      (g' ≠ [] ∧ ∀ c ∈ g', Text.isBlank c = true) ∧ next r = some b := by
  obtain ⟨g, r, rfl, hne, hg, hbehind⟩ := someBlanks_split h
  obtain ⟨r', hr', hread⟩ := Option.bind_eq_some_iff.1 hbehind
  obtain ⟨s, rfl, hs⟩ := dropWord?_split hword hr'
  obtain ⟨g', r, rfl, hne', hg', hnext⟩ := someBlanks_split hread
  exact ⟨g, s, g', r, rfl, ⟨hne, hg⟩, hs, ⟨hne', hg'⟩, hnext⟩

theorem isSome_separator {word g' : Text} (hg : g ≠ [] ∧ ∀ c ∈ g, Text.isBlank c = true)
    (hs : s.map foldCase = word) (hg' : g' ≠ [] ∧ ∀ c ∈ g', Text.isBlank c = true)
    (h : (next r).isSome = true) : (separator word next (g ++ (s ++ (g' ++ r)))).isSome = true := by
  refine isSome_someBlanks hg.1 hg.2 ?_
  rw [dropWord?_append hs, Option.bind_some]
  exact isSome_someBlanks hg'.1 hg'.2 h

/-- There is neither a quote nor a bracket where a line closes. -/
theorem isNeutral_of_closing {words : List Text} (hwords : ∀ w ∈ words, ∀ c ∈ w, IsNeutral c)
    (h : closing words t = some ()) : ∀ c ∈ t, IsNeutral c := by
  have hend {t : Text} (h : atEnd t = some ()) : t = [] := by
    cases t with
    | nil => rfl
    | cons c t => cases h
  rw [closing, Option.orElse_eq_orElse, Option.orElse_eq_or, Option.or_eq_some_iff] at h
  rcases h with h | ⟨-, h⟩
  · obtain ⟨g, r, rfl, -, hg, hbehind⟩ := someBlanks_split h
    obtain ⟨w, hw, hfound⟩ := List.exists_of_findSome?_eq_some hbehind
    obtain ⟨r', hr', hread⟩ := Option.bind_eq_some_iff.1 hfound
    obtain ⟨s, rfl, -, hs⟩ := dropWord?_split (hwords w hw) hr'
    rw [hend hread, List.append_nil]
    exact List.forall_mem_append.2 ⟨fun c hc => isNeutral_of_isBlank (hg c hc), hs⟩
  · rw [hend h]
    simp

/-! ## Passages -/

/-- In front of `r`, which `next` reads, stands the passage `p`: from no earlier place of it on does
    `next` read the rest. -/
structure IsPassage (next : Text → Option β) (p r : Text) (b : β) : Prop where
  ne_nil : p ≠ []
  inLine : '\n' ∉ p
  read : next r = some b
  earlier : ∀ q s, p = q ++ s → q ≠ [] → s ≠ [] → next (s ++ r) = none

theorem IsPassage.cons {c : Char} (h : IsPassage next p r b) (hc : c ≠ '\n') (hp : next (p ++ r) = none) :
    IsPassage next (c :: p) r b := by
  refine ⟨List.cons_ne_nil c p, fun hmem => ?_, h.read, fun q s hqs hq hs => ?_⟩
  · rcases List.mem_cons.1 hmem with heq | hmem
    · exact hc heq.symm
    · exact h.inLine hmem
  · obtain ⟨d, q, rfl⟩ := List.exists_cons_of_ne_nil hq
    rw [List.cons_append, List.cons.injEq] at hqs
    by_cases hq : q = []
    · rw [hq, List.nil_append] at hqs
      rw [← hqs.2, hp]
    · exact h.earlier q s hqs.2 hq hs

theorem isPassage_singleton {c : Char} (hc : c ≠ '\n') (h : next r = some b) : IsPassage next [c] r b := by
  refine ⟨List.cons_ne_nil c [], by simpa using Ne.symm hc, h, fun q s hqs hq hs => ?_⟩
  have hlength := congrArg List.length hqs
  have hq := List.length_pos_iff.2 hq
  have hs := List.length_pos_iff.2 hs
  rw [List.length_append, List.length_singleton] at hlength
  omega

theorem passage_iff : passage next t = some (p, b) ↔ ∃ r, t = p ++ r ∧ IsPassage next p r b := by
  constructor
  · intro h
    -- a passage grows until what follows can be read
    induction t generalizing p with
    | nil => cases h
    | cons c t ih =>
      rw [passage] at h
      split at h
      · cases h
      · next hc =>
        cases hnext : next t with
        | some b' =>
          rw [hnext] at h
          simp only [Option.some.injEq, Prod.mk.injEq] at h
          obtain ⟨rfl, rfl⟩ := h
          exact ⟨t, rfl, isPassage_singleton hc hnext⟩
        | none =>
          rw [hnext] at h
          simp only [Option.map_eq_some_iff, Prod.mk.injEq, Prod.exists] at h
          obtain ⟨q, b', hq, rfl, rfl⟩ := h
          obtain ⟨r, rfl, hpassage⟩ := ih hq
          exact ⟨r, rfl, hpassage.cons hc hnext⟩
  · rintro ⟨r, rfl, h⟩
    exact passage_append h.ne_nil h.inLine h.read h.earlier

/-- A passage ends at the first place where it can. -/
theorem exists_isPassage (hne : p ≠ []) (hline : '\n' ∉ p) (h : next r = some b) :
    ∃ q s b', p = q ++ s ∧ IsPassage next q (s ++ r) b' := by
  induction p with
  | nil => exact absurd rfl hne
  | cons c p ih =>
    obtain ⟨hc, hline⟩ : '\n' ≠ c ∧ '\n' ∉ p := by simpa using hline
    cases hnext : next (p ++ r) with
    | some b' => exact ⟨[c], p, b', rfl, isPassage_singleton hc.symm hnext⟩
    | none =>
      have hp : p ≠ [] := by
        rintro rfl
        rw [List.nil_append, h] at hnext
        cases hnext
      obtain ⟨q, s, b', rfl, hpassage⟩ := ih hp hline
      rw [List.append_assoc] at hnext
      exact ⟨c :: q, s, b', rfl, hpassage.cons hc.symm hnext⟩

theorem isSome_passage (hne : t ≠ []) (hline : '\n' ∉ t) (h : (next []).isSome = true) :
    (passage next t).isSome = true := by
  obtain ⟨b, hb⟩ := Option.isSome_iff_exists.1 h
  obtain ⟨q, s, b', rfl, hpassage⟩ := exists_isPassage hne hline hb
  rw [List.append_nil] at hpassage
  exact Option.isSome_iff_exists.2 ⟨(q, b'), passage_iff.2 ⟨s, rfl, hpassage⟩⟩

/-- A passage that is not blank begins behind all white space. -/
theorem blanks_passage (h : blanks (passage next) t = some (p, b)) (hp : ∃ c ∈ p, Text.isBlank c = false) :
    ∃ g r, t = g ++ r ∧ (∀ c ∈ g, Text.isBlank c = true) ∧ (∀ c ∈ p.head?, Text.isBlank c = false) ∧
      passage next r = some (p, b) := by
  induction t with
  | nil => cases h
  | cons c t ih =>
    rw [blanks] at h
    split at h
    · next hc =>
      rw [Option.orElse_eq_orElse, Option.orElse_eq_or, Option.or_eq_some_iff] at h
      rcases h with h | ⟨hnone, h⟩
      · obtain ⟨g, r, rfl, hg, hrest⟩ := ih h
        exact ⟨c :: g, r, rfl, List.forall_mem_cons.2 ⟨hc, hg⟩, hrest⟩
      · -- nothing can be read behind the blank, so the blank would be the passage
        obtain ⟨r, ht, hpassage⟩ := passage_iff.1 h
        obtain ⟨d, q, rfl⟩ := List.exists_cons_of_ne_nil hpassage.ne_nil
        rw [List.cons_append, List.cons.injEq] at ht
        obtain ⟨rfl, rfl⟩ := ht
        have hq : q = [] := by
          by_contra hq
          have hline : '\n' ∉ q := fun hmem => hpassage.inLine (List.mem_cons_of_mem c hmem)
          obtain ⟨q', s, b', hqs, hlater⟩ := exists_isPassage hq hline hpassage.read
          have hsome : (passage next (q ++ r)).isSome = true := by
            rw [Option.isSome_iff_exists]
            exact ⟨(q', b'), passage_iff.2 ⟨s ++ r, by rw [hqs, List.append_assoc], hlater⟩⟩
          have hblanks := isSome_blanks (g := []) (by simp) hsome
          rw [List.nil_append, hnone] at hblanks
          cases hblanks
        obtain ⟨d, hd, hblank⟩ := hp
        rw [hq, List.mem_singleton] at hd
        rw [hd, hc] at hblank
        cases hblank
    · next hc =>
      obtain ⟨r, ht, hpassage⟩ := passage_iff.1 h
      obtain ⟨d, q, rfl⟩ := List.exists_cons_of_ne_nil hpassage.ne_nil
      obtain rfl : c = d := (List.cons.inj ht).1
      exact ⟨[], c :: t, rfl, by simp, by simpa using hc, h⟩

theorem blanks_passage_append (hg : ∀ c ∈ g, Text.isBlank c = true)
    (hp : ∀ c ∈ p.head?, Text.isBlank c = false) (h : passage next r = some (p, b)) :
    blanks (passage next) (g ++ r) = some (p, b) := by
  apply blanks_append hg
  obtain ⟨r, rfl, hpassage⟩ := passage_iff.1 h
  obtain ⟨c, p, rfl⟩ := List.exists_cons_of_ne_nil hpassage.ne_nil
  rw [List.cons_append] at h ⊢
  rw [blanks_cons (hp c rfl), h]

end Shape

namespace Expression.Refill

open Shape

variable {β : Type} {F : Refill} {next f f' : Text → Option β} {k p r r' t t' u w : Text} {b b' : β}

/-! ## Reading up to a literal -/

variable (F) in
/-- What the literal holds does not matter to whether `next` can read a text. -/
def Ignored (next : Text → Option β) : Prop :=
  ∀ ⦃u t t'⦄, F.At u t t' → '\n' ∉ t → (next t).isSome = (next t').isSome

variable (F) in
/-- In both texts the same neutral characters stand in front of what `next` reads. -/
inductive Reads (next : Text → Option β) : (t t' : Text) → (b b' : β) → Prop where
  | intro {k r r' u : Text} {b b' : β} (hk : ∀ c ∈ k, IsNeutral c) (h : F.At u r r') (hr : next r = some b)
      (hr' : next r' = some b') : Reads next (k ++ r) (k ++ r') b b'

variable (F) in
/-- Whatever the literal holds, `f` reads neutral characters and leaves the rest to `next`. -/
def Follows (next f : Text → Option β) : Prop :=
  ∀ ⦃u t t'⦄, F.At u t t' → '\n' ∉ t → Option.Rel (F.Reads next t t') (f t) (f t')

theorem Follows.ignored (h : F.Follows next f) : F.Ignored f := by
  intro u t t' hat hline
  have hrel := h hat hline
  generalize f t = y at hrel ⊢
  generalize f t' = y' at hrel ⊢
  cases hrel <;> rfl

/-- Nothing stands in front. -/
theorem Ignored.follows (h : F.Ignored next) : F.Follows next next := by
  intro u t t' hat hline
  have hsome := h hat hline
  cases hread : next t with
  | none =>
    rw [hread, Option.isSome_none] at hsome
    rw [Option.isSome_eq_false_iff.1 hsome.symm |> Option.isNone_iff_eq_none.1]
    exact .none
  | some b =>
    rw [hread, Option.isSome_some] at hsome
    obtain ⟨b', hread'⟩ := Option.isSome_iff_exists.1 hsome.symm
    rw [hread']
    exact .some (.intro (k := []) (by simp) hat hread hread')

theorem Reads.append (h : F.Reads next t t' b b') (hk : ∀ c ∈ k, IsNeutral c) :
    F.Reads next (k ++ t) (k ++ t') b b' := by
  obtain ⟨hk', hat, hr, hr'⟩ := h
  rw [← List.append_assoc, ← List.append_assoc]
  exact .intro (List.forall_mem_append.2 ⟨hk, hk'⟩) hat hr hr'

/-- With neutral characters in front of the rest. -/
theorem rel_append {y y' : Option β} (h : Option.Rel (F.Reads next t t') y y') (hk : ∀ c ∈ k, IsNeutral c) :
    Option.Rel (F.Reads next (k ++ t) (k ++ t')) y y' := by
  cases h with
  | none => exact .none
  | some h => exact .some (h.append hk)

theorem Follows.trans (h : F.Follows next f) (h' : F.Follows f f') : F.Follows next f' := by
  intro u t t' hat hline
  have hrel := h' hat hline
  generalize f' t = y at hrel ⊢
  generalize f' t' = y' at hrel ⊢
  cases hrel with
  | none => exact .none
  | some hreads =>
    obtain ⟨hk, hrest, hr, hr'⟩ := hreads
    have hfirst := h hrest fun hmem => hline (List.mem_append_right _ hmem)
    rw [hr, hr'] at hfirst
    exact rel_append hfirst hk

theorem Ignored.blanks (h : F.Ignored next) : F.Follows next (blanks next) := by
  rintro u _ _ ⟨v, rfl, rfl⟩ hline
  induction u with
  | nil =>
    -- the quote is no blank
    rw [List.nil_append, List.nil_append, before_append, after_append, blanks_cons F.isBlank_quote,
      blanks_cons F.isBlank_quote, ← before_append, ← after_append]
    exact h.follows (u := []) ⟨v, rfl, rfl⟩ hline
  | cons c u ih =>
    have hwhole : Option.Rel (F.Reads next (c :: u ++ (F.before ++ v)) (c :: u ++ (F.after ++ v)))
        (next (c :: u ++ (F.before ++ v))) (next (c :: u ++ (F.after ++ v))) := h.follows ⟨v, rfl, rfl⟩ hline
    rw [List.cons_append, List.cons_append] at hwhole ⊢
    rw [Shape.blanks, Shape.blanks]
    split
    · next hc =>
      have hrel := rel_append (k := [c]) (ih fun hmem => hline (List.mem_cons_of_mem c hmem))
        (by simpa using isNeutral_of_isBlank hc)
      generalize Shape.blanks next (u ++ (F.before ++ v)) = y at hrel ⊢
      generalize Shape.blanks next (u ++ (F.after ++ v)) = y' at hrel ⊢
      cases hrel with
      | none => exact hwhole
      | some hreads => exact .some hreads
    · exact hwhole

theorem Ignored.someBlanks (h : F.Ignored next) : F.Follows next (someBlanks next) := by
  rintro u _ _ ⟨v, rfl, rfl⟩ hline
  cases u with
  | nil =>
    rw [List.nil_append, List.nil_append, before_append, after_append, someBlanks_cons F.isBlank_quote,
      someBlanks_cons F.isBlank_quote]
    exact .none
  | cons c u =>
    rw [List.cons_append, List.cons_append, Shape.someBlanks, Shape.someBlanks]
    split
    · next hc =>
      have hrel := h.blanks (u := u) ⟨v, rfl, rfl⟩ fun hmem => hline (List.mem_cons_of_mem c hmem)
      exact rel_append (k := [c]) hrel (by simpa using isNeutral_of_isBlank hc)
    · exact .none

/-- A word is found in both texts or in neither, because it holds no quote. -/
theorem Ignored.dropWord {word : Text} (hword : ∀ c ∈ word, IsNeutral c) (h : F.Ignored next) :
    F.Follows next fun t => (dropWord? word t).bind next := by
  rintro u _ _ ⟨v, rfl, rfl⟩ hline
  induction word generalizing u with
  | nil => exact h.follows ⟨v, rfl, rfl⟩ hline
  | cons w word ih =>
    obtain ⟨hw, hword⟩ := List.forall_mem_cons.1 hword
    cases u with
    | nil =>
      -- the word holds no quote, so at the literal it is not found
      have hquote : foldCase F.quote ≠ w := by
        rintro rfl
        have hneutral := isNeutral_of_foldCase hw
        rw [IsNeutral, F.opens] at hneutral
        cases hneutral.1
      simp only [List.nil_append, before_append, after_append, dropWord?, if_neg hquote, Option.bind_none]
      exact .none
    | cons c u =>
      simp only [List.cons_append, dropWord?]
      split
      · next hc =>
        have hrel := ih hword fun hmem => hline (List.mem_cons_of_mem c hmem)
        exact rel_append (k := [c]) hrel (by simpa using isNeutral_of_foldCase (hc ▸ hw))
      · exact .none

theorem Ignored.separator {word : Text} (hword : ∀ c ∈ word, IsNeutral c) (h : F.Ignored next) :
    F.Follows next (separator word next) := by
  have hrest : F.Follows next fun t => (dropWord? word t).bind (Shape.someBlanks next) :=
    h.someBlanks.trans (h.someBlanks.ignored.dropWord hword)
  exact hrest.trans hrest.ignored.someBlanks

/-- What is read of a text with the literal outside of other literals. -/
theorem Follows.changes (hf : F.Follows next f) (h : F.Changes t t') (hline : '\n' ∉ t) (hread : f t = some b) :
    ∃ k r r' b', t = k ++ r ∧ t' = k ++ r' ∧ (∀ c ∈ k, IsNeutral c) ∧ F.Changes r r' ∧ next r = some b ∧
      next r' = some b' ∧ f t' = some b' := by
  obtain ⟨u, hu, hat⟩ := id h
  have hrel := hf hat hline
  rw [hread] at hrel
  generalize hread' : f t' = y' at hrel
  cases hrel with
  | some hreads =>
    obtain ⟨hk, -, hr, hr'⟩ := hreads
    obtain ⟨r'', heq, hchanges⟩ := h.behind fun c hc => (hk c hc).1
    rw [List.append_cancel_left heq]
    exact ⟨_, _, _, _, rfl, rfl, hk, hchanges, hr, List.append_cancel_left heq ▸ hr', rfl⟩

end Expression.Refill

/-! ## Passages with a literal -/

namespace Shape

open Expression

variable {β : Type} {F : Refill} {next : Text → Option β} {p p' r r' t t' u : Text} {b b' : β}

/-- A literal behind a passage does not matter to where the passage ends. -/
theorem IsPassage.behind (h : IsPassage next p r b) (hnext : F.Ignored next) (hline : '\n' ∉ p ++ r)
    (hr : F.At u r r') (hread : next r' = some b') : IsPassage next p r' b' := by
  refine ⟨h.ne_nil, h.inLine, hread, fun q s hqs hq hs => ?_⟩
  have hsome := hnext (hr.append s) fun hmem => hline (by rw [hqs, List.append_assoc]; simp [hmem])
  rw [h.earlier q s hqs hq hs, Option.isSome_none] at hsome
  exact Option.isNone_iff_eq_none.1 (Option.isSome_eq_false_iff.1 hsome.symm)

/-- A passage ends where it ended before its literal got other contents, or inside of the literal. -/
theorem IsPassage.refill (h : IsPassage next p r b) (hnext : F.Ignored next) (hline : '\n' ∉ p ++ r)
    (hp : F.At u p p') : IsPassage next p' r b ∨
      ∃ w₁ w₂ z b', F.contents = w₁ ++ w₂ ∧ p' ++ r = u ++ F.quote :: w₁ ++ (w₂ ++ F.quote :: z) ∧
        IsPassage next (u ++ F.quote :: w₁) (w₂ ++ F.quote :: z) b' := by
  have hne : p' ≠ [] := List.ne_nil_of_mem hp.mem.2
  have hline' : '\n' ∉ p' := hp.inLine h.inLine
  obtain ⟨q, s, b', hqs, hq⟩ := exists_isPassage hne hline' h.read
  by_cases hs : s = []
  · -- no earlier end was found
    rw [hs, List.append_nil] at hqs
    rw [hs, List.nil_append] at hq
    have hread := hq.read
    rw [h.read] at hread
    obtain rfl := Option.some.inj hread
    exact .inl (hqs ▸ hq)
  obtain ⟨v, rfl, rfl⟩ := hp
  have hcut := hqs.symm
  rw [Refill.after_append] at hcut
  -- an earlier end lies in front of the literal, in it, or behind it
  rcases append_eq_literal hcut with ⟨s₀, rfl, rfl⟩ | ⟨w₁, w₂, hw, rfl, rfl⟩ | ⟨v₁, rfl, rfl⟩
  · -- the text in front of the literal had this end before
    have hat : F.At s₀ (s₀ ++ (F.before ++ v) ++ r) (s₀ ++ (F.after ++ v) ++ r) := Refill.At.behind ⟨v, rfl, rfl⟩ r
    have hsome := hnext hat fun hmem => hline (by
      simpa only [List.append_assoc] using List.mem_append_right q hmem)
    rw [h.earlier q (s₀ ++ (F.before ++ v)) (by rw [List.append_assoc]) hq.ne_nil (by simp [Refill.before]),
      Refill.after_append, hq.read] at hsome
    cases hsome
  · refine .inr ⟨w₁, w₂, v ++ r, b', hw, ?_, ?_⟩
    · rw [Refill.after_append, hw]
      simp
    · rw [List.append_assoc] at hq
      exact hq
  · -- and so had the text behind the literal
    have hnone := h.earlier (u ++ (F.before ++ v₁)) s (by simp) (by simp [Refill.before]) hs
    rw [hq.read] at hnone
    cases hnone

/-- What `f` reads of a text with other contents for a literal, where it read the passage `p` and `b`
    behind it. -/
inductive Passes (F : Refill) (next : Text → Option β) (f : Text → Option (Text × β)) (t t' p : Text) (b : β) :
    Prop where
  /-- The literal stands in the passage, which ends where it ended before. -/
  | within {u p' : Text} (hu : IsOutside u) (h : F.At u p p') (hread : f t' = some (p', b))
  /-- The literal stands in the passage, which ends inside of it. -/
  | cut {u p' w w' z : Text} {b' : β} (hu : IsOutside u) (h : F.At u p p') (hw : F.contents = w ++ w')
    (hnext : next (w' ++ F.quote :: z) = some b') (hread : f t' = some (u ++ F.quote :: w, b'))
  /-- The literal stands behind the passage. -/
  | behind {r r' : Text} (h : F.Changes r r') (hr : r <:+ t) (hnext : next r = some b)
    (hread : ∀ b', next r' = some b' → f t' = some (p, b'))

theorem passes_passage (h : F.Changes t t') (hnext : F.Ignored next) (hline : '\n' ∉ t)
    (hread : passage next t = some (p, b)) (hp : IsOutside p) : Passes F next (passage next) t t' p b := by
  obtain ⟨r, rfl, hpassage⟩ := passage_iff.1 hread
  rcases h.split hp with ⟨p', rfl, u, hu, hat⟩ | ⟨r', rfl, hchanges⟩
  · rcases hpassage.refill hnext hline hat with hsame | ⟨w, w', z, b', hw, hcut, hinside⟩
    · exact .within hu hat (passage_iff.2 ⟨r, rfl, hsame⟩)
    · exact .cut hu hat hw hinside.read (passage_iff.2 ⟨_, hcut, hinside⟩)
  · refine .behind hchanges (List.suffix_append p r) hpassage.read fun b' hb' => ?_
    obtain ⟨u, -, hat⟩ := hchanges
    exact passage_iff.2 ⟨r', rfl, hpassage.behind hnext hline hat hb'⟩

/-- The same behind white space. -/
theorem passes_blanks (h : F.Changes t t') (hnext : F.Ignored next) (hline : '\n' ∉ t)
    (hread : blanks (passage next) t = some (p, b)) (hp : IsOutside p) (hwhole : ∃ c ∈ p, Text.isBlank c = false) :
    Passes F next (blanks (passage next)) t t' p b := by
  obtain ⟨g, r, rfl, hg, hhead, hpassage⟩ := blanks_passage hread hwhole
  obtain ⟨r', rfl, hchanges⟩ := h.behind fun c hc => isQuote_of_isBlank (hg c hc)
  cases passes_passage hchanges hnext (fun hmem => hline (List.mem_append_right g hmem)) hpassage hp with
  | within hu hat hread => exact .within hu hat (blanks_passage_append hg (by rwa [← hat.head?_eq]) hread)
  | cut hu hat hw hnext hread => exact .cut hu hat hw hnext (blanks_passage_append hg (by rwa [hat.head?_open]) hread)
  | behind h hr hnext hread =>
    exact .behind h (hr.trans (List.suffix_append g r)) hnext
      fun b' hb' => blanks_passage_append hg hhead (hread b' hb')

/-- If there cannot be a quote behind it, the literal stands in the passage. -/
theorem quote_mem_passage (h : F.Changes t t') (hread : blanks (passage next) t = some (p, b))
    (hnext : ∀ r, next r = some b → F.quote ∉ r) : F.quote ∈ p := by
  obtain ⟨g, x, rfl, hg, hx⟩ := blanks_split hread
  obtain ⟨r, rfl, hpassage⟩ := passage_iff.1 hx
  have hquote := h.mem.1
  rw [List.mem_append, List.mem_append] at hquote
  rcases hquote with hquote | hquote | hquote
  · exact absurd (F.isBlank_quote.symm.trans (hg _ hquote)) (by simp)
  · exact hquote
  · exact absurd hquote (hnext r hpassage.read)

variable {words : List Text}

/-- A line does not close in front of a quote. -/
theorem quote_not_mem_of_closing (hwords : ∀ w ∈ words, ∀ c ∈ w, IsNeutral c) {y : Unit}
    (h : closing words t = some y) : F.quote ∉ t := by
  intro hmem
  have hquote := (isNeutral_of_closing hwords h _ hmem).1
  rw [F.opens] at hquote
  cases hquote

theorem closing_eq_none_of_mem (hwords : ∀ w ∈ words, ∀ c ∈ w, IsNeutral c) (h : F.quote ∈ t) :
    closing words t = none := by
  cases hread : closing words t with
  | none => rfl
  | some => exact absurd h (quote_not_mem_of_closing hwords hread)

theorem ignored_closing (hwords : ∀ w ∈ words, ∀ c ∈ w, IsNeutral c) : F.Ignored (closing words) := by
  intro u t t' hat _
  rw [closing_eq_none_of_mem hwords hat.mem.1, closing_eq_none_of_mem hwords hat.mem.2]

/-- A passage up to the end of the line is not cut. -/
theorem Passes.closing {f : Text → Option (Text × Unit)} (h : Passes F (closing words) f t t' p ())
    (hwords : ∀ w ∈ words, ∀ c ∈ w, IsNeutral c) : ∃ p', f t' = some (p', ()) ∧ F.Changes p p' := by
  cases h with
  | within hu hat hread => exact ⟨_, hread, hat.changes hu⟩
  | cut _ _ _ hnext _ => exact absurd (by simp) (quote_not_mem_of_closing (F := F) hwords hnext)
  | behind h _ hnext _ => exact absurd h.mem.1 (quote_not_mem_of_closing hwords hnext)

/-- A passage up to the end of the line can be read wherever there is some text. -/
theorem ignored_passage (hend : (next []).isSome = true) : F.Ignored (passage next) := by
  intro u t t' hat hline
  rw [isSome_passage (List.ne_nil_of_mem hat.mem.1) hline hend,
    isSome_passage (List.ne_nil_of_mem hat.mem.2) (hat.inLine hline) hend]

end Shape

end Pseudocode
