import Pseudocode.Proofs.Margins
import Pseudocode.Proofs.Relocation

/-!
# Readers of alike texts

The grammar is read from two texts at a time. At places that are abreast in alike texts, a reader
finds something in both texts or in neither, on the same lines, and goes on to places that are
abreast again. The fuels of the two readers may differ: a reading takes away some of what is ahead,
so any fuel is enough that is greater than what is ahead.

* `Abreast`           places with the same ahead of them
* `Reader.Twin`      readers that find the same on the same lines
* `Grammar.twin_statement`, `Grammar.twin_program`   the readers of the grammar
* `read_alike`       alike texts are read alike
-/

namespace Pseudocode.Script

/-- Places in two texts, with alike texts behind them. -/
structure Abreast (t t' : Text) (c c' : Cursor) : Prop where
  isFrom : c.IsFrom 0 t
  isFrom' : c'.IsFrom 0 t'
  alike : Alike c.rest c'.rest
  strings : HoldsStrings c.rest

theorem Abreast.skipGap_advance {t t' : Text} {c c' : Cursor} (h : Abreast t t' c c') {n : Nat}
    (halike : Alike (c.rest.drop n) (c'.rest.drop n)) :
    Abreast t t' (c.advance n).skipGap (c'.advance n).skipGap where
  isFrom := (h.isFrom.advance n).advance _
  isFrom' := (h.isFrom'.advance n).advance _
  alike := halike.skip
  strings := h.strings.suffix ((List.drop_suffix _ _).trans (List.drop_suffix _ _))

/-- Places that are abreast are on the same line. -/
theorem Abreast.lineOf_eq {t t' : Text} {c c' : Cursor} (h : Abreast t t' c c')
    (hcount : t.count '\n' = t'.count '\n') : lineOf t c.offset = lineOf t' c'.offset := by
  have hrest := h.alike.count_newline
  rw [h.isFrom.1, h.isFrom'.1] at hrest
  have hsplit (t : Text) (offset : Nat) :
      t.count '\n' = (t.take offset).count '\n' + (t.drop offset).count '\n' := by
    rw [← List.count_append, List.take_append_drop]
  rw [hsplit t c.offset, hsplit t' c'.offset, hrest] at hcount
  exact Nat.add_right_cancel hcount

namespace Reader

variable {α β γ δ : Type} {t t' : Text}

/-- With less than `n` ahead, both readers find something or neither does; what they find looks the
    same, the places behind it are abreast, and at least `k` less is ahead. -/
def Twin (t t' : Text) (v v' : α → γ) (k n : Nat) (r r' : Reader α) : Prop :=
  ∀ c c', Abreast t t' c c' → weight c.rest < n →
    Option.Rel (fun found found' => v found.1 = v' found'.1 ∧ Abreast t t' found.2 found'.2 ∧
      weight found.2.rest + k ≤ weight c.rest) (r c).result (r' c').result

section

variable {v v' : α → γ} {w w' : β → δ} {k l m n fuel fuel' : Nat} {r r' s s' : Reader α}
  {f f' : α → Reader β} {step step' : α → Reader α} {scan : Text → Option (α × Nat)}

theorem twin_zero : Twin t t' v v' k 0 r r' := fun _ _ _ hlt => absurd hlt (Nat.not_lt_zero _)

theorem Twin.mono (h : Twin t t' v v' k n r r') (hle : m ≤ n) : Twin t t' v v' k m r r' :=
  fun c c' habreast hlt => h c c' habreast (Nat.lt_of_lt_of_le hlt hle)

/-- What is taken away need not be known. -/
theorem Twin.forget (h : Twin t t' v v' k n r r') : Twin t t' v v' 0 n r r' := by
  intro c c' habreast hlt
  rcases (h c c' habreast hlt).eq_none_or_eq_some with
    ⟨hr, hr'⟩ | ⟨_, _, hr, hr', hview, hnext, hle⟩
  · rw [hr, hr']
    exact .none
  · rw [hr, hr']
    exact .some ⟨hview, hnext, by omega⟩

theorem twin_pure {a a' : α} (h : v a = v' a') : Twin t t' v v' 0 n (pure a) (pure a') :=
  fun _ _ habreast _ => .some ⟨h, habreast, Nat.le_refl _⟩

theorem twin_fail : Twin t t' v v' k n fail fail := fun _ _ _ _ => .none

theorem Twin.bind (h : Twin t t' v v' k n r r')
    (hf : ∀ a a', v a = v' a' → Twin t t' w w' l (n - k) (f a) (f' a')) :
    Twin t t' w w' (l + k) n (r >>= f) (r' >>= f') := by
  intro c c' habreast hlt
  rw [result_bind, result_bind]
  -- both fail at once, or they go on abreast
  rcases (h c c' habreast hlt).eq_none_or_eq_some with
    ⟨hr, hr'⟩ | ⟨⟨a, d⟩, ⟨a', d'⟩, hr, hr', hview, hnext, hle⟩
  · rw [hr, hr']
    exact .none
  · rw [hr, hr', Option.bind_some, Option.bind_some]
    dsimp only at hnext hle
    rcases (hf a a' hview d d' hnext (by omega)).eq_none_or_eq_some with
      ⟨hs, hs'⟩ | ⟨_, _, hs, hs', hview', hlast, hle'⟩
    · rw [hs, hs']
      exact .none
    · rw [hs, hs']
      exact .some ⟨hview', hlast, by omega⟩

theorem Twin.part (h : Twin t t' v v' k n r r') : Twin t t' v v' k n (part r) (part r') := by
  intro c c' habreast hlt
  rw [result_part, result_part]
  exact h c c' habreast hlt

theorem Twin.orElse (h : Twin t t' v v' k n r r') (hs : Twin t t' v v' k n s s') :
    Twin t t' v v' k n (orElse r s) (orElse r' s') := by
  intro c c' habreast hlt
  rw [result_orElse, result_orElse]
  rcases (h c c' habreast hlt).eq_none_or_eq_some with ⟨hr, hr'⟩ | ⟨_, _, hr, hr', hfound⟩
  · rw [hr, hr', Option.none_or, Option.none_or]
    exact hs c c' habreast hlt
  · rw [hr, hr']
    exact .some hfound

theorem twin_oneOf {readers readers' : List (Reader α)}
    (h : List.Forall₂ (Twin t t' v v' k n) readers readers') :
    Twin t t' v v' k n (oneOf readers) (oneOf readers') := by
  induction h with
  | nil => exact twin_fail
  | cons h _ ih => exact h.orElse ih

theorem Twin.optional (h : Twin t t' v v' k n r r') :
    Twin t t' (Option.map v) (Option.map v') 0 n (optional r) (optional r') := by
  intro c c' habreast hlt
  rw [result_optional, result_optional]
  rcases (h c c' habreast hlt).eq_none_or_eq_some with
    ⟨hr, hr'⟩ | ⟨_, _, hr, hr', hview, hnext, hle⟩
  · rw [hr, hr']
    exact .some ⟨rfl, habreast, Nat.le_refl _⟩
  · rw [hr, hr']
    exact .some ⟨congrArg some hview, hnext, Nat.le_trans (Nat.le_add_right _ _) hle⟩

/-- Readings that take something away come to an end with any fuel that is greater than what is
    ahead. -/
theorem Twin.iterate (h : ∀ a a', v a = v' a' → Twin t t' v v' 1 n (step a) (step' a'))
    (hfuel : n ≤ fuel) (hfuel' : n ≤ fuel') {a a' : α} (ha : v a = v' a') :
    Twin t t' v v' 0 n (iterate step fuel a) (iterate step' fuel' a') := by
  -- each step takes something away, so the bound on what is ahead goes down and the fuels with it
  induction n generalizing fuel fuel' a a' with
  | zero => exact twin_zero
  | succ n ih =>
    obtain ⟨fuel, rfl⟩ : ∃ m, fuel = m + 1 := ⟨fuel - 1, by omega⟩
    obtain ⟨fuel', rfl⟩ : ∃ m, fuel' = m + 1 := ⟨fuel' - 1, by omega⟩
    intro c c' habreast hlt
    rw [result_iterate_succ, result_iterate_succ]
    rcases (h a a' ha c c' habreast hlt).eq_none_or_eq_some with
      ⟨hr, hr'⟩ | ⟨⟨b, d⟩, ⟨b', d'⟩, hr, hr', hview, hnext, hle⟩
    · rw [hr, hr']
      exact .some ⟨ha, habreast, Nat.le_refl _⟩
    · rw [hr, hr']
      dsimp only at hnext hle
      have hrest := ih (fun a a' ha => (h a a' ha).mono (Nat.le_succ n))
        (Nat.le_of_succ_le_succ hfuel) (Nat.le_of_succ_le_succ hfuel') hview d d' hnext (by omega)
      rcases hrest.eq_none_or_eq_some with ⟨hs, hs'⟩ | ⟨_, _, hs, hs', hview', hlast, hle'⟩
      · rw [Option.elim_some, Option.elim_some, hs, hs']
        exact .none
      · rw [Option.elim_some, Option.elim_some, hs, hs']
        exact .some ⟨hview', hlast, by omega⟩

theorem Twin.many (h : Twin t t' v v' 1 n r r') (hfuel : n ≤ fuel) (hfuel' : n ≤ fuel') :
    Twin t t' (List.map v) (List.map v') 0 n (many fuel r) (many fuel' r') := by
  have hstep (found found' : List α) (hfound : found.map v = found'.map v') :
      Twin t t' (List.map v) (List.map v') 1 n (do return (← r) :: found)
        (do return (← r') :: found') := by
    refine h.bind fun a a' ha => twin_pure ?_
    rw [List.map_cons, List.map_cons, ha, hfound]
  refine (Twin.iterate hstep hfuel hfuel' rfl).bind fun found found' hfound => twin_pure ?_
  rw [List.map_reverse, List.map_reverse, hfound]

theorem twin_place (hcount : t.count '\n' = t'.count '\n') :
    Twin t t' (lineOf t) (lineOf t') 0 n place place :=
  fun _ _ habreast _ => .some ⟨habreast.lineOf_eq hcount, habreast, Nat.le_refl _⟩

theorem weight_skip_le (t : Text) : weight (skip t) ≤ weight t := weight_drop_le _ t

theorem twin_token (h : ScansAlike scan) : Twin t t' id id 1 n (token scan) (token scan) := by
  intro c c' habreast _
  -- the same token, and the gaps behind it end at alike texts
  obtain ⟨heq, hnext⟩ := h _ _ habreast.alike habreast.strings
  rw [result_token, result_token, ← heq]
  cases hscan : scan c.rest with
  | none => exact .none
  | some found =>
    obtain ⟨a, length⟩ := found
    obtain ⟨halike, hlt⟩ := hnext a length hscan
    refine .some ⟨rfl, habreast.skipGap_advance halike, ?_⟩
    have hle := weight_skip_le (c.rest.drop length)
    exact Nat.lt_of_le_of_lt hle hlt

theorem twin_sign {c : Char} (hc : isGap c = false) : Twin t t' id id 1 n (sign c) (sign c) :=
  twin_token (staysInLine_sign hc).scansAlike

theorem twin_word {w : Text} (hw : w ≠ []) : Twin t t' id id 1 n (word w) (word w) :=
  twin_token (staysInLine_word hw).scansAlike

theorem twin_finished : Twin t t' id id 0 n finished finished := by
  intro c c' habreast _
  unfold finished
  dsimp only
  rw [habreast.alike.isEmpty_eq]
  split
  · exact .some ⟨rfl, habreast, Nat.le_refl _⟩
  · exact .none

end

end Reader

/-! ## Phrases -/

namespace Grammar

open Reader

variable {t t' : Text} {k m n fuel fuel' : Nat}

/-- The readers find phrases with the same tokens on the same lines. -/
abbrev TwinPhrases (t t' : Text) (k n : Nat) (r r' : Reader Phrase) : Prop :=
  Twin t t' (Phrase.mapPlaces (lineOf t)) (Phrase.mapPlaces (lineOf t')) k n r r'

private theorem none_or_some_of_map_eq {α γ : Type} {v v' : α → γ} {found found' : Option α}
    (h : found.map v = found'.map v') : found = none ∧ found' = none ∨
      ∃ a a', found = some a ∧ found' = some a' ∧ v a = v' a' := by
  cases found with
  | none => exact .inl ⟨rfl, Option.map_eq_none_iff.1 h.symm⟩
  | some a =>
    obtain ⟨a', rfl, ha⟩ := Option.map_eq_some_iff.1 h.symm
    exact .inr ⟨a, a', rfl, rfl, ha.symm⟩

private theorem map_getD_congr {α γ : Type} {v v' : α → γ} {found found' : Option (List α)}
    (h : found.map (List.map v) = found'.map (List.map v')) :
    (found.getD []).map v = (found'.getD []).map v' := by
  rcases none_or_some_of_map_eq h with ⟨rfl, rfl⟩ | ⟨_, _, rfl, rfl, hitems⟩
  · rfl
  · exact hitems

theorem twin_commaList {α γ : Type} {v v' : α → γ} {item item' : Reader α} (hfuel : n ≤ fuel)
    (hfuel' : n ≤ fuel') (h : Twin t t' v v' 1 n item item') :
    Twin t t' (List.map v) (List.map v') 1 n (commaList fuel item) (commaList fuel' item') := by
  have hnext : Twin t t' v v' 1 (n - 1) (do sign ','; item) (do sign ','; item') :=
    (twin_sign rfl).bind fun _ _ _ => (h.mono (by omega)).forget
  refine h.bind fun first first' hfirst => ?_
  refine (hnext.many (by omega) (by omega)).bind fun others others' hothers => twin_pure ?_
  rw [List.map_cons, List.map_cons, hfirst, hothers]

theorem twin_single {α : Type} {scan : Text → Option (α × Nat)} {phrase : Nat → α → Phrase}
    (hcount : t.count '\n' = t'.count '\n') (h : ScansAlike scan)
    (hphrase : ∀ start a, (phrase start a).mapPlaces (lineOf t) = phrase (lineOf t start) a)
    (hphrase' : ∀ start a, (phrase start a).mapPlaces (lineOf t') = phrase (lineOf t' start) a) :
    TwinPhrases t t' 1 n (single scan phrase) (single scan phrase) := by
  refine Twin.part ?_
  refine (twin_place hcount).bind fun start start' hstart => ?_
  refine (twin_token h).bind fun a a' ha => twin_pure ?_
  rw [hphrase, hphrase', hstart, show a = a' from ha]

section

variable {self self' : Reader Phrase} (hcount : t.count '\n' = t'.count '\n') (hfuel : n ≤ fuel)
  (hfuel' : n ≤ fuel') (hself : TwinPhrases t t' 1 (n - 1) self self')
include hfuel hfuel' hself

theorem twin_callArguments : Twin t t' (List.map (Phrase.mapPlaces (lineOf t)))
    (List.map (Phrase.mapPlaces (lineOf t'))) 1 n (callArguments fuel self)
      (callArguments fuel' self') := by
  refine Twin.part ?_
  refine (twin_sign rfl).bind fun _ _ _ => ?_
  refine (twin_commaList (by omega) (by omega) hself).optional.bind fun found found' hfound => ?_
  exact (twin_sign rfl).forget.bind fun _ _ _ => twin_pure (map_getD_congr hfound)

include hcount

theorem twin_arrayLiteral :
    TwinPhrases t t' 1 n (arrayLiteral fuel self) (arrayLiteral fuel' self') := by
  refine Twin.part ?_
  have hitems : Twin t t' (List.map (Phrase.mapPlaces (lineOf t)))
      (List.map (Phrase.mapPlaces (lineOf t'))) 1 (n - 1)
      (do
        let items ← commaList fuel self
        let _ ← optional (sign ',')
        return items)
      (do
        let items ← commaList fuel' self'
        let _ ← optional (sign ',')
        return items) := by
    refine (twin_commaList (by omega) (by omega) hself).bind fun items items' hitems => ?_
    exact (twin_sign rfl).optional.bind fun _ _ _ => twin_pure hitems
  refine (twin_place hcount).bind fun start start' hstart => ?_
  refine (twin_sign rfl).bind fun _ _ _ => ?_
  refine hitems.optional.bind fun found found' hfound => ?_
  refine (twin_sign rfl).forget.bind fun _ _ _ => twin_pure ?_
  simp only [Phrase.mapPlaces, Phrase.mapPlacesAll_eq_map, hstart, map_getD_congr hfound]

theorem twin_construction :
    TwinPhrases t t' 1 n (construction fuel self) (construction fuel' self') := by
  refine Twin.part ?_
  refine (twin_place hcount).bind fun start start' hstart => ?_
  refine (twin_word (by decide)).part.bind fun _ _ _ => ?_
  refine (twin_token staysInLine_identifier?.scansAlike).part.forget.bind fun name name' hname => ?_
  refine (twin_callArguments (by omega) (by omega) (hself.mono (by omega))).optional.bind
    fun found found' hfound => twin_pure ?_
  rw [show name = name' from hname]
  simp only [Phrase.mapPlaces, Phrase.mapPlacesAll_eq_map, hstart, map_getD_congr hfound]

omit hfuel hfuel' in
theorem twin_group : TwinPhrases t t' 1 n (group self) (group self') := by
  refine (twin_place hcount).bind fun start start' hstart => ?_
  refine (twin_sign rfl).bind fun _ _ _ => ?_
  refine hself.forget.bind fun inner inner' hinner => ?_
  refine (twin_sign rfl).forget.bind fun _ _ _ => twin_pure ?_
  simp only [Phrase.mapPlaces, hstart, hinner]

theorem twin_primary : TwinPhrases t t' 1 n (primary fuel self) (primary fuel' self') := by
  refine twin_oneOf (.cons ?number (.cons ?string (.cons ?bool (.cons ?null (.cons ?undefined
    (.cons ?array (.cons ?construct (.cons ?identifier (.cons ?group .nil)))))))))
  case number =>
    exact twin_single hcount staysInLine_number?.scansAlike (fun _ _ => rfl) fun _ _ => rfl
  case string => exact twin_single hcount scansAlike_string? (fun _ _ => rfl) fun _ _ => rfl
  case bool | null | undefined =>
    exact twin_single hcount (staysInLine_wordOf? rfl).scansAlike (fun _ _ => rfl) fun _ _ => rfl
  case array => exact twin_arrayLiteral hcount hfuel hfuel' hself
  case construct => exact twin_construction hcount hfuel hfuel' hself
  case identifier =>
    exact twin_single hcount staysInLine_identifier?.scansAlike (fun _ _ => rfl) fun _ _ => rfl
  case group => exact twin_group hcount hself

theorem twin_suffix {object object' : Phrase}
    (hobject : object.mapPlaces (lineOf t) = object'.mapPlaces (lineOf t')) :
    TwinPhrases t t' 1 n (suffix fuel self object) (suffix fuel' self' object') := by
  refine (twin_place hcount).bind fun start start' hstart => ?_
  refine twin_oneOf (.cons ?_ (.cons (Twin.part ?_) (.cons (Twin.part ?_) .nil)))
  · refine (twin_callArguments hfuel hfuel' hself).bind fun operands operands' h => twin_pure ?_
    simp only [Phrase.mapPlaces, Phrase.mapPlacesAll_eq_map, hstart, hobject, h]
  · refine (twin_sign rfl).bind fun _ _ _ => ?_
    refine hself.forget.bind fun key key' hkey => ?_
    refine (twin_sign rfl).forget.bind fun _ _ _ => twin_pure ?_
    simp only [Phrase.mapPlaces, hstart, hobject, hkey]
  · refine (twin_sign rfl).bind fun _ _ _ => ?_
    refine (twin_place hcount).bind fun namePlace namePlace' hplace => ?_
    refine (twin_token staysInLine_name?.scansAlike).part.forget.bind fun name name' hname =>
      twin_pure ?_
    rw [show name = name' from hname]
    simp only [Phrase.mapPlaces, hstart, hobject, hplace]

theorem twin_suffixed : TwinPhrases t t' 1 n (suffixed fuel self) (suffixed fuel' self') := by
  refine Twin.part ?_
  refine (twin_primary hcount hfuel hfuel' hself).bind fun object object' hobject => ?_
  refine Twin.iterate (fun object object' hobject => ?_) (by omega) (by omega) hobject
  exact twin_suffix hcount (by omega) (by omega) (hself.mono (by omega)) hobject

omit hcount hfuel hfuel' hself in
private theorem mapPlaces_foldr_unary (f : Nat → Nat) (operators : List (Nat × UnaryOperator))
    (operand : Phrase) :
    (operators.foldr (fun (start, operator) operand => .unary start operator operand)
      operand).mapPlaces f =
    (operators.map (Prod.map f id)).foldr (fun (start, operator) operand =>
      .unary start operator operand) (operand.mapPlaces f) := by
  induction operators with
  | nil => rfl
  | cons operator operators ih =>
    rw [List.map_cons, List.foldr_cons, List.foldr_cons, ← ih]
    rfl

theorem twin_unary : TwinPhrases t t' 1 n (unary fuel self) (unary fuel' self') := by
  have hoperator : Twin t t' (Prod.map (lineOf t) id) (Prod.map (lineOf t') id) 1 n
      (part do return (← place, ← token Token.unaryOperator?))
      (part do return (← place, ← token Token.unaryOperator?)) := by
    refine Twin.part ?_
    refine (twin_place hcount).bind fun start start' hstart => ?_
    refine (twin_token staysInLine_unaryOperator?.scansAlike).bind fun operator operator' h =>
      twin_pure ?_
    rw [show operator = operator' from h]
    simp only [Prod.map, hstart]
  refine Twin.part ?_
  refine (hoperator.many hfuel hfuel').bind fun operators operators' hoperators => ?_
  refine (twin_suffixed hcount hfuel hfuel' hself).bind fun operand operand' h => twin_pure ?_
  rw [mapPlaces_foldr_unary, mapPlaces_foldr_unary, hoperators, h]

omit hself in
theorem twin_chain {operand operand' : Reader Phrase} (h : TwinPhrases t t' 1 n operand operand')
    (level : Level) :
    TwinPhrases t t' 1 n (chain fuel level operand) (chain fuel' level operand') := by
  refine Twin.part ?_
  refine h.bind fun first first' hfirst => ?_
  refine Twin.iterate (fun left left' hleft => ?_) (by omega) (by omega) hfirst
  refine (twin_place hcount).bind fun start start' hstart => ?_
  refine (twin_token (staysInLine_binaryOperator? level).scansAlike).part.bind
    fun operator operator' hoperator => ?_
  refine (h.mono (by omega)).forget.bind fun right right' hright => twin_pure ?_
  rw [show operator = operator' from hoperator]
  simp only [Phrase.mapPlaces, hstart, hleft, hright]

theorem twin_binary : TwinPhrases t t' 1 n (binary fuel self) (binary fuel' self') := by
  unfold binary
  generalize [3, 4, 5, 6, 7, 8] = levels
  induction levels with
  | nil => exact twin_unary hcount hfuel hfuel' hself
  | cons level levels ih => exact twin_chain hcount hfuel hfuel' ih level

theorem twin_conditional :
    TwinPhrases t t' 1 n (Grammar.conditional fuel self) (Grammar.conditional fuel' self') := by
  have hbranches : Twin t t'
      (Prod.map (Phrase.mapPlaces (lineOf t)) (Phrase.mapPlaces (lineOf t)))
      (Prod.map (Phrase.mapPlaces (lineOf t')) (Phrase.mapPlaces (lineOf t'))) 1 (n - 1)
      (do sign '?'; let yes ← self; sign ':'; return (yes, ← self))
      (do sign '?'; let yes ← self'; sign ':'; return (yes, ← self')) := by
    refine (twin_sign rfl).bind fun _ _ _ => ?_
    refine (hself.mono (by omega)).forget.bind fun yes yes' hyes => ?_
    refine (twin_sign rfl).forget.bind fun _ _ _ => ?_
    refine (hself.mono (by omega)).forget.bind fun no no' hno => twin_pure ?_
    simp only [Prod.map, hyes, hno]
  refine Twin.part ?_
  refine (twin_binary hcount hfuel hfuel' hself).bind fun test test' htest => ?_
  refine hbranches.optional.bind fun branches branches' h => twin_pure ?_
  -- both have branches or neither has
  rcases none_or_some_of_map_eq h with ⟨rfl, rfl⟩ | ⟨⟨yes, no⟩, ⟨yes', no'⟩, rfl, rfl, heq⟩
  · exact htest
  · obtain ⟨hyes, hno⟩ := Prod.mk.inj heq
    simp only [Phrase.mapPlaces, htest, hyes, hno]

theorem twin_assignment : TwinPhrases t t' 1 n (assignment fuel self) (assignment fuel' self') := by
  have hassigned : Twin t t' (Prod.map id (Phrase.mapPlaces (lineOf t)))
      (Prod.map id (Phrase.mapPlaces (lineOf t'))) 1 (n - 1)
      (do
        let operator ← part (token Token.assignmentOperator?)
        return (operator, ← self))
      (do
        let operator ← part (token Token.assignmentOperator?)
        return (operator, ← self')) := by
    refine (twin_token staysInLine_assignmentOperator?.scansAlike).part.bind
      fun operator operator' hoperator => ?_
    refine (hself.mono (by omega)).forget.bind fun value value' hvalue => twin_pure ?_
    simp only [Prod.map, show operator = operator' from hoperator, hvalue]
  refine Twin.part ?_
  refine (twin_conditional hcount hfuel hfuel' hself).bind fun target target' htarget => ?_
  refine hassigned.optional.bind fun assigned assigned' h => twin_pure ?_
  rcases none_or_some_of_map_eq h with
    ⟨rfl, rfl⟩ | ⟨⟨operator, value⟩, ⟨operator', value'⟩, rfl, rfl, heq⟩
  · exact htarget
  · obtain ⟨hoperator, hvalue⟩ := Prod.mk.inj heq
    rw [show operator = operator' from hoperator]
    simp only [Phrase.mapPlaces, htarget, hvalue]

end

section

variable (hcount : t.count '\n' = t'.count '\n')
include hcount

/-- A phrase needs no more nested readings than there is ahead. -/
theorem twin_phrase {depth depth' : Nat} (hfuel : n ≤ fuel) (hfuel' : n ≤ fuel')
    (hdepth : n ≤ depth) (hdepth' : n ≤ depth') : TwinPhrases t t' 1 n (phrase fuel depth) (phrase fuel' depth') := by
  -- a nested phrase is read behind a token, so there is less ahead of it
  induction n generalizing depth depth' with
  | zero => exact twin_zero
  | succ n ih =>
    obtain ⟨depth, rfl⟩ : ∃ m, depth = m + 1 := ⟨depth - 1, by omega⟩
    obtain ⟨depth', rfl⟩ : ∃ m, depth' = m + 1 := ⟨depth' - 1, by omega⟩
    refine twin_assignment hcount hfuel hfuel' ?_
    exact ih (by omega) (by omega) (Nat.le_of_succ_le_succ hdepth) (Nat.le_of_succ_le_succ hdepth')

theorem twin_expression (hfuel : n ≤ fuel) (hfuel' : n ≤ fuel') :
    TwinPhrases t t' 1 n (expression fuel) (expression fuel') :=
  twin_phrase hcount hfuel hfuel' hfuel hfuel'

end

/-! ## Statements -/

/-- The readers find sentences with the same tokens on the same lines. -/
abbrev TwinSentences (t t' : Text) (k n : Nat) (r r' : Reader Sentence) : Prop :=
  Twin t t' (Sentence.mapPlaces (lineOf t)) (Sentence.mapPlaces (lineOf t')) k n r r'

/-- A declarator with its offsets moved. -/
abbrev movedDeclarator (f : Nat → Nat) : Declarator Phrase Nat → Declarator Phrase Nat :=
  Declarator.map (Phrase.mapPlaces f) f

section

variable {self self' : Reader Sentence} (hcount : t.count '\n' = t'.count '\n') (hfuel : n ≤ fuel)
  (hfuel' : n ≤ fuel')

include hfuel hfuel'

theorem twin_braces (hself : TwinSentences t t' 1 (n - 1) self self') :
    Twin t t' (List.map (Sentence.mapPlaces (lineOf t))) (List.map (Sentence.mapPlaces (lineOf t')))
      1 n (braces fuel self) (braces fuel' self') := by
  refine Twin.part ?_
  refine (twin_sign rfl).bind fun _ _ _ => ?_
  refine (hself.many (by omega) (by omega)).bind fun body body' hbody => ?_
  exact (twin_sign rfl).forget.bind fun _ _ _ => twin_pure hbody

theorem twin_parameters : Twin t t' id id 1 n (parameters fuel) (parameters fuel') := by
  refine Twin.part ?_
  refine (twin_sign rfl).bind fun _ _ _ => ?_
  refine (twin_commaList (by omega) (by omega)
    (twin_token staysInLine_identifier?.scansAlike).part).optional.bind fun found found' h => ?_
  refine (twin_sign rfl).forget.bind fun _ _ _ => twin_pure ?_
  simpa using map_getD_congr h

include hcount

theorem twin_function (hself : TwinSentences t t' 1 (n - 1) self self') :
    TwinSentences t t' 1 n (Grammar.function fuel self) (Grammar.function fuel' self') := by
  refine Twin.part ?_
  refine (twin_place hcount).bind fun start start' hstart => ?_
  refine (twin_word (by decide)).part.optional.bind fun mark mark' hmark => ?_
  refine (twin_word (by decide)).part.bind fun _ _ _ => ?_
  refine (twin_place hcount).bind fun namePlace namePlace' hplace => ?_
  refine (twin_token staysInLine_identifier?.scansAlike).part.forget.bind fun name name' hname => ?_
  refine (twin_parameters (by omega) (by omega)).forget.bind fun names names' hnames => ?_
  refine (twin_braces (by omega) (by omega) (hself.mono (by omega))).forget.bind
    fun body body' hbody => twin_pure ?_
  rw [Option.map_id, id, id] at hmark
  simp only [Statement.map, Statement.mapAll_eq_map, hstart, hplace, hmark, hbody,
    show name = name' from hname, show names = names' from hnames]

theorem twin_tested {keyword : Text} (hkeyword : keyword ≠ []) :
    TwinPhrases t t' 1 n (tested fuel keyword) (tested fuel' keyword) := by
  refine (twin_word hkeyword).part.bind fun _ _ _ => ?_
  refine (twin_sign rfl).forget.bind fun _ _ _ => ?_
  refine (twin_expression hcount (by omega) (by omega)).forget.bind fun test test' htest => ?_
  exact (twin_sign rfl).forget.bind fun _ _ _ => twin_pure htest

theorem twin_branch (hself : TwinSentences t t' 1 (n - 1) self self') :
    TwinSentences t t' 1 n (branch fuel self) (branch fuel' self') := by
  have helse : TwinSentences t t' 1 (n - 1) (do part (word (text "else")); self)
      (do part (word (text "else")); self') :=
    (twin_word (by decide)).part.bind fun _ _ _ => (hself.mono (by omega)).forget
  refine Twin.part ?_
  refine (twin_tested hcount hfuel hfuel' (by decide)).bind fun test test' htest => ?_
  refine (hself.mono (by omega)).forget.bind fun yes yes' hyes => ?_
  refine (helse.mono (by omega)).optional.bind fun no no' hno => twin_pure ?_
  rcases none_or_some_of_map_eq hno with ⟨rfl, rfl⟩ | ⟨no, no', rfl, rfl, heq⟩
  · simp only [Statement.map, htest, hyes]
  · simp only [Statement.map, htest, hyes, heq]

theorem twin_whileLoop (hself : TwinSentences t t' 1 (n - 1) self self') :
    TwinSentences t t' 1 n (whileLoop fuel self) (whileLoop fuel' self') := by
  refine Twin.part ?_
  refine (twin_tested hcount hfuel hfuel' (by decide)).bind fun test test' htest => ?_
  refine (hself.mono (by omega)).forget.bind fun body body' hbody => twin_pure ?_
  simp only [Statement.map, htest, hbody]

theorem twin_declarator : Twin t t' (movedDeclarator (lineOf t)) (movedDeclarator (lineOf t')) 1 n
    (declarator fuel) (declarator fuel') := by
  have hinit : TwinPhrases t t' 1 (n - 1) (do sign '='; expression fuel)
      (do sign '='; expression fuel') :=
    (twin_sign rfl).bind fun _ _ _ => (twin_expression hcount (by omega) (by omega)).forget
  refine Twin.part ?_
  refine (twin_place hcount).bind fun start start' hstart => ?_
  refine (twin_token staysInLine_identifier?.scansAlike).part.bind fun name name' hname => ?_
  refine hinit.optional.bind fun value value' hvalue => twin_pure ?_
  simp only [Declarator.map, hstart, hvalue, show name = name' from hname]

theorem twin_declaration : Twin t t' (Prod.map id (List.map (movedDeclarator (lineOf t))))
    (Prod.map id (List.map (movedDeclarator (lineOf t')))) 1 n (declaration fuel)
      (declaration fuel') := by
  refine Twin.part ?_
  refine (twin_token (staysInLine_wordOf? rfl).scansAlike).part.bind fun kind kind' hkind => ?_
  refine (twin_commaList (by omega) (by omega)
    (twin_declarator hcount (by omega) (by omega))).forget.bind fun ds ds' hds => twin_pure ?_
  simp only [Prod.map, hds, show kind = kind' from hkind]

theorem twin_loopStart :
    Twin t t' (LoopStart.map (Phrase.mapPlaces (lineOf t)) (lineOf t))
      (LoopStart.map (Phrase.mapPlaces (lineOf t')) (lineOf t')) 1 n (loopStart fuel)
      (loopStart fuel') := by
  refine Twin.part (Twin.orElse ?_ ?_)
  · refine (twin_declaration hcount hfuel hfuel').bind fun found found' hfound => twin_pure ?_
    obtain ⟨hkind, hds⟩ := Prod.mk.inj hfound
    simp only [LoopStart.map, hds, show found.1 = found'.1 from hkind]
  · refine (twin_expression hcount hfuel hfuel').bind fun e e' he => twin_pure ?_
    simp only [LoopStart.map, he]

theorem twin_forLoop (hself : TwinSentences t t' 1 (n - 1) self self') :
    TwinSentences t t' 1 n (forLoop fuel self) (forLoop fuel' self') := by
  refine Twin.part ?_
  refine (twin_place hcount).bind fun start start' hstart => ?_
  refine (twin_word (by decide)).part.bind fun _ _ _ => ?_
  refine (twin_sign rfl).forget.bind fun _ _ _ => ?_
  refine (twin_loopStart hcount (by omega) (by omega)).optional.bind fun init init' hinit => ?_
  refine (twin_sign rfl).forget.bind fun _ _ _ => ?_
  refine (twin_expression hcount (by omega) (by omega)).optional.bind fun test test' htest => ?_
  refine (twin_sign rfl).forget.bind fun _ _ _ => ?_
  refine (twin_expression hcount (by omega) (by omega)).optional.bind
    fun update update' hupdate => ?_
  refine (twin_sign rfl).forget.bind fun _ _ _ => ?_
  refine (hself.mono (by omega)).forget.bind fun body body' hbody => twin_pure ?_
  simp only [Statement.map, hstart, hinit, htest, hupdate, hbody]

theorem twin_sentence (hself : TwinSentences t t' 1 (n - 1) self self') :
    TwinSentences t t' 1 n (sentence fuel self) (sentence fuel' self') := by
  -- the alternatives are paired in their order
  refine twin_oneOf (.cons ?block (.cons ?function (.cons ?branch (.cons ?whileLoop (.cons ?forLoop
    (.cons (Twin.part ?declaration) (.cons (Twin.part ?returning) (.cons (Twin.part ?breaking)
      (.cons (Twin.part ?continuing) (.cons (Twin.part ?empty)
        (.cons (Twin.part ?expression) .nil)))))))))))
  case block =>
    refine (twin_braces hfuel hfuel' hself).bind fun body body' hbody => twin_pure ?_
    simp only [Statement.map, Statement.mapAll_eq_map, hbody]
  case function => exact twin_function hcount hfuel hfuel' hself
  case branch => exact twin_branch hcount hfuel hfuel' hself
  case whileLoop => exact twin_whileLoop hcount hfuel hfuel' hself
  case forLoop => exact twin_forLoop hcount hfuel hfuel' hself
  case declaration =>
    refine (twin_declaration hcount hfuel hfuel').bind fun found found' hfound => ?_
    refine (twin_sign rfl).forget.bind fun _ _ _ => twin_pure ?_
    obtain ⟨hkind, hds⟩ := Prod.mk.inj hfound
    simp only [Statement.map, hds, show found.1 = found'.1 from hkind]
  case returning =>
    refine (twin_place hcount).bind fun start start' hstart => ?_
    refine (twin_word (by decide)).part.bind fun _ _ _ => ?_
    refine (twin_expression hcount (by omega) (by omega)).optional.bind
      fun value value' hvalue => ?_
    refine (twin_sign rfl).forget.bind fun _ _ _ => twin_pure ?_
    simp only [Statement.map, hstart, hvalue]
  case breaking | continuing =>
    refine (twin_place hcount).bind fun start start' hstart => ?_
    refine (twin_word (by decide)).part.bind fun _ _ _ => ?_
    refine (twin_sign rfl).forget.bind fun _ _ _ => twin_pure ?_
    simp only [Statement.map, hstart]
  case empty => exact (twin_sign rfl).bind fun _ _ _ => twin_pure rfl
  case expression =>
    refine (twin_expression hcount hfuel hfuel').bind fun e e' he => ?_
    refine (twin_sign rfl).forget.bind fun _ _ _ => twin_pure ?_
    simp only [Statement.map, he]

end

/-- A statement needs no more nested readings than there is ahead. -/
theorem twin_statement (hcount : t.count '\n' = t'.count '\n') {depth depth' : Nat}
    (hfuel : n ≤ fuel) (hfuel' : n ≤ fuel') (hdepth : n ≤ depth) (hdepth' : n ≤ depth') :
    TwinSentences t t' 1 n (statement fuel depth) (statement fuel' depth') := by
  induction n generalizing depth depth' with
  | zero => exact twin_zero
  | succ n ih =>
    obtain ⟨depth, rfl⟩ : ∃ m, depth = m + 1 := ⟨depth - 1, by omega⟩
    obtain ⟨depth', rfl⟩ : ∃ m, depth' = m + 1 := ⟨depth' - 1, by omega⟩
    refine twin_sentence hcount hfuel hfuel' ?_
    exact ih (by omega) (by omega) (Nat.le_of_succ_le_succ hdepth) (Nat.le_of_succ_le_succ hdepth')

theorem twin_program (hcount : t.count '\n' = t'.count '\n') (hfuel : n ≤ fuel) (hfuel' : n ≤ fuel') :
    Twin t t' (List.map (Sentence.mapPlaces (lineOf t))) (List.map (Sentence.mapPlaces (lineOf t'))) 0
      n (program fuel) (program fuel') := by
  refine ((twin_statement hcount hfuel hfuel' hfuel hfuel').many hfuel hfuel').bind
    fun statements statements' h => ?_
  exact twin_finished.part.bind fun _ _ _ => twin_pure h

end Grammar

/-! ## Texts -/

/-- The first token of alike texts. -/
theorem abreast_ofText {t t' : Text} (h : Alike t t') (hstrings : HoldsStrings t) :
    Abreast t t' (Cursor.ofText t) (Cursor.ofText t') where
  isFrom := Cursor.isFrom_ofText t
  isFrom' := Cursor.isFrom_ofText t'
  alike := h.skip
  strings := hstrings.suffix (List.drop_suffix _ _)

/-- Alike texts are read alike: neither is a script, or their statements have the same tokens on the
    same lines. -/
theorem read_alike {t t' : Text} (h : Alike t t') (hstrings : HoldsStrings t) :
    (∃ reach reach', read t = .error reach ∧ read t' = .error reach') ∨
      ∃ ss ss', read t = .ok ss ∧ read t' = .ok ss' ∧
        ss.map (Sentence.mapPlaces (lineOf t)) = ss'.map (Sentence.mapPlaces (lineOf t')) := by
  -- both fuels are the lengths of the texts, and what is ahead of both readers is the same
  have hlt : weight (Cursor.ofText t).rest < weight t + 1 :=
    Nat.lt_succ_of_le (Reader.weight_skip_le t)
  have hfuel : weight t + 1 ≤ t.length + 1 := Nat.succ_le_succ (weight_le_length t)
  have hfuel' : weight t + 1 ≤ t'.length + 1 := by
    rw [h.weight_eq]
    exact Nat.succ_le_succ (weight_le_length t')
  have htwin :=
    Grammar.twin_program h.count_newline hfuel hfuel' _ _ (abreast_ofText h hstrings) hlt
  unfold read
  rcases hreading : Grammar.program (t.length + 1) (Cursor.ofText t) with ⟨result, reach⟩
  rcases hreading' : Grammar.program (t'.length + 1) (Cursor.ofText t') with ⟨result', reach'⟩
  rw [hreading, hreading'] at htwin
  rcases htwin.eq_none_or_eq_some with ⟨hr, hr'⟩ | ⟨_, _, hr, hr', hview, -, -⟩
  · dsimp only at hr hr'
    rw [hr, hr']
    exact .inl ⟨reach, reach', rfl, rfl⟩
  · dsimp only at hr hr'
    rw [hr, hr']
    exact .inr ⟨_, _, rfl, rfl, hview⟩

/-- Alike texts are parsed to programs that agree up to columns. -/
theorem Program.agree_of_alike {t t' : Text} (h : Alike t t') (hstrings : HoldsStrings t) :
    Program.Agree (Program.parse t) (Program.parse t') := by
  rcases read_alike h hstrings with ⟨reach, reach', hread, hread'⟩ | ⟨ss, ss', hread, hread', heq⟩
  · rw [Program.parse_of_read_error hread, Program.parse_of_read_error hread']
    exact .failed _ _
  · exact Program.agree_parse_of_read h.count_newline hread hread' heq

end Pseudocode.Script
