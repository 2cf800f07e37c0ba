import Pseudocode.Proofs.Enclosure

/-!
# Readers on their way through a text

A reader goes from token to token. What is kept from one token to the next holds wherever a reader
gets to, and what is known of the tokens is known of all places in what it finds.

* `Reader.Surveys`       what a property of places says about tokens
* `Reader.Finds`         a reader keeps a property of places, and what it finds has a property
* `Reader.BeginsToken`   a reader finds nothing at a closing brace, or at the end of the text

What a reader tries is understood as far as what it tries first. The lemmas about `Reading.reach` say
so for each way of putting readers together.
-/

namespace Pseudocode.Script

namespace Reader

/-- A property of places that is kept from one token to the next, and what it says about the offset
    of a token. No place is that of a closing brace. -/
structure Surveys (I : Cursor → Prop) (Q : Nat → Prop) : Prop where
  next : ∀ c n, I c → I (c.advance n).skipGap
  place : ∀ c first r, I c → c.rest = first :: r → first ≠ '\x7d' → Q c.offset

section

variable {α β : Type} {I : Cursor → Prop} {Q : Nat → Prop} {P P' : α → Prop} {R : β → Prop}
  {r s : Reader α} {f : α → Reader β} {step : α → Reader α} {scan : Text → Option (α × Nat)}

theorem oneOf_eq_some {readers : List (Reader α)} {c : Cursor} {found : α × Cursor}
    (h : (oneOf readers c).result = some found) : ∃ r ∈ readers, (r c).result = some found := by
  induction readers with
  | nil => cases h
  | cons r readers ih =>
    rw [show oneOf (r :: readers) = orElse r (oneOf readers) from rfl, result_orElse,
      Option.or_eq_some_iff] at h
    rcases h with hr | ⟨-, hothers⟩
    · exact ⟨r, List.mem_cons_self, hr⟩
    · obtain ⟨s, hs, hread⟩ := ih hothers
      exact ⟨s, List.mem_cons_of_mem _ hs, hread⟩

/-- The reader keeps the property of places, and what it finds has a property. -/
def Finds (I : Cursor → Prop) (P : α → Prop) (r : Reader α) : Prop :=
  ∀ c a c', I c → (r c).result = some (a, c') → P a ∧ I c'

/-- The reader finds nothing at a closing brace, or at the end of the text. -/
def BeginsToken (r : Reader α) : Prop :=
  ∀ c found, (r c).result = some found → ∃ first rest, c.rest = first :: rest ∧ first ≠ '\x7d'

theorem Finds.mono (h : Finds I P r) (hPP' : ∀ a, P a → P' a) : Finds I P' r := by
  intro c a c' hI hresult
  obtain ⟨ha, hI'⟩ := h c a c' hI hresult
  exact ⟨hPP' a ha, hI'⟩

theorem finds_pure {a : α} (ha : P a) : Finds I P (pure a) := by
  intro c a' c' hI hresult
  obtain ⟨rfl, rfl⟩ := Prod.mk.inj (Option.some.inj hresult)
  exact ⟨ha, hI⟩

theorem finds_fail : Finds I P (fail : Reader α) := fun _ _ _ _ h => by cases h

theorem Finds.bind (h : Finds I P r) (hf : ∀ a, P a → Finds I R (f a)) : Finds I R (r >>= f) := by
  intro c b c'' hI hresult
  rw [result_bind, Option.bind_eq_some_iff] at hresult
  obtain ⟨⟨a, c'⟩, hr, hb⟩ := hresult
  obtain ⟨ha, hI'⟩ := h c a c' hI hr
  exact hf a ha c' b c'' hI' hb

theorem Finds.part (h : Finds I P r) : Finds I P (part r) := by
  intro c a c' hI hresult
  rw [result_part] at hresult
  exact h c a c' hI hresult

theorem Finds.orElse (h : Finds I P r) (hs : Finds I P s) : Finds I P (orElse r s) := by
  intro c a c' hI hresult
  rw [result_orElse, Option.or_eq_some_iff] at hresult
  rcases hresult with hr | ⟨-, hs'⟩
  · exact h c a c' hI hr
  · exact hs c a c' hI hs'

theorem finds_oneOf {readers : List (Reader α)} (h : ∀ r ∈ readers, Finds I P r) :
    Finds I P (oneOf readers) := by
  induction readers with
  | nil => exact finds_fail
  | cons r readers ih =>
    rw [List.forall_mem_cons] at h
    exact h.1.orElse (ih h.2)

theorem Finds.optional (h : Finds I P r) : Finds I (fun found => ∀ a ∈ found, P a) (optional r) := by
  intro c found c' hI hresult
  rw [result_optional] at hresult
  cases hr : (r c).result with
  | none =>
    rw [hr] at hresult
    obtain ⟨rfl, rfl⟩ := Prod.mk.inj (Option.some.inj hresult)
    exact ⟨by simp, hI⟩
  | some next =>
    rw [hr] at hresult
    obtain ⟨rfl, rfl⟩ := Prod.mk.inj (Option.some.inj hresult)
    obtain ⟨ha, hI'⟩ := h c _ _ hI hr
    exact ⟨fun a hmem => Option.mem_some_iff.1 hmem ▸ ha, hI'⟩

theorem Finds.iterate (h : ∀ a, P a → Finds I P (step a)) {a : α} (ha : P a) (fuel : Nat) :
    Finds I P (iterate step fuel a) := by
  induction fuel generalizing a with
  | zero => exact finds_pure ha
  | succ fuel ih =>
    intro c b c'' hI hresult
    rw [result_iterate_succ] at hresult
    cases hr : (step a c).result with
    | none =>
      rw [hr] at hresult
      obtain ⟨rfl, rfl⟩ := Prod.mk.inj (Option.some.inj hresult)
      exact ⟨ha, hI⟩
    | some next =>
      rw [hr] at hresult
      obtain ⟨hnext, hI'⟩ := h a ha c _ _ hI hr
      exact ih hnext _ _ _ hI' hresult

theorem Finds.many (h : Finds I P r) (fuel : Nat) :
    Finds I (fun found => ∀ a ∈ found, P a) (many fuel r) := by
  refine Finds.bind (P := fun found => ∀ a ∈ found, P a) ?_ fun found hfound =>
    finds_pure fun a ha => hfound a (List.mem_reverse.1 ha)
  refine Finds.iterate (fun found hfound => ?_) (fun a ha => by cases ha) fuel
  exact h.bind fun a ha => finds_pure (List.forall_mem_cons.2 ⟨ha, hfound⟩)

/-- A token leads to the next one. -/
theorem Surveys.token (hI : Surveys I Q) (h : ∀ t a n, scan t = some (a, n) → P a) :
    Finds I P (token scan) := by
  intro c a c' hc hresult
  rw [result_token] at hresult
  obtain ⟨⟨a', n⟩, hscan, heq⟩ := Option.map_eq_some_iff.1 hresult
  obtain ⟨rfl, rfl⟩ := Prod.mk.inj heq
  exact ⟨h _ _ _ hscan, hI.next c n hc⟩

theorem Surveys.sign (hI : Surveys I Q) (s : Char) : Finds I (fun _ => True) (sign s) :=
  hI.token fun _ _ _ _ => trivial

theorem Surveys.word (hI : Surveys I Q) (w : Text) : Finds I (fun _ => True) (word w) :=
  hI.token fun _ _ _ _ => trivial

/-- The place before a token is that of the token. -/
theorem Surveys.place_bind (hI : Surveys I Q) {f : Nat → Reader β} (hbegins : ∀ p, BeginsToken (f p))
    (hf : ∀ p, Q p → Finds I R (f p)) : Finds I R (Reader.place >>= f) := by
  intro c b c' hc hresult
  rw [result_bind, result_place] at hresult
  obtain ⟨first, rest, hrest, hfirst⟩ := hbegins c.offset c (b, c') hresult
  exact hf c.offset (hI.place c first rest hc hrest hfirst) c b c' hc hresult

theorem BeginsToken.bind (h : BeginsToken r) : BeginsToken (r >>= f) := by
  intro c found hresult
  rw [result_bind, Option.bind_eq_some_iff] at hresult
  obtain ⟨next, hr, -⟩ := hresult
  exact h c next hr

theorem BeginsToken.part (h : BeginsToken r) : BeginsToken (part r) := by
  intro c found hresult
  rw [result_part] at hresult
  exact h c found hresult

theorem BeginsToken.optional_bind {f : Option α → Reader β} (h : BeginsToken r)
    (hf : BeginsToken (f none)) : BeginsToken (optional r >>= f) := by
  intro c found hresult
  rw [result_bind, result_optional] at hresult
  cases hr : (r c).result with
  | none =>
    rw [hr] at hresult
    exact hf c found hresult
  | some next => exact h c next hr

theorem beginsToken_oneOf {readers : List (Reader α)} (h : ∀ r ∈ readers, BeginsToken r) :
    BeginsToken (oneOf readers) := by
  intro c found hresult
  obtain ⟨r, hr, hread⟩ := oneOf_eq_some hresult
  exact h r hr c found hread

theorem beginsToken_token (hnil : scan [] = none) (hbrace : ∀ t, scan ('\x7d' :: t) = none) :
    BeginsToken (token scan) := by
  intro c found hresult
  rw [result_token] at hresult
  obtain ⟨next, hscan, -⟩ := Option.map_eq_some_iff.1 hresult
  cases hrest : c.rest with
  | nil => simp [hrest, hnil] at hscan
  | cons first rest =>
    refine ⟨first, rest, rfl, ?_⟩
    rintro rfl
    simp [hrest, hbrace] at hscan

theorem beginsToken_sign {s : Char} (h : s ≠ '\x7d') : BeginsToken (sign s) :=
  beginsToken_token (by simp) fun t => by simpa using h.symm

theorem beginsToken_wordOf? {table : List (Text × α)} (h : table.lookup [] = none) :
    BeginsToken (token (Token.wordOf? table)) := by
  refine beginsToken_token ?_ fun t => ?_
  · simp [Token.wordOf?, wordStart, h]
  · have hword : wordStart ('\x7d' :: t) = [] := rfl
    simp [Token.wordOf?, hword, h]

theorem beginsToken_word {w : Text} (h : w ≠ []) : BeginsToken (word w) :=
  beginsToken_token (by simpa [wordStart] using h.symm) fun t => by
    have hword : wordStart ('\x7d' :: t) = [] := rfl
    simpa [hword] using h.symm

theorem beginsToken_name? : BeginsToken (token Token.name?) := beginsToken_token rfl fun _ => rfl

theorem beginsToken_identifier? : BeginsToken (token Token.identifier?) :=
  beginsToken_token rfl fun _ => rfl

theorem beginsToken_unaryOperator? : BeginsToken (token Token.unaryOperator?) :=
  beginsToken_token rfl fun _ => rfl

theorem beginsToken_binaryOperator? (level : Level) :
    BeginsToken (token (Token.binaryOperator? level)) :=
  beginsToken_token (binaryOperator?_nil level) fun t => binaryOperator?_eq_none (by decide) level t

/-! ## Reaches -/

variable {c : Cursor}

theorem reach_le_bind : (r c).reach ≤ ((r >>= f) c).reach := by
  simp only [Bind.bind, andThen]
  split
  · rename_i hr
    rw [hr]
  · rename_i hr
    rw [hr]
    exact Nat.le_max_left _ _

/-- The second of two readers counts if the first one reads. -/
theorem reach_le_bind_of_eq_some {a : α} {c' : Cursor} (h : (r c).result = some (a, c')) :
    (f a c').reach ≤ ((r >>= f) c).reach := by
  simp only [Bind.bind, andThen]
  split
  · rename_i hr
    rw [hr] at h
    cases h
  · rename_i hr
    rw [hr] at h
    obtain ⟨rfl, rfl⟩ := Prod.mk.inj (Option.some.inj h)
    exact Nat.le_max_right _ _

theorem reach_le_part : (r c).reach ≤ (part r c).reach := by
  simp only [part]
  split
  · rename_i hr
    rw [hr]
    exact Nat.le_max_left _ _
  · exact Nat.le_refl _

/-- A part of the grammar that is missing is missed where it was expected. -/
theorem offset_le_reach_part (h : (r c).result = none) : c.offset ≤ (part r c).reach := by
  simp only [part]
  split
  · exact Nat.le_max_right _ _
  · rename_i hne
    exact absurd (show r c = ⟨none, (r c).reach⟩ by rw [← h]) (hne _)

theorem reach_le_orElse : (r c).reach ≤ (orElse r s c).reach := by
  simp only [orElse]
  split
  · rename_i hr
    rw [hr]
  · rename_i hr
    rw [hr]
    exact Nat.le_max_left _ _

/-- The second of two alternatives counts if the first one does not read. -/
theorem reach_le_orElse_of_eq_none (h : (r c).result = none) :
    (s c).reach ≤ (orElse r s c).reach := by
  simp only [orElse]
  split
  · rename_i hr
    rw [hr] at h
    cases h
  · exact Nat.le_max_right _ _

theorem reach_le_many (fuel : Nat) : (r c).reach ≤ (many (fuel + 1) r c).reach := by
  refine Nat.le_trans ?_ reach_le_bind
  simp only [iterate]
  have hfirst : (r c).reach ≤ ((do return (← r) :: [] : Reader (List α)) c).reach := reach_le_bind
  split
  · rename_i hr
    rw [hr] at hfirst
    exact Nat.le_trans hfirst (Nat.le_max_left _ _)
  · rename_i hr
    rw [hr] at hfirst
    exact hfirst

end

end Reader

/-! ## Lists -/

namespace Grammar

open Reader

variable {I : Cursor → Prop} {Q : Nat → Prop} {fuel : Nat} (hI : Surveys I Q)
include hI

theorem finds_commaList {α : Type} {P : α → Prop} {item : Reader α} (h : Finds I P item) :
    Finds I (fun items => ∀ a ∈ items, P a) (commaList fuel item) := by
  refine h.bind fun first hfirst => ?_
  refine (Finds.many ((hI.sign ',').bind fun _ _ => h) fuel).bind fun others hothers => ?_
  exact finds_pure (List.forall_mem_cons.2 ⟨hfirst, hothers⟩)

theorem finds_parameters : Finds I (fun _ => True) (parameters fuel) := by
  have hname : Finds I (fun _ => True) (part (token Token.identifier?)) :=
    (hI.token fun _ _ _ _ => trivial).part
  refine Finds.part ?_
  refine (hI.sign '(').bind fun _ _ => ?_
  refine (finds_commaList hI hname).optional.bind fun _ _ => ?_
  exact (hI.sign ')').bind fun _ _ => finds_pure trivial

end Grammar

end Pseudocode.Script
