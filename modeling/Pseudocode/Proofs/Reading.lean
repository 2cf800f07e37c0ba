import Mathlib.Data.List.Forall2
import Pseudocode.Proofs.Text
import Pseudocode.Script.Grammar

/-!
# What a reader reads

A reading has a value, a rest and offsets. Whether a reader reads, and what it leaves, depends on
the text alone and never on the offset, so both are stated for a text at every offset:

* `Reads r t P rest`  the reader takes the beginning of `t`, leaves `rest`, and its value has `P`
* `Fails r t`         the reader takes nothing of `t`

Every combinator has a lemma for each way it can go. `skip` is the white space and the comments
behind a token, and the tokens have a lemma for the text that they are spelled with.
-/

namespace Pseudocode.Script

/-! ## White space and comments -/

/-- What is left of a text behind the white space and the comments that it begins with. -/
def skip (t : Text) : Text := t.drop (gapLength 0 t)

@[simp] theorem skip_nil : skip [] = [] := rfl

theorem skip_cons_of_isGap {c : Char} (h : isGap c = true) (t : Text) : skip (c :: t) = skip t := by
  simp only [skip, gapLength, h, ↓reduceIte]
  rw [Nat.add_comm, List.drop_succ_cons]

@[simp] theorem skip_space (t : Text) : skip (' ' :: t) = skip t := skip_cons_of_isGap rfl t

@[simp] theorem skip_newline (t : Text) : skip ('\n' :: t) = skip t := skip_cons_of_isGap rfl t

@[simp] theorem skip_spaces (n : Nat) (t : Text) : skip (List.replicate n ' ' ++ t) = skip t := by
  induction n with
  | zero => rfl
  | succ n ih =>
    rw [List.replicate_succ, List.cons_append, skip_space, ih]

/-- A character that is neither white space nor opens a comment is kept. -/
theorem skip_cons_of_token {c : Char} (hgap : isGap c = false) (hslash : c ≠ '/') (t : Text) :
    skip (c :: t) = c :: t := by
  have hcomment : commentLength? (c :: t) = none := by
    unfold commentLength?
    split
    · simp_all
    · simp_all
    · rfl
  simp only [skip, gapLength, hgap, hcomment, Bool.false_eq_true, ↓reduceIte, List.drop_zero]

/-- The characters of a comment count, whatever they are. -/
theorem gapLength_inside (s t : Text) : gapLength s.length (s ++ t) = s.length + gapLength 0 t := by
  induction s with
  | nil => simp
  | cons c s ih =>
    simp only [List.length_cons, List.cons_append, gapLength]
    rw [ih]
    omega

/-- A comment goes to the end of its line. -/
theorem skip_comment {note : Text} (h : '\n' ∉ note) (t : Text) :
    skip ('/' :: '/' :: (note ++ '\n' :: t)) = skip t := by
  have hnote : (note ++ '\n' :: t).takeWhile (· ≠ '\n') = note := by
    refine Text.takeWhile_append_of_ends (fun c hc => ?_) (by simp)
    have hne : c ≠ '\n' := ne_of_mem_of_not_mem hc h
    simpa using hne
  have hlength : commentLength? ('/' :: '/' :: (note ++ '\n' :: t)) = some (1 + note.length + 1) := by
    simp only [commentLength?, hnote]
    congr 1
    omega
  -- the second slash and the note are inside of the comment that the first slash opens
  have hinside := gapLength_inside ('/' :: note) ('\n' :: t)
  rw [List.length_cons, List.cons_append, Nat.add_comm note.length] at hinside
  have hgap : isGap '/' = false := rfl
  rw [← skip_newline t]
  unfold skip
  rw [gapLength]
  simp only [hgap, hlength, hinside, Bool.false_eq_true, ↓reduceIte]
  rw [show 1 + (1 + note.length + gapLength 0 ('\n' :: t))
      = gapLength 0 ('\n' :: t) + note.length + 1 + 1 by omega, List.drop_succ_cons,
    List.drop_succ_cons, Nat.add_comm, ← List.drop_drop, List.drop_left]

/-- A text that begins with a token is read from its first character on. -/
theorem Cursor.ofText_of_skip {t : Text} (h : skip t = t) :
    Cursor.ofText t = ⟨t, 0 + gapLength 0 t⟩ := by
  show Cursor.mk (skip t) (0 + gapLength 0 t) = _
  rw [h]

/-! ## Readers -/

namespace Reader

variable {α β : Type}

/-- The reader takes the beginning of the text and leaves the rest, wherever the text stands, and
    the value that it finds has the property. -/
def Reads (r : Reader α) (t : Text) (P : α → Prop) (rest : Text) : Prop :=
  ∀ offset, ∃ a offset' reach, r ⟨t, offset⟩ = ⟨some (a, ⟨rest, offset'⟩), reach⟩ ∧ P a

/-- The reader finds nothing at the beginning of the text. -/
def Fails (r : Reader α) (t : Text) : Prop := ∀ offset, ∃ reach, r ⟨t, offset⟩ = ⟨none, reach⟩

section

variable {r s : Reader α} {f : α → Reader β} {t mid rest : Text} {P Q : α → Prop} {R : β → Prop}

theorem Reads.mono (h : Reads r t P rest) (hPQ : ∀ a, P a → Q a) : Reads r t Q rest := by
  intro offset
  obtain ⟨a, offset', reach, hr, ha⟩ := h offset
  exact ⟨a, offset', reach, hr, hPQ a ha⟩

theorem reads_pure {a : α} (h : P a) : Reads (pure a) t P t :=
  fun offset => ⟨a, offset, 0, rfl, h⟩

theorem reads_place {P : Nat → Prop} (h : ∀ n, P n) : Reads place t P t :=
  fun offset => ⟨offset, offset, 0, rfl, h offset⟩

theorem Reads.bind (h : Reads r t P mid) (hf : ∀ a, P a → Reads (f a) mid R rest) :
    Reads (r >>= f) t R rest := by
  intro offset
  obtain ⟨a, offset', reach, hr, ha⟩ := h offset
  obtain ⟨b, offset'', reach', hb, hR⟩ := hf a ha offset'
  refine ⟨b, offset'', max reach reach', ?_, hR⟩
  show andThen r f _ = _
  simp only [andThen, hr, hb]

theorem Fails.bind (h : Fails r t) : Fails (r >>= f) t := by
  intro offset
  obtain ⟨reach, hr⟩ := h offset
  refine ⟨reach, ?_⟩
  show andThen r f _ = _
  simp only [andThen, hr]

theorem Reads.bind_fails (h : Reads r t P mid) (hf : ∀ a, P a → Fails (f a) mid) :
    Fails (r >>= f) t := by
  intro offset
  obtain ⟨a, offset', reach, hr, ha⟩ := h offset
  obtain ⟨reach', hb⟩ := hf a ha offset'
  refine ⟨max reach reach', ?_⟩
  show andThen r f _ = _
  simp only [andThen, hr, hb]

theorem Reads.part (h : Reads r t P rest) : Reads (part r) t P rest := by
  intro offset
  obtain ⟨a, offset', reach, hr, ha⟩ := h offset
  refine ⟨a, offset', reach, ?_, ha⟩
  simp only [Reader.part, hr]

theorem Fails.part (h : Fails r t) : Fails (part r) t := by
  intro offset
  obtain ⟨reach, hr⟩ := h offset
  refine ⟨max reach offset, ?_⟩
  simp only [Reader.part, hr]

theorem Reads.orElse (h : Reads r t P rest) : Reads (orElse r s) t P rest := by
  intro offset
  obtain ⟨a, offset', reach, hr, ha⟩ := h offset
  refine ⟨a, offset', reach, ?_, ha⟩
  simp only [Reader.orElse, hr]

theorem Fails.orElse_reads (h : Fails r t) (hs : Reads s t P rest) : Reads (orElse r s) t P rest := by
  intro offset
  obtain ⟨reach, hr⟩ := h offset
  obtain ⟨a, offset', reach', hs, ha⟩ := hs offset
  refine ⟨a, offset', max reach reach', ?_, ha⟩
  simp only [Reader.orElse, hr, hs]

theorem Fails.orElse (h : Fails r t) (hs : Fails s t) : Fails (orElse r s) t := by
  intro offset
  obtain ⟨reach, hr⟩ := h offset
  obtain ⟨reach', hs⟩ := hs offset
  refine ⟨max reach reach', ?_⟩
  simp only [Reader.orElse, hr, hs]

theorem fails_fail : Fails (fail : Reader α) t := fun _ => ⟨0, rfl⟩

/-- One alternative reads and none before it does. -/
theorem Reads.oneOf {readers : List (Reader α)} (h : Reads r t P rest)
    (before : List (Reader α)) (hbefore : ∀ s ∈ before, Fails s t) :
    Reads (oneOf (before ++ r :: readers)) t P rest := by
  induction before with
  | nil => exact h.orElse
  | cons s before ih =>
    have hs := hbefore s (by simp)
    exact hs.orElse_reads (ih fun s hs => hbefore s (List.mem_cons_of_mem _ hs))

theorem fails_oneOf {readers : List (Reader α)} (h : ∀ r ∈ readers, Fails r t) :
    Fails (oneOf readers) t := by
  induction readers with
  | nil => exact fails_fail
  | cons r readers ih =>
    exact (h r (by simp)).orElse (ih fun s hs => h s (List.mem_cons_of_mem _ hs))

theorem Reads.optional (h : Reads r t P rest) :
    Reads (optional r) t (fun found => ∃ a, found = some a ∧ P a) rest := by
  intro offset
  obtain ⟨a, offset', reach, hr, ha⟩ := h offset
  refine ⟨some a, offset', reach, ?_, a, rfl, ha⟩
  simp only [Reader.optional, hr]

theorem Fails.optional (h : Fails r t) : Reads (optional r) t (· = none) t := by
  intro offset
  obtain ⟨reach, hr⟩ := h offset
  refine ⟨none, offset, reach, ?_, rfl⟩
  simp only [Reader.optional, hr]

end

section

variable {step : α → Reader α} {t mid rest : Text} {P Q : α → Prop}

/-- Where no further step can be read, a chain ends. -/
theorem reads_iterate_stop {fuel : Nat} {a : α} (h : Fails (step a) t) (ha : P a) :
    Reads (iterate step fuel a) t P t := by
  intro offset
  cases fuel with
  | zero => exact ⟨a, offset, 0, rfl, ha⟩
  | succ fuel =>
    obtain ⟨reach, hr⟩ := h offset
    refine ⟨a, offset, reach, ?_, ha⟩
    simp only [iterate, hr]

theorem Reads.iterate {fuel : Nat} {a : α} (h : Reads (step a) t P mid)
    (hnext : ∀ a, P a → Reads (iterate step fuel a) mid Q rest) :
    Reads (iterate step (fuel + 1) a) t Q rest := by
  intro offset
  obtain ⟨b, offset', reach, hr, hb⟩ := h offset
  obtain ⟨c, offset'', reach', hc, hQ⟩ := hnext b hb offset'
  refine ⟨c, offset'', max reach reach', ?_, hQ⟩
  simp only [Reader.iterate, hr, hc]

end

/-! ## Repetitions -/

/-- The reader reads one value for each of `expected`, each in the relation to it, and then nothing
    more. -/
inductive ReadsAll (r : Reader α) (rel : β → α → Prop) : Text → List β → Text → Prop where
  | nil {t : Text} (stop : Fails r t) : ReadsAll r rel t [] t
  | cons {t mid rest : Text} {b : β} {bs : List β} (first : Reads r t (rel b) mid)
      (others : ReadsAll r rel mid bs rest) : ReadsAll r rel t (b :: bs) rest

variable {r : Reader α} {rel : β → α → Prop} {t mid rest : Text}

private theorem reads_iterate_of_readsAll {bs : List β} (h : ReadsAll r rel t bs rest) :
    ∀ fuel, bs.length ≤ fuel → ∀ found : List α,
      Reads (iterate (fun found => do return (← r) :: found) fuel found) t
        (fun all => ∃ as, List.Forall₂ rel bs as ∧ all = as.reverse ++ found) rest := by
  -- the items are found in order and kept backwards
  induction h with
  | nil stop =>
    intro fuel _ found
    exact reads_iterate_stop stop.bind ⟨[], .nil, rfl⟩
  | @cons _ _ _ b bs first others ih =>
    intro fuel hfuel found
    obtain ⟨fuel, rfl⟩ : ∃ n, fuel = n + 1 := ⟨fuel - 1, by simp at hfuel; omega⟩
    refine Reads.iterate (P := fun all => ∃ a, rel b a ∧ all = a :: found)
      (first.bind fun a ha => reads_pure ⟨a, ha, rfl⟩) ?_
    rintro _ ⟨a, ha, rfl⟩
    refine (ih fuel (by simp at hfuel; omega) (a :: found)).mono ?_
    rintro _ ⟨as, has, rfl⟩
    exact ⟨a :: as, .cons ha has, by simp⟩

/-- As many values are found as there are, if the fuel is enough for them. -/
theorem ReadsAll.many {bs : List β} (h : ReadsAll r rel t bs rest) {fuel : Nat}
    (hfuel : bs.length ≤ fuel) : Reads (many fuel r) t (List.Forall₂ rel bs) rest := by
  refine (reads_iterate_of_readsAll h fuel hfuel []).bind ?_
  rintro _ ⟨as, has, rfl⟩
  exact reads_pure (by simpa using has)

/-! ### Chains

A chain may go on behind a part of it, so what is known of a part is where it leads. -/

section

variable {first : Reader α} {step : α → Reader α} {w v : Text} {P Q : α → Prop}

/-- From the beginning of `w`, a chain comes to the text behind `w`, with at most one round for each
    of its characters, and goes on from there. -/
def Leads (first : Reader α) (step : α → Reader α) (w t : Text) (P : α → Prop) : Prop :=
  ∀ (fuel : Nat) (Q : α → Prop) (rest : Text), w.length ≤ fuel →
    (∀ left a, fuel ≤ left + w.length → P a → Reads (iterate step left a) (skip t) Q rest) →
      Reads (first >>= iterate step fuel) (w ++ t) Q rest

/-- A chain begins with what is read first. -/
theorem Reads.leads (h : Reads first (w ++ t) P (skip t)) : Leads first step w t P := by
  intro fuel Q rest _ hnext
  exact h.bind fun a ha => hnext fuel a (by omega) ha

/-- Each step makes a chain longer. -/
theorem Leads.append (h : Leads first step w (v ++ t) P) (hv : v ≠ [])
    (hstep : ∀ a, P a → Reads (step a) (skip (v ++ t)) Q (skip t)) :
    Leads first step (w ++ v) t Q := by
  intro fuel R rest hfuel hnext
  have hlength : 0 < v.length := List.length_pos_of_ne_nil hv
  rw [List.length_append] at hfuel hnext
  rw [List.append_assoc]
  apply h fuel R rest (by omega)
  intro left a hleft ha
  obtain ⟨left, rfl⟩ : ∃ n, left = n + 1 := ⟨left - 1, by omega⟩
  exact (hstep a ha).iterate fun b hb => hnext left b (by omega) hb

/-- A chain is complete where no step can be read. -/
theorem Leads.reads (h : Leads first step w t P) (hstop : ∀ a, Fails (step a) (skip t))
    {fuel : Nat} (hfuel : w.length ≤ fuel) :
    Reads (first >>= iterate step fuel) (w ++ t) P (skip t) :=
  h fuel P (skip t) hfuel fun _ a _ ha => reads_iterate_stop (hstop a) ha

end

/-! ## Tokens -/

theorem reads_token {scan : Text → Option (α × Nat)} {w : Text} {a : α}
    (h : scan (w ++ t) = some (a, w.length)) : Reads (token scan) (w ++ t) (· = a) (skip t) := by
  intro offset
  refine ⟨a, offset + w.length + gapLength 0 t, 0, ?_, rfl⟩
  simp only [token, h, Cursor.skipGap, Cursor.advance, List.drop_left]
  rfl

theorem fails_token {scan : Text → Option (α × Nat)} (h : scan t = none) :
    Fails (token scan) t := by
  intro offset
  refine ⟨0, ?_⟩
  simp only [token, h]

theorem reads_sign (c : Char) (t : Text) : Reads (sign c) (c :: t) (fun _ => True) (skip t) :=
  (reads_token (w := [c]) (a := ()) (by simp)).mono fun _ _ => trivial

theorem fails_sign {c : Char} (h : t.head? ≠ some c) : Fails (sign c) t :=
  fails_token (by rw [if_neg h])

/-- No word goes on at the beginning of the text. -/
def EndsWord (t : Text) : Prop := ∀ c ∈ t.head?, Text.isIdentifierChar c = false

theorem endsWord_cons {c : Char} (h : Text.isIdentifierChar c = false) (t : Text) :
    EndsWord (c :: t) := by
  rintro _ ⟨⟩
  exact h

theorem wordStart_append {w : Text} (hw : ∀ c ∈ w, Text.isIdentifierChar c = true)
    (ht : EndsWord t) : wordStart (w ++ t) = w :=
  Text.takeWhile_append_of_ends hw ht

theorem reads_word {w : Text} (h : wordStart (w ++ t) = w) :
    Reads (word w) (w ++ t) (fun _ => True) (skip t) :=
  (reads_token (by rw [if_pos h])).mono fun _ _ => trivial

theorem fails_word {w : Text} (h : wordStart t ≠ w) : Fails (word w) t :=
  fails_token (by rw [if_neg h])

end Reader

end Pseudocode.Script
