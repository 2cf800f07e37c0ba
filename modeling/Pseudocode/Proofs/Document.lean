import Pseudocode.Json
import Pseudocode.Proofs.LineAlignment
import Pseudocode.Proofs.LineShapes
import Pseudocode.Proofs.ShortestDigits

/-!
# Documents are read back

A document that is written on one line takes no line break, and it is read back from that line, as
long as its numbers are integers of 64 bits and it nests no deeper than a reader goes.

* `Json.newline_not_mem_compact`  a document is written on one line
* `Json.IsReadable.readsBack`  a value is read back, whatever follows it
* `Json.IsReadable.parse?_compact`  so is a document, whatever white space follows it
-/

namespace Pseudocode.Json

/-! ## Strings -/

/-- The three ways in which a character is written inside a string: by a letter, by its number, or as
    it is. -/
theorem escape_cases (c : Char) :
    (∃ e, escape c = ['\\', e] ∧ shortEscape? e = some c ∧ e ≠ 'u' ∧ e ≠ '\n') ∨
    (escape c = text "\\u00" ++ [hexDigit (c.toNat / 16), hexDigit (c.toNat % 16)] ∧ c.toNat < 32) ∨
    (escape c = [c] ∧ c ≠ '"' ∧ c ≠ '\\' ∧ 32 ≤ c.toNat) := by
  by_cases hletter : c ∈ ['"', '\\', '\x08', '\x0c', '\n', '\r', '\t']
  · simp only [List.mem_cons, List.not_mem_nil, or_false] at hletter
    rcases hletter with rfl | rfl | rfl | rfl | rfl | rfl | rfl
    all_goals exact .inl ⟨_, rfl, rfl, by decide, by decide⟩
  · simp only [List.mem_cons, List.not_mem_nil, or_false, not_or] at hletter
    obtain ⟨hquote, hslash, h08, h0c, hn, hr, ht⟩ := hletter
    by_cases hlow : c.toNat < 32
    · -- none of the letters is left, so a control character takes its number
      exact .inr (.inl ⟨by simp [escape, *], hlow⟩)
    · exact .inr (.inr ⟨by simp [escape, *], hquote, hslash, by omega⟩)

private theorem hexDigit_spec : ∀ n < 16,
    Numeral.digitIn? 16 (hexDigit n) = some n ∧ hexDigit n ≠ '\n' := by
  decide

/-- Two hexadecimal digits make up a character of the first row. -/
private theorem unicodeEscape?_hexDigit {n : Nat} (hn : n < 32) (rest : Text) :
    unicodeEscape? ('0' :: '0' :: hexDigit (n / 16) :: hexDigit (n % 16) :: rest) =
      some (Char.ofNat n, rest) := by
  have hzero : Numeral.digitIn? 16 '0' = some 0 := by decide
  have hunit : hexUnit? ('0' :: '0' :: hexDigit (n / 16) :: hexDigit (n % 16) :: rest) = some (n, rest) := by
    simp only [hexUnit?, hzero, (hexDigit_spec (n / 16) (by omega)).1,
      (hexDigit_spec (n % 16) (by omega)).1, Option.bind_eq_bind, Option.bind_some]
    rw [show ((0 * 16 + 0) * 16 + n / 16) * 16 + n % 16 = n by omega]
    rfl
  have hhigh : ¬0xD800 ≤ n := by omega
  have hlow : ¬0xDC00 ≤ n := by omega
  simp [unicodeEscape?, hunit, hhigh, hlow]

/-- An escaped character is read back in one step. -/
theorem stringBody?_escape (c : Char) (fuel : Nat) (rest : Text) :
    stringBody? (fuel + 1) (escape c ++ rest) =
      (stringBody? fuel rest).map fun (body, r) => (c :: body, r) := by
  -- a letter behind the backslash, four hexadecimal digits, or the character itself
  rcases escape_cases c with ⟨e, hc, he, hu, -⟩ | ⟨hc, hlow⟩ | ⟨hc, hquote, hslash, hhigh⟩
  · rw [hc, List.cons_append, List.cons_append, List.nil_append, stringBody?]
    · simp only [he, Option.bind_eq_bind, Option.bind_some]
      cases stringBody? fuel rest <;> rfl
    · exact hu
  · rw [hc, show text "\\u00" ++ [hexDigit (c.toNat / 16), hexDigit (c.toNat % 16)] ++ rest =
      '\\' :: 'u' :: '0' :: '0' :: hexDigit (c.toNat / 16) :: hexDigit (c.toNat % 16) :: rest from rfl,
      stringBody?, unicodeEscape?_hexDigit hlow, Char.ofNat_toNat]
    simp only [Option.bind_eq_bind, Option.bind_some]
    cases stringBody? fuel rest <;> rfl
  · rw [hc, List.cons_append, List.nil_append, stringBody?]
    · simp [hquote, hslash, Nat.not_lt.2 hhigh]
    · exact fun _ heq => absurd heq hslash
    · exact fun _ _ heq => absurd heq hslash

/-- A string is read back up to its closing quote. -/
theorem stringBody?_flatMap_escape (t : Text) {fuel : Nat} (hfuel : t.length < fuel) (rest : Text) :
    stringBody? fuel (t.flatMap escape ++ '"' :: rest) = some (t, rest) := by
  induction t generalizing fuel with
  | nil =>
    obtain ⟨fuel, rfl⟩ := Nat.exists_eq_add_of_lt hfuel
    rw [Nat.add_assoc, Nat.add_comm]
    rfl
  | cons c t ih =>
    obtain ⟨fuel, rfl⟩ : ∃ n, fuel = n + 1 := ⟨fuel - 1, by omega⟩
    rw [List.length_cons] at hfuel
    rw [List.flatMap_cons, List.append_assoc, stringBody?_escape, ih (by omega)]
    rfl

/-- Every character of a string is written by at least one. -/
theorem length_le_flatMap_escape (t : Text) : t.length ≤ (t.flatMap escape).length := by
  induction t with
  | nil => exact Nat.le_refl 0
  | cons c t ih =>
    have hc : 1 ≤ (escape c).length := by
      rcases escape_cases c with ⟨e, hc, -⟩ | ⟨hc, -⟩ | ⟨hc, -⟩ <;> simp [hc]
    rw [List.flatMap_cons, List.length_append, List.length_cons]
    omega

theorem stringBody?_quoted (t rest : Text) :
    stringBody? ((t.flatMap escape ++ '"' :: rest).length + 1) (t.flatMap escape ++ '"' :: rest) =
      some (t, rest) := by
  have hlength := length_le_flatMap_escape t
  exact stringBody?_flatMap_escape t (by rw [List.length_append]; omega) rest

/-! ## Numbers -/

/-- No number goes on with the text. -/
def EndsNumber (t : Text) : Prop := ∀ c ∈ t.head?, c.isDigit = false ∧ c ≠ '.' ∧ c ≠ 'e' ∧ c ≠ 'E'

/-- An integer of 64 bits, with a sign or without. -/
def Fits64 (n : Int) : Prop := -2 ^ 63 ≤ n ∧ n < 2 ^ 64

/-- Only zero is written with a zero in front. -/
private theorem eq_nil_of_ofNat (n : Nat) {r : Text} (h : Text.ofNat n = '0' :: r) : r = [] := by
  induction n using Nat.strongRecOn generalizing r with
  | ind n ih =>
    rw [Text.ofNat, Nat.toDigits_eq_if (by omega)] at h
    split at h
    · exact (List.cons.inj h).2.symm
    · next hn =>
      -- the digits before the last one are those of a smaller number, which is zero if they begin with
      -- a zero
      obtain ⟨d, ds, hds⟩ := List.exists_cons_of_ne_nil (Nat.toDigits_ne_nil (n := n / 10) (b := 10))
      rw [hds, List.cons_append, List.cons.injEq] at h
      obtain ⟨rfl, rfl⟩ := h
      obtain rfl := ih (n / 10) (by omega) hds
      have hzero := Numeral.digitsValue_ofNat (n / 10)
      rw [Text.ofNat, hds] at hzero
      have : Numeral.digitsValue ['0'] = 0 := by decide
      omega

/-- Digits that nothing follows are an integer, whatever sign stands in front of them. -/
private theorem number?_of_splitDigits {negative : Bool} {digits t rest : Text} {n : Int}
    (hhead : ∀ c ∈ t.head?, c ≠ '-') (hsplit : Numeral.splitDigits t = (digits, rest))
    (hwhole : (digits.isEmpty || (digits.head? = some '0' && 1 < digits.length)) = false)
    (hrest : EndsNumber rest) (hint : integer? negative (Numeral.digitsValue digits) = some n) :
    number? ((if negative then ['-'] else []) ++ t) = some (.integer n, rest) := by
  -- the sign is taken off first, and nothing that would go on with the number follows
  cases negative with
  | true =>
    simp only [if_true, List.singleton_append, number?]
    rw [hsplit]
    cases rest with
    | nil => simp [hwhole, hint]
    | cons c r =>
      obtain ⟨-, hpoint, he, hE⟩ := hrest c rfl
      simp [hwhole, hint, hpoint, he, hE]
  | false =>
    simp only [Bool.false_eq_true, if_false, List.nil_append, number?]
    split
    · exact absurd rfl (hhead '-' rfl)
    · dsimp only
      rw [hsplit]
      cases rest with
      | nil => simp [hwhole, hint]
      | cons c r =>
        obtain ⟨-, hpoint, he, hE⟩ := hrest c rfl
        simp [hwhole, hint, hpoint, he, hE]

/-- Only zero is written with a zero in front. -/
private theorem isWhole_ofNat (n : Nat) : ((Text.ofNat n).isEmpty ||
    ((Text.ofNat n).head? = some '0' && 1 < (Text.ofNat n).length)) = false := by
  have hne : Text.ofNat n ≠ [] := Nat.toDigits_ne_nil
  obtain ⟨d, ds, hcons⟩ := List.exists_cons_of_ne_nil hne
  have hzero := eq_nil_of_ofNat n (r := ds)
  rw [hcons] at hzero ⊢
  grind

theorem number?_integerText {n : Int} (hn : Fits64 n) {rest : Text} (hrest : EndsNumber rest) :
    number? (integerText n ++ rest) = some (.integer n, rest) := by
  have hdigits : ∀ c ∈ Text.ofNat n.natAbs, c.isDigit = true :=
    fun c hc => Nat.isDigit_of_mem_toDigits (by omega) (by omega) hc
  have hint : integer? (decide (n < 0)) (Numeral.digitsValue (Text.ofNat n.natAbs)) = some n := by
    rw [Numeral.digitsValue_ofNat]
    obtain ⟨hleast, hgreatest⟩ := hn
    by_cases hneg : n < 0 <;> simp only [integer?, hneg] <;> grind
  -- no minus sign comes from the digits
  have hhead : ∀ c ∈ (Text.ofNat n.natAbs ++ rest).head?, c ≠ '-' := by
    obtain ⟨d, ds, hcons⟩ := List.exists_cons_of_ne_nil (Nat.toDigits_ne_nil (n := n.natAbs) (b := 10))
    rw [← Text.ofNat] at hcons
    rw [hcons]
    rintro c ⟨⟩ rfl
    exact absurd (hdigits '-' (by simp [hcons])) (by decide)
  have hnumber := number?_of_splitDigits hhead
    (Numeral.splitDigits_append hdigits rest fun c hc => (hrest c hc).1) (isWhole_ofNat _) hrest hint
  rw [integerText, List.append_assoc]
  by_cases hneg : n < 0 <;> simpa [hneg] using hnumber

/-! ## Values -/

/-- A document that a reader takes which goes `depth` containers deep: its numbers are integers of 64
    bits. -/
inductive IsReadable : (depth : Nat) → Json → Prop where
  | null {depth : Nat} : IsReadable depth .null
  | bool {depth : Nat} {b : Bool} : IsReadable depth (.bool b)
  | integer {depth : Nat} {n : Int} (hn : Fits64 n) : IsReadable depth (.integer n)
  | string {depth : Nat} {t : Text} : IsReadable depth (.string t)
  | array {depth : Nat} {items : List Json} (hitems : ∀ item ∈ items, IsReadable depth item) :
    IsReadable (depth + 1) (.array items)
  | object {depth : Nat} {fields : List (Text × Json)}
    (hfields : ∀ field ∈ fields, IsReadable depth field.2) : IsReadable (depth + 1) (.object fields)

/-- The value is read back, whatever follows it. -/
def ReadsBack (depth : Nat) (json : Json) : Prop :=
  ∀ fuel rest, 2 * json.compact.length ≤ fuel → EndsNumber rest →
    value? fuel depth (json.compact ++ rest) = some (json, rest)

theorem dropSpace_cons {c : Char} (hc : isSpace c = false) (t : Text) : dropSpace (c :: t) = c :: t := by
  rw [dropSpace, List.dropWhile_cons_of_neg (by simp [hc])]

/-- The character that a numeral begins with: its sign or a digit. -/
private def BeginsNumeral (c : Char) : Prop := c.isDigit = true ∨ c = '-'

private theorem BeginsNumeral.ne {c d : Char} (hc : BeginsNumeral c) (hdigit : d.isDigit = false)
    (hsign : d ≠ '-') : c ≠ d := by
  rintro rfl
  rcases hc with hc | rfl
  · rw [hdigit] at hc
    cases hc
  · exact hsign rfl

private theorem BeginsNumeral.not_isSpace {c : Char} (hc : BeginsNumeral c) : isSpace c = false := by
  have hne (d : Char) := hc.ne (d := d)
  simp [isSpace, hne ' ' (by decide) (by decide), hne '\n' (by decide) (by decide),
    hne '\t' (by decide) (by decide), hne '\r' (by decide) (by decide)]

private theorem integerText_eq_cons (n : Int) : ∃ c r, integerText n = c :: r ∧ BeginsNumeral c := by
  by_cases hneg : n < 0
  · exact ⟨'-', Text.ofNat n.natAbs, by simp [integerText, hneg], .inr rfl⟩
  · obtain ⟨d, ds, hcons⟩ := List.exists_cons_of_ne_nil (Nat.toDigits_ne_nil (n := n.natAbs) (b := 10))
    refine ⟨d, ds, by simp [integerText, hneg, Text.ofNat, hcons], .inl ?_⟩
    exact Nat.isDigit_of_mem_toDigits (b := 10) (n := n.natAbs) (by omega) (by omega) (by simp [hcons])

/-- What begins no string, container or word is read as a number. -/
private theorem value?_eq_number? {t r : Text} {c : Char} (ht : dropSpace t = c :: r)
    (hc : ∀ d ∈ ['"', '[', '\x7b', 'n', 't', 'f'], c ≠ d) (fuel depth : Nat) :
    value? (fuel + 1) depth t = number? (c :: r) := by
  have hword {d : Char} (w : Text) (hd : d ∈ ['"', '[', '\x7b', 'n', 't', 'f']) :
      Text.dropStart? (d :: w) (c :: r) = none := if_neg (hc d hd).symm
  rw [value?, ht]
  split
  · contradiction
  · next heq => exact absurd (List.cons.inj heq).1 (hc _ (by decide))
  · next heq => exact absurd (List.cons.inj heq).1 (hc _ (by decide))
  · next heq => exact absurd (List.cons.inj heq).1 (hc _ (by decide))
  · simp only [text, String.reduceToList]
    rw [hword _ (by decide), hword _ (by decide), hword _ (by decide)]

private theorem value?_of_beginsNumeral {c : Char} (hc : BeginsNumeral c) (fuel depth : Nat) (t : Text) :
    value? (fuel + 1) depth (c :: t) = number? (c :: t) := by
  have hothers : ∀ d ∈ ['"', '[', '\x7b', 'n', 't', 'f'], d.isDigit = false ∧ d ≠ '-' := by
    simp [Char.isDigit]
  apply value?_eq_number? (dropSpace_cons hc.not_isSpace t)
  intro d hd
  exact hc.ne (hothers d hd).1 (hothers d hd).2

theorem readsBack_integer {n : Int} (hn : Fits64 n) (depth : Nat) : ReadsBack depth (.integer n) := by
  intro fuel rest hfuel hrest
  obtain ⟨c, r, hcons, hc⟩ := integerText_eq_cons n
  have hnumber := number?_integerText hn hrest
  simp only [compact, hcons, List.length_cons] at hfuel hnumber ⊢
  obtain ⟨fuel, rfl⟩ : ∃ m, fuel = m + 1 := ⟨fuel - 1, by omega⟩
  rw [List.cons_append] at hnumber ⊢
  rw [value?_of_beginsNumeral hc, hnumber]

theorem readsBack_string (t : Text) (depth : Nat) : ReadsBack depth (.string t) := by
  intro fuel rest hfuel _
  obtain ⟨fuel, rfl⟩ : ∃ m, fuel = m + 1 := ⟨fuel - 1, by simp [compact, quote] at hfuel; omega⟩
  rw [compact, quote, List.append_assoc, List.cons_append, List.singleton_append, value?,
    dropSpace_cons (by decide)]
  simp only [stringBody?_quoted, Option.map_some]

theorem readsBack_word (b : Bool) (depth : Nat) :
    ReadsBack depth .null ∧ ReadsBack depth (.bool b) := by
  constructor <;> intro fuel rest hfuel _
  · obtain ⟨fuel, rfl⟩ : ∃ m, fuel = m + 1 := ⟨fuel - 1, by simp [compact, text] at hfuel; omega⟩
    rfl
  · obtain ⟨fuel, rfl⟩ : ∃ m, fuel = m + 1 := ⟨fuel - 1, by cases b <;> simp [compact, text] at hfuel <;> omega⟩
    cases b <;> rfl

/-! ## Arrays and objects -/

/-- The beginning of a value is neither white space nor the end of an array. -/
theorem IsReadable.compact_eq_cons {depth : Nat} {json : Json} (h : json.IsReadable depth) :
    ∃ c r, json.compact = c :: r ∧ isSpace c = false ∧ c ≠ ']' := by
  cases h with
  | null => exact ⟨_, _, rfl, by decide, by decide⟩
  | @bool _ b => cases b <;> exact ⟨_, _, rfl, by decide, by decide⟩
  | @integer _ n hn =>
    obtain ⟨c, r, hcons, hc⟩ := integerText_eq_cons n
    exact ⟨c, r, hcons, hc.not_isSpace, hc.ne (by decide) (by decide)⟩
  | string | array | object => exact ⟨_, _, rfl, by decide, by decide⟩

theorem endsNumber_cons {c : Char} (hc : c = ',' ∨ c = ']' ∨ c = '\x7d') (t : Text) : EndsNumber (c :: t) := by
  rintro d ⟨⟩
  rcases hc with rfl | rfl | rfl <;> decide

/-- The items of an array are read back one after the other. -/
theorem items?_join {depth : Nat} {items : List Json} (hne : items ≠ [])
    (hitems : ∀ item ∈ items, ReadsBack depth item) {fuel : Nat} (rest : Text)
    (hfuel : 2 * (Text.join [','] (compactItems items)).length < fuel) :
    items? fuel depth (Text.join [','] (compactItems items) ++ ']' :: rest) = some (items, rest) := by
  -- the fuel is twice the length of the text, which pays for an element and for the comma
  induction items generalizing fuel with
  | nil => contradiction
  | cons item items ih =>
    obtain ⟨fuel, rfl⟩ : ∃ m, fuel = m + 1 := ⟨fuel - 1, by omega⟩
    obtain ⟨hitem, hitems⟩ := List.forall_mem_cons.1 hitems
    have hspace (c : Char) (t : Text) (hc : c = ',' ∨ c = ']') : dropSpace (c :: t) = c :: t :=
      dropSpace_cons (by rcases hc with rfl | rfl <;> decide) t
    cases items with
    | nil =>
      have hone : Text.join [','] (compactItems [item]) = item.compact := by
        simp [compactItems, Text.join, List.intercalate]
      rw [hone] at hfuel ⊢
      simp [items?, hitem fuel (']' :: rest) (by omega) (endsNumber_cons (by simp) rest), hspace]
    | cons next items =>
      have hmore : Text.join [','] (compactItems (item :: next :: items)) =
          item.compact ++ ',' :: Text.join [','] (compactItems (next :: items)) := by
        simp [compactItems, Text.join_cons]
      rw [hmore, List.length_append, List.length_cons] at hfuel
      have hrest := ih (by simp) hitems (by omega : _ < fuel)
      rw [hmore, List.append_assoc, List.cons_append, items?,
        hitem fuel _ (by omega) (endsNumber_cons (by simp) _)]
      simp [hspace, hrest]

/-- The first field of an object, and what is made of the rest. -/
private theorem fields?_field {fuel depth : Nat} {name rest : Text} {value : Json}
    (hvalue : value? fuel depth (value.compact ++ rest) = some (value, rest)) :
    fields? (fuel + 1) depth (quote name ++ ':' :: value.compact ++ rest) =
      match dropSpace rest with
      | ',' :: r => (fields? fuel depth r).map fun (fields, r) => ((name, value) :: fields, r)
      | '\x7d' :: r => some ([(name, value)], r)
      | _ => none := by
  have hstart : quote name ++ ':' :: value.compact ++ rest =
      '"' :: (name.flatMap escape ++ '"' :: ':' :: (value.compact ++ rest)) := by
    simp [quote]
  rw [hstart, fields?, dropSpace_cons (by decide)]
  simp only [stringBody?_quoted, Option.bind_eq_bind, Option.bind_some,
    dropSpace_cons (show isSpace ':' = false by decide), Text.dropStart?, if_true, hvalue]
  -- what stands behind the value decides whether another field follows
  generalize dropSpace rest = following
  cases following with
  | nil => rfl
  | cons c r =>
    by_cases hcomma : c = ','
    · subst hcomma
      show (fields? fuel depth r).bind _ = (fields? fuel depth r).map _
      cases fields? fuel depth r <;> rfl
    · by_cases hend : c = '\x7d'
      · subst hend
        rfl
      · simp [hcomma, hend]

/-- The fields of an object are read back one after the other. -/
theorem fields?_join {depth : Nat} {fields : List (Text × Json)} (hne : fields ≠ [])
    (hfields : ∀ field ∈ fields, ReadsBack depth field.2) {fuel : Nat} (rest : Text)
    (hfuel : 2 * (Text.join [','] (compactFields fields)).length < fuel) :
    fields? fuel depth (Text.join [','] (compactFields fields) ++ '\x7d' :: rest) =
      some (fields, rest) := by
  -- the fuel is spent as it is for the elements of an array
  induction fields generalizing fuel with
  | nil => contradiction
  | cons field fields ih =>
    obtain ⟨name, value⟩ := field
    obtain ⟨fuel, rfl⟩ : ∃ m, fuel = m + 1 := ⟨fuel - 1, by omega⟩
    obtain ⟨hvalue, hfields⟩ := List.forall_mem_cons.1 hfields
    have hvalue : ReadsBack depth value := hvalue
    cases fields with
    | nil =>
      have hone : Text.join [','] (compactFields [(name, value)]) =
          quote name ++ ':' :: value.compact := by
        simp [compactFields, Text.join, List.intercalate]
      rw [hone, List.length_append, List.length_cons] at hfuel
      rw [hone, fields?_field (hvalue fuel _ (by omega) (endsNumber_cons (by simp) rest)),
        dropSpace_cons (by decide)]
      rfl
    | cons next fields =>
      have hmore : Text.join [','] (compactFields ((name, value) :: next :: fields)) =
          quote name ++ ':' :: value.compact ++ ',' :: Text.join [','] (compactFields (next :: fields)) := by
        simp [compactFields, Text.join_cons]
      rw [hmore, List.length_append, List.length_append, List.length_cons, List.length_cons] at hfuel
      rw [hmore, List.append_assoc, List.cons_append,
        fields?_field (hvalue fuel _ (by omega) (endsNumber_cons (by simp) _)),
        dropSpace_cons (by decide)]
      simp only [ih (by simp) hfields (by omega : _ < fuel), Option.map_some]

theorem IsReadable.readsBack {depth : Nat} {json : Json} (h : json.IsReadable depth) :
    ReadsBack depth json := by
  -- the brackets around a container are two characters, which pay for the step into it
  induction h with
  | @null depth => exact (readsBack_word true depth).1
  | @bool depth b => exact (readsBack_word b depth).2
  | integer hn => exact readsBack_integer hn _
  | string => exact readsBack_string _ _
  | @array depth items hitems ih =>
    intro fuel rest hfuel hrest
    obtain ⟨fuel, rfl⟩ : ∃ m, fuel = m + 1 := ⟨fuel - 1, by simp [compact] at hfuel; omega⟩
    rw [compact, List.length_append, List.length_cons] at hfuel
    rw [compact, List.append_assoc, List.cons_append, List.singleton_append, value?, dropSpace_cons (by decide)]
    cases items with
    | nil => rfl
    | cons item items =>
      have hread := items?_join (by simp) ih rest (by omega : _ < fuel)
      obtain ⟨c, r, hcons, hspace, hend⟩ := (hitems item List.mem_cons_self).compact_eq_cons
      have hstart : Text.join [','] (compactItems (item :: items)) ++ ']' :: rest =
          c :: (r ++ (compactItems items).flatMap ([','] ++ ·) ++ ']' :: rest) := by
        simp [compactItems, Text.join_cons, hcons]
      rw [hstart] at hread ⊢
      simp only [dropSpace_cons hspace]
      split
      · next heq => exact absurd (List.cons.inj heq).1 hend
      · rw [hread, Option.map_some]
  | @object depth fields hfields ih =>
    intro fuel rest hfuel hrest
    obtain ⟨fuel, rfl⟩ : ∃ m, fuel = m + 1 := ⟨fuel - 1, by simp [compact] at hfuel; omega⟩
    rw [compact, List.length_append, List.length_cons] at hfuel
    rw [compact, List.append_assoc, List.cons_append, List.singleton_append, value?, dropSpace_cons (by decide)]
    cases fields with
    | nil => rfl
    | cons field fields =>
      have hread := fields?_join (by simp) ih rest (by omega : _ < fuel)
      obtain ⟨r, hstart⟩ : ∃ r, Text.join [','] (compactFields (field :: fields)) ++ '\x7d' :: rest = '"' :: r := by
        exact ⟨_, by simp [compactFields, Text.join_cons, quote]; rfl⟩
      rw [hstart] at hread ⊢
      simp [dropSpace_cons (show isSpace '"' = false by decide), hread]

/-- A document is read back from its line, whatever white space follows it. -/
theorem IsReadable.parse?_compact {json : Json} (h : json.IsReadable maxDepth) (rest : Text)
    (hrest : ∀ c ∈ rest, isSpace c = true) : parse? (json.compact ++ rest) = some json := by
  have hends : EndsNumber rest := by
    intro c hc
    have hspace := hrest c (List.mem_of_mem_head? hc)
    simp only [isSpace, Bool.or_eq_true, decide_eq_true_eq] at hspace
    rcases hspace with ((rfl | rfl) | rfl) | rfl <;> decide
  have hdrop : dropSpace rest = [] := List.dropWhile_eq_nil_iff.2 hrest
  rw [parse?, h.readsBack _ rest (by rw [List.length_append]; omega) hends]
  simp [hdrop]

/-- A text of white space is no document, not even where the reader does not skip all of it. -/
theorem parse?_eq_none_of_isBlank {t : Text} (h : ∀ c ∈ t, Text.isBlank c = true) : parse? t = none := by
  cases hdrop : dropSpace t with
  | nil =>
    rw [parse?, value?, hdrop]
    rfl
  | cons c r =>
    -- some white space is left, which begins no value
    have hmem : c ∈ dropSpace t := by
      rw [hdrop]
      exact List.mem_cons_self
    have hc : Text.isBlank c = true := h c ((List.dropWhile_suffix isSpace).subset hmem)
    have hne {d : Char} (hd : Text.isBlank d = false) : c ≠ d := by
      rintro rfl
      rw [hc] at hd
      cases hd
    have hothers : ∀ d ∈ ['"', '[', '\x7b', 'n', 't', 'f'], Text.isBlank d = false := by
      simp [Text.isBlank]
    have hdigit : c.isDigit = false := by
      rw [Bool.eq_false_iff]
      intro hdigit
      rw [isBlank_of_isAlphanum (by rw [Char.isAlphanum, hdigit, Bool.or_true])] at hc
      cases hc
    have hsplit : Numeral.splitDigits (c :: r) = ([], c :: r) := by simp [Numeral.splitDigits, hdigit]
    have hnumber : number? (c :: r) = none := by
      have hsign : c ≠ '-' := hne (by decide)
      simp [number?, hsign, hsplit]
    rw [parse?, value?_eq_number? hdrop (fun d hd => hne (hothers d hd)), hnumber]
    rfl

/-! ## Lines -/

theorem newline_not_mem_quote (t : Text) : '\n' ∉ quote t := by
  have hescape (c : Char) : '\n' ∉ escape c := by
    rcases escape_cases c with ⟨e, hc, -, -, he⟩ | ⟨hc, hlow⟩ | ⟨hc, -, -, hhigh⟩ <;> rw [hc]
    · simpa using he.symm
    · have hhigh := (hexDigit_spec (c.toNat / 16) (by omega)).2
      have hlow := (hexDigit_spec (c.toNat % 16) (by omega)).2
      simp [text, hhigh.symm, hlow.symm]
    · rintro hmem
      obtain rfl := List.mem_singleton.1 hmem
      exact absurd hhigh (by decide)
  simp [quote, hescape]

mutual

/-- A document is written on one line. -/
theorem newline_not_mem_compact : ∀ json : Json, '\n' ∉ json.compact
  | .null => by decide
  | .bool b => by cases b <;> decide
  | .integer n => by
    rw [compact, integerText]
    split <;> simp [Text.newline_not_mem_ofNat]
  | .decimal x => Numeral.newline_not_mem_shortestText _
  | .string t => newline_not_mem_quote t
  | .array items => by
    have hitems : '\n' ∉ Text.join [','] (compactItems items) :=
      Translation.newline_not_mem_join (by decide) (newline_not_mem_compactItems items)
    simp [compact, hitems]
  | .object fields => by
    have hfields : '\n' ∉ Text.join [','] (compactFields fields) :=
      Translation.newline_not_mem_join (by decide) (newline_not_mem_compactFields fields)
    simp [compact, hfields]

theorem newline_not_mem_compactItems : ∀ items : List Json, ∀ t ∈ compactItems items, '\n' ∉ t
  | [], t, ht => by cases ht
  | item :: items, t, ht => by
    rcases List.mem_cons.1 ht with rfl | ht
    · exact newline_not_mem_compact item
    · exact newline_not_mem_compactItems items t ht

theorem newline_not_mem_compactFields :
    ∀ fields : List (Text × Json), ∀ t ∈ compactFields fields, '\n' ∉ t
  | [], t, ht => by cases ht
  | (name, value) :: fields, t, ht => by
    rcases List.mem_cons.1 ht with rfl | ht
    · simp [newline_not_mem_quote, newline_not_mem_compact value]
    · exact newline_not_mem_compactFields fields t ht

end

end Pseudocode.Json
