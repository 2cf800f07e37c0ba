import Pseudocode.Proofs.PhraseReading
import Pseudocode.Proofs.ShortestDigits
import Pseudocode.Report.Location
import Pseudocode.Script.Evaluation

/-!
# Places in traces

The place of a failure is read back from the trace of its calls: the first place in the text counts.
A trace has the message of the failure above its calls, so the first place is that of the innermost
call, unless there is one in the message.

* `Location.firstDigits?_append`   the first place in a text of two parts
* `Failure.inStack?_stack`         the place that is read back from the trace of a failure
-/

namespace Pseudocode

/-! ## Beginnings -/

namespace Text

variable {c : Char} {p : Char → Bool}

/-- Behind a character that does not belong to it, a beginning does not go on. -/
theorem dropStart?_append_cons {start : Text} (h : c ∉ start) (s t : Text) :
    dropStart? start (s ++ c :: t) = (dropStart? start s).map (· ++ c :: t) := by
  induction start generalizing s with
  | nil => rfl
  | cons a start ih =>
    have hne := List.ne_of_not_mem_cons h
    have hstart := List.not_mem_of_not_mem_cons h
    cases s with
    | nil => exact if_neg (Ne.symm hne)
    | cons b s =>
      rw [List.cons_append, dropStart?, dropStart?]
      split
      · exact ih hstart s
      · rfl

theorem takeWhile_append_cons (h : p c = false) (s t : Text) :
    (s ++ c :: t).takeWhile p = s.takeWhile p := by
  induction s with
  | nil => exact List.takeWhile_cons_of_neg (by simp [h])
  | cons a s ih => rw [List.cons_append, List.takeWhile_cons, List.takeWhile_cons, ih]

theorem dropWhile_append_cons (h : p c = false) (s t : Text) :
    (s ++ c :: t).dropWhile p = s.dropWhile p ++ c :: t := by
  induction s with
  | nil => exact List.dropWhile_cons_of_neg (by simp [h])
  | cons a s ih =>
    rw [List.cons_append, List.dropWhile_cons, List.dropWhile_cons, ih]
    split <;> rfl

end Text

/-! ## The first place -/

namespace Location

open Script

variable {c : Char}

/-- A character that stands in no place. -/
structure IsOutside (c : Char) : Prop where
  mark : c ∉ Location.mark
  digit : Text.isDecimalDigit c = false

theorem digitsAtMark?_append (h : IsOutside c) (s t : Text) :
    digitsAtMark? (s ++ c :: t) = digitsAtMark? s := by
  have hcolon : c ∉ [':'] := fun hmem => h.mark (List.mem_singleton.1 hmem ▸ by decide)
  simp only [digitsAtMark?, Text.dropStart?_append_cons h.mark]
  cases Text.dropStart? Location.mark s with
  | none => rfl
  | some s =>
    simp only [Option.map_some, Option.bind_eq_bind, Option.bind_some,
      Text.takeWhile_append_cons h.digit, Text.dropWhile_append_cons h.digit,
      Text.dropStart?_append_cons hcolon]
    cases Text.dropStart? [':'] (s.dropWhile Text.isDecimalDigit) with
    | none => rfl
    | some s =>
      simp only [Option.map_some, Option.bind_some, Text.takeWhile_append_cons h.digit]

/-- A text without the first character of the mark has no place. -/
theorem firstDigits?_eq_none {t : Text} (h : '<' ∉ t) : firstDigits? t = none := by
  induction t with
  | nil => rfl
  | cons a t ih =>
    have hne := List.ne_of_not_mem_cons h
    have hmark : digitsAtMark? (a :: t) = none := by
      have hdrop : Text.dropStart? Location.mark (a :: t) = none := if_neg hne
      rw [digitsAtMark?, hdrop]
      rfl
    rw [firstDigits?, hmark]
    exact ih (List.not_mem_of_not_mem_cons h)

/-- No place goes across a character that stands in none. -/
theorem firstDigits?_append (h : IsOutside c) (s t : Text) :
    firstDigits? (s ++ c :: t) = (firstDigits? s).or (firstDigits? t) := by
  induction s with
  | nil =>
    have hmark := digitsAtMark?_append h [] t
    rw [List.nil_append] at hmark ⊢
    rw [firstDigits?, Option.none_or, firstDigits?, hmark]
    rfl
  | cons a s ih =>
    have hmark := digitsAtMark?_append h (a :: s) t
    rw [List.cons_append] at hmark ⊢
    rw [firstDigits?, firstDigits?, hmark, ih]
    cases digitsAtMark? (a :: s) <;> rfl

/-- A number is written in digits. -/
private theorem takeWhile_ofNat (n : Nat) (hc : Text.isDecimalDigit c = false) (t : Text) :
    (Text.ofNat n ++ c :: t).takeWhile Text.isDecimalDigit = Text.ofNat n ∧
      (Text.ofNat n ++ c :: t).dropWhile Text.isDecimalDigit = c :: t := by
  have hdigits : ∀ d ∈ Text.ofNat n, Text.isDecimalDigit d = true := fun d hd => by
    rw [Text.isDecimalDigit, Nat.isDigit_of_mem_toDigits (by omega) (by omega) hd, Bool.true_or]
  have hends : ∀ d ∈ (c :: t).head?, Text.isDecimalDigit d = false := by simpa using hc
  exact ⟨Text.takeWhile_append_of_ends hdigits hends, Text.dropWhile_append_of_ends hdigits hends⟩

/-- A place that is written is the first one in what begins with it. -/
theorem firstDigits?_mark (p : Position) (hc : Text.isDecimalDigit c = false) (t : Text) :
    firstDigits? (Location.mark ++ (p.toText ++ c :: t)) =
      some (Text.ofNat p.line, Text.ofNat p.column) := by
  have hnonempty (n : Nat) : (Text.ofNat n).isEmpty = false :=
    List.isEmpty_eq_false_iff.2 Nat.toDigits_ne_nil
  -- the line's digits end at the colon, those of the column at `c`
  have hplace : digitsAtMark? (Location.mark ++ (p.toText ++ c :: t)) =
      some (Text.ofNat p.line, Text.ofNat p.column) := by
    obtain ⟨hline, hafter⟩ :=
      takeWhile_ofNat (c := ':') p.line (by decide) (Text.ofNat p.column ++ c :: t)
    obtain ⟨hcolumn, -⟩ := takeWhile_ofNat p.column hc t
    simp only [digitsAtMark?, Position.toText, List.append_assoc, List.cons_append,
      Text.dropStart?_append, Option.bind_eq_bind, Option.bind_some, hline, hafter]
    rw [show Text.dropStart? [':'] (':' :: (Text.ofNat p.column ++ c :: t)) =
      some (Text.ofNat p.column ++ c :: t) from rfl]
    simp only [Option.bind_some, hcolumn, hnonempty, Bool.or_self, Bool.false_eq_true, if_false]
  rw [show Location.mark ++ (p.toText ++ c :: t) =
    '<' :: (Pseudocode.text "sandbox>:" ++ (p.toText ++ c :: t)) from rfl] at hplace ⊢
  rw [firstDigits?, hplace]

theorem number?_ofNat (n : Nat) :
    number? (Text.ofNat n) = if n < 2 ^ 64 then some n else none := by
  have hdigits : (Text.ofNat n).all Char.isDigit = true :=
    List.all_eq_true.2 fun d hd => Nat.isDigit_of_mem_toDigits (by omega) (by omega) hd
  simp only [number?, Numeral.digitsValue_ofNat, hdigits, Bool.true_and, decide_eq_true_eq]

end Location

/-! ## Traces -/

namespace Script

/-- A call in a trace is that of a function of the script, or the script itself. -/
def Call.IsNamed (c : Call) : Prop := IsIdentifier c.name ∨ c.name = topLevel

/-- Something is done in a call. -/
def InCall : List Call → Prop
  | [] => False
  | call :: _ => call.IsNamed

namespace Failure

open Location

variable {f : Failure} {call : Call} {outer : List Call}

/-- The kind of an error is no place. -/
theorem firstDigits?_headline (f : Failure) :
    firstDigits? f.headline = firstDigits? f.cause.message := by
  have hkind : firstDigits? (f.cause.name.toText ++ [':']) = none :=
    firstDigits?_eq_none (by cases f.cause.name <;> decide)
  have hsplit : f.headline = (f.cause.name.toText ++ [':']) ++ ' ' :: f.cause.message := by
    rw [headline, List.append_assoc, List.append_assoc]
    rfl
  rw [hsplit, firstDigits?_append ⟨by decide, by decide⟩, hkind, Option.none_or]

/-- A trace starts with the error, and goes on with the innermost call. -/
theorem stack_eq (hcalls : f.calls = call :: outer) : ∃ rest, f.stack = f.headline ++ '\n' ::
    ((text "    at " ++ call.name ++ [' ']) ++ '(' ::
      (Location.mark ++ (f.position.toText ++ ')' :: rest))) := by
  refine ⟨(traceLines call.site outer).flatMap (['\n'] ++ ·), ?_⟩
  rw [stack, hcalls, traceLines, Text.join_cons, List.flatMap_cons]
  simp [Location.mark, text]

/-- The calls in a trace have names without a place. -/
theorem firstDigits?_call (h : call.IsNamed) :
    firstDigits? (text "    at " ++ call.name ++ [' ']) = none := by
  rcases h with h | h
  · refine firstDigits?_eq_none fun hmem => ?_
    rcases List.mem_append.1 hmem with hmem | hmem
    · rcases List.mem_append.1 hmem with hmem | hmem
      · exact absurd hmem (by decide)
      · exact absurd (h.chars _ hmem) (by decide)
    · exact absurd hmem (by decide)
  · rw [h]
    decide

/-- The first place in a trace is the first one in the message, or else where the failure was. -/
theorem firstDigits?_stack (h : InCall f.calls) :
    firstDigits? f.stack = (firstDigits? f.cause.message).or
      (some (Text.ofNat f.position.line, Text.ofNat f.position.column)) := by
  cases hcalls : f.calls with
  | nil =>
    rw [hcalls] at h
    exact h.elim
  | cons call outer =>
    rw [hcalls] at h
    obtain ⟨rest, hstack⟩ := stack_eq hcalls
    rw [hstack, firstDigits?_append ⟨by decide, by decide⟩, firstDigits?_headline,
      firstDigits?_append ⟨by decide, by decide⟩, firstDigits?_call h, Option.none_or,
      firstDigits?_mark _ (by decide)]

/-- The place that is read back from a trace is where the failure was, unless there is a place in the
    message, which comes first. -/
theorem inStack?_stack (h : InCall f.calls) :
    inStack? f.stack =
      let (line, column) := (firstDigits? f.cause.message).getD
        (Text.ofNat f.position.line, Text.ofNat f.position.column)
      do return ⟨← number? line, ← number? column⟩ := by
  rw [inStack?, firstDigits?_stack h]
  cases firstDigits? f.cause.message <;> rfl

/-- A place whose numbers fit is read back. -/
theorem inStack?_eq_position (h : InCall f.calls) (hmessage : firstDigits? f.cause.message = none)
    (hline : f.position.line < 2 ^ 64) (hcolumn : f.position.column < 2 ^ 64) :
    inStack? f.stack = some f.position := by
  rw [inStack?_stack h, hmessage]
  simp only [Option.getD_none, number?_ofNat, if_pos hline, if_pos hcolumn]
  rfl

/-- A report of a failure falls back on the place of the failure, so it is always the right one. -/
theorem inStack?_getD (h : InCall f.calls) (hmessage : firstDigits? f.cause.message = none) :
    (inStack? f.stack).getD f.position = f.position := by
  by_cases hfits : f.position.line < 2 ^ 64 ∧ f.position.column < 2 ^ 64
  · rw [inStack?_eq_position h hmessage hfits.1 hfits.2, Option.getD_some]
  · rw [inStack?_stack h, hmessage]
    simp only [Option.getD_none, number?_ofNat]
    -- one of the numbers does not fit, so nothing is read back
    by_cases hline : f.position.line < 2 ^ 64
    · rw [if_pos hline, if_neg fun hcolumn => hfits ⟨hline, hcolumn⟩]
      rfl
    · rw [if_neg hline]
      rfl

end Failure

end Script

end Pseudocode
