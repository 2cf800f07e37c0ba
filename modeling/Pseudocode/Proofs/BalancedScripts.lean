import Pseudocode.Proofs.DeclaredNames
import Pseudocode.Proofs.ListItems
import Pseudocode.Proofs.ShortestDigits

/-!
# Scripts of statements are balanced

A statement that is executed is written as a balanced line. Its operands are balanced where the line is taken
apart, or they are names; splitting a list, taking parentheses off, trimming and rewriting keep them balanced;
and what the script puts around them opens and closes the same brackets.

* `imbalance?_rewrite`             rewriting changes nothing about literals and brackets
* `Leads`                          from which open brackets to which a text leads
* `Statement.imbalance?_operands`  the operands of a statement that is executed
* `Translation.leads_statement`    the script around them, one case for each kind of statement
* `isBalanced_scriptLine`          the script of a line
-/

namespace Pseudocode

/-! ## Rewritten operands -/

namespace Expression

variable {s t v w bs : Text} {a b c : List Char} {context : Context} {before : Option Char} {ts us : List Token}

/-- The operators of the script are no brackets. -/
theorem AreSigns.not_mem_bracketChars {signs : Text} (h : AreSigns signs) : ∀ c ∈ signs, c ∉ bracketChars :=
  fun c hc => (isNeutral_of_class (p := (operatorChars.contains ·)) (by decide)
    (List.contains_iff_mem.2 (h.2 hc))).2

/-- The spelling of tokens in the script has the same literals and brackets. -/
theorem Respelled.imbalanceFrom?_eq (h : Respelled context before ts us) (stack : List Char) :
    imbalanceFrom? stack us = imbalanceFrom? stack ts := by
  -- signs that replace other ones, neither of them brackets
  have hsigns {signs : Text} {ts us : List Token} (hsigns : AreSigns signs) {stack : List Char}
      (ih : imbalanceFrom? stack us = imbalanceFrom? stack ts) :
      imbalanceFrom? stack (signs.map .sign ++ us) = imbalanceFrom? stack ts := by
    rw [imbalanceFrom?_others hsigns.not_mem_bracketChars, ih]
  induction h generalizing stack with
  | nil => rfl
  | literal _ ih => exact imbalanceFrom?_congr ih _ stack
  | word _ _ ih => exact imbalanceFrom?_congr ih _ stack
  | truth _ _ _ ih =>
    rw [imbalanceFrom?, imbalanceFrom?]
    exact ih stack
  | operator _ hoperator _ ih =>
    rw [hsigns (areSigns_of_operator hoperator) (ih stack), imbalanceFrom?]
  | differ _ ih =>
    rw [imbalanceFrom?_other (by decide), imbalanceFrom?_other (by decide)]
    exact hsigns areSigns_differ (ih stack)
  | @comparison before c signs ts us hcomparison _ ih =>
    have hc : c ∉ bracketChars :=
      (by decide : ∀ p ∈ comparisonSigns, p.1 ∉ bracketChars) _ hcomparison
    rw [hsigns (areSigns_of_comparison hcomparison) (ih stack), imbalanceFrom?_other hc]
  | equality _ _ _ ih =>
    rw [imbalanceFrom?_other (by decide)]
    exact hsigns areSigns_equality (ih stack)
  | sign _ _ _ _ ih => exact imbalanceFrom?_congr ih _ stack

/-- Rewriting changes nothing about literals and brackets. -/
theorem imbalance?_rewrite (context : Context) (t : Text) :
    imbalance? (rewrite context t) = imbalance? (Text.trim t) := by
  have hrespelled : Respelled context none (tokens (Text.trim t)) (tokens (rewrite context t)) :=
    tokens_rewrite_iff.2 rfl
  exact hrespelled.imbalanceFrom?_eq []

/-! ## Texts side by side -/

/-- `Leads w a b`: where the brackets `a` are open, the brackets `b` are open behind the text `w`, innermost first,
    and no literal is. -/
def Leads (w : Text) (a b : List Char) : Prop :=
  ∀ t, imbalanceFrom? a (parts (w ++ t)) = imbalanceFrom? b (parts t)

theorem Leads.append (hv : Leads v a b) (hw : Leads w b c) : Leads (v ++ w) a c := by
  intro t
  rw [List.append_assoc, hv, hw]

theorem leads_nil (a : List Char) : Leads [] a a := fun _ => rfl

theorem Leads.imbalance?_eq (h : Leads w [] []) : imbalance? w = none := by
  have hend := h []
  rw [List.append_nil] at hend
  rw [Expression.imbalance?_eq, hend, parts_nil]
  rfl

/-- A balanced text changes nothing. -/
theorem leads_of_balanced (h : imbalance? w = none) (a : List Char) : Leads w a a := by
  obtain ⟨bs, hbs, hnests⟩ := imbalance?_eq_none_iff.1 h
  intro t
  rw [hbs.scan, hnests.scan]

/-- What the brackets of a text do where the brackets `a` are open. -/
theorem leads_of_hasBrackets (h : HasBrackets w bs)
    (hscan : ∀ ts, imbalanceFrom? a (bs.map .sign ++ ts) = imbalanceFrom? b ts) : Leads w a b := by
  intro t
  rw [h.scan, hscan]

/-- A text that is written out: it has no quotes, and its brackets are `bs`. -/
def Spells (w bs : Text) : Prop := w.any isQuote = false ∧ w.filter bracketChars.contains = bs

instance (w bs : Text) : Decidable (Spells w bs) :=
  inferInstanceAs (Decidable (w.any isQuote = false ∧ w.filter bracketChars.contains = bs))

theorem Spells.hasBrackets (h : Spells w bs) : HasBrackets w bs := by
  obtain ⟨hquotes, rfl⟩ := h
  induction w with
  | nil => exact .nil
  | cons c w ih =>
    rw [List.any_cons, Bool.or_eq_false_iff] at hquotes
    by_cases hc : bracketChars.contains c = true
    · rw [List.filter_cons_of_pos hc]
      exact .bracket (List.contains_iff_mem.1 hc) (ih hquotes.2)
    · rw [List.filter_cons_of_neg hc]
      exact .other hquotes.1 (fun hmem => hc (List.contains_iff_mem.2 hmem)) (ih hquotes.2)

/-- A text without brackets. -/
theorem leads_plain (h : Spells w []) (a : List Char) : Leads w a a :=
  leads_of_hasBrackets h.hasBrackets fun _ => rfl

/-- A text with an opening parenthesis in it. -/
theorem leads_opening (h : Spells w ['(']) (a : List Char) : Leads w a ('(' :: a) :=
  leads_of_hasBrackets h.hasBrackets fun _ => rfl

/-- A text with a closing parenthesis in it. -/
theorem leads_closing (h : Spells w [')']) (a : List Char) : Leads w ('(' :: a) a :=
  leads_of_hasBrackets h.hasBrackets fun _ => rfl

theorem leads_neutral (h : ∀ d ∈ w, IsNeutral d) (a : List Char) : Leads w a a :=
  leads_of_hasBrackets (hasBrackets_of_neutral h) fun _ => rfl

theorem leads_join {items : List Text} (h : ∀ item ∈ items, imbalance? item = none) (a : List Char) :
    Leads (Text.join (text ", ") items) a a := by
  have hcomma : Leads (text ", ") a a := leads_plain (by decide) a
  cases items with
  | nil => exact leads_nil a
  | cons item items =>
    obtain ⟨hitem, hitems⟩ := List.forall_mem_cons.1 h
    rw [Text.join_cons]
    apply (leads_of_balanced hitem a).append
    clear h hitem
    induction items with
    | nil => exact leads_nil a
    | cons next items ih =>
      obtain ⟨hnext, hitems⟩ := List.forall_mem_cons.1 hitems
      rw [List.flatMap_cons]
      exact (hcomma.append (leads_of_balanced hnext a)).append (ih hitems)

end Expression

open Expression

/-! ## Operands -/

namespace Statement

open Shape

/-- The line asks for something to be done when the program runs, and has the shape for it. -/
def isExecutable : Statement → Bool
  | blank | comment _ | header _ | footer | declare _ _ | malformed _ _ | raw _ => false
  | _ => true

/-- If the statement is executed, its operands are names that it declares, or they are balanced. -/
def IsChecked (s : Statement) : Prop :=
  s.isExecutable = true → ∀ operand ∈ s.operands, operand ∈ s.declaredNames ∨ imbalance? operand = none

variable {s : Statement} {form : Form}

theorem isChecked_of_not_isExecutable (h : s.isExecutable = false) : s.IsChecked := by
  intro hexecutable
  rw [h] at hexecutable
  cases hexecutable

/-- A statement without operands. -/
theorem isChecked_of_nil (h : s.operands = []) : s.IsChecked := by
  simp [IsChecked, h]

theorem isChecked_of_balanced (h : ∀ operand ∈ s.operands, imbalance? operand = none) : s.IsChecked :=
  fun _ operand hoperand => .inr (h operand hoperand)

/-- The operands of a statement are looked at before it is taken for one. -/
theorem isChecked_ifBalanced {texts : List Text} (h : (∀ t ∈ texts, imbalance? t = none) → s.IsChecked) :
    (ifBalanced form texts s).IsChecked := by
  rw [Statement.ifBalanced]
  split
  · exact isChecked_of_not_isExecutable rfl
  · next hnone => exact h (List.findSome?_eq_none_iff.1 hnone)

theorem isChecked_withoutKeyword (t : Text) : (withoutKeyword t).IsChecked := by
  rw [withoutKeyword]
  split
  · simp only
    split
    · exact isChecked_ifBalanced fun htexts => isChecked_of_balanced htexts
    · exact isChecked_ifBalanced fun htexts => isChecked_of_balanced htexts
    · exact isChecked_of_not_isExecutable rfl
  · split
    · exact isChecked_ifBalanced fun htexts => isChecked_of_balanced htexts
    · exact isChecked_of_not_isExecutable rfl

theorem isChecked_elseIfOf (rest : Option Text) : (elseIfOf rest).IsChecked := by
  rw [elseIfOf]
  split
  · exact isChecked_ifBalanced fun htexts => isChecked_of_balanced htexts
  · exact isChecked_of_not_isExecutable rfl

theorem isChecked_declarationOf (kind : DeclarationKind) (rest : Text) :
    (declarationOf kind rest).IsChecked := by
  rw [declarationOf]
  split
  · exact isChecked_of_not_isExecutable rfl
  · exact isChecked_of_not_isExecutable rfl
  · next name size value _ _ =>
    apply isChecked_ifBalanced
    intro htexts _ operand hoperand
    simp only [List.forall_mem_cons, List.not_mem_nil, false_imp_iff, implies_true, and_true] at htexts
    obtain ⟨hsize, hinit⟩ := htexts
    simp only [operands, List.mem_cons, List.mem_append, Option.mem_toList] at hoperand
    -- the name is a word, size and value are looked at
    rcases hoperand with rfl | hoperand | hoperand
    · exact .inl (List.mem_singleton.2 rfl)
    · rw [hoperand] at hsize
      exact .inr hsize
    · rw [hoperand] at hinit
      exact .inr hinit

/-- The name and the parameters of a function are names. -/
theorem isChecked_functionOf (rest : Text) : (functionOf rest).IsChecked := by
  rw [functionOf]
  split
  · exact isChecked_of_not_isExecutable rfl
  · simp only
    split
    · exact isChecked_of_not_isExecutable rfl
    · exact fun _ operand hoperand => .inl hoperand

theorem isChecked_printOf (rest : Text) : (printOf rest).IsChecked := by
  rw [printOf]
  split
  · apply isChecked_ifBalanced
    intro hlist
    split
    · exact isChecked_of_not_isExecutable rfl
    · -- a balanced list is split into balanced items
      apply isChecked_of_balanced
      intro item hitem
      exact (isUndivided_of_mem_splitList (hlist _ List.mem_cons_self) item hitem).1.balanced
  · exact isChecked_withoutKeyword _

theorem isChecked_inputOf (rest : Text) : (inputOf rest).IsChecked := by
  rw [inputOf]
  split
  · split
    · exact isChecked_of_nil rfl
    · apply isChecked_ifBalanced
      intro hoperand
      split
      · exact isChecked_of_balanced hoperand
      · exact isChecked_of_balanced hoperand
  · exact isChecked_withoutKeyword _

theorem isChecked_withKeyword (keyword : Keyword) (t rest : Text) :
    (withKeyword keyword t rest).IsChecked := by
  cases keyword with
  | «for» =>
    simp only [withKeyword]
    split
    · next name start stop step _ =>
      apply isChecked_ifBalanced
      intro htexts _ operand hoperand
      simp only [List.forall_mem_cons, List.not_mem_nil, false_imp_iff, implies_true, and_true] at htexts
      obtain ⟨hstart, hstop, hstep⟩ := htexts
      simp only [operands, List.mem_cons, Option.mem_toList] at hoperand
      -- the variable is a word, the other three are looked at
      rcases hoperand with rfl | rfl | rfl | hoperand
      · exact .inl (List.mem_singleton.2 rfl)
      · exact .inr hstart
      · exact .inr hstop
      · rw [hoperand] at hstep
        exact .inr hstep
    · exact isChecked_of_not_isExecutable rfl
  | «return» =>
    simp only [withKeyword]
    split
    · next value _ =>
      apply isChecked_ifBalanced
      intro hvalue
      cases value with
      | none => exact isChecked_of_nil rfl
      | some v => exact isChecked_of_balanced hvalue
    · exact isChecked_of_not_isExecutable rfl
  | ending =>
    simp only [withKeyword, endingOf]
    split
    · exact isChecked_of_not_isExecutable rfl
    · split
      · exact isChecked_of_nil rfl
      · exact isChecked_of_not_isExecutable rfl
  | elseIf => exact isChecked_elseIfOf _
  | «else» =>
    simp only [withKeyword]
    split
    · exact isChecked_of_nil rfl
    · exact isChecked_elseIfOf _
  | function => exact isChecked_functionOf rest
  | declaration kind => exact isChecked_declarationOf kind rest
  | print => exact isChecked_printOf rest
  | input => exact isChecked_inputOf rest
  | «while» | «if» | set =>
    simp only [withKeyword]
    split
    · exact isChecked_ifBalanced fun htexts => isChecked_of_balanced htexts
    · exact isChecked_of_not_isExecutable rfl
  | algorithm | endAlgorithm | declare =>
    simp only [withKeyword]
    split <;> exact isChecked_of_not_isExecutable rfl
  | «break» | «continue» =>
    simp only [withKeyword]
    split
    · exact isChecked_of_nil rfl
    · exact isChecked_of_not_isExecutable rfl

theorem isChecked_classify (line : Text) : (classify line).IsChecked := by
  rw [classify]
  split
  · exact isChecked_of_not_isExecutable rfl
  · exact isChecked_of_not_isExecutable rfl
  · split
    · exact isChecked_withKeyword _ _ _
    · exact isChecked_withoutKeyword _

theorem isNeutral_of_isFoldedNameStart (c : Char) (h : isFoldedNameStart c = true) : IsNeutral c :=
  isNeutral_of_class (p := isFoldedNameStart) (by decide) h

/-- A name has neither quotes nor brackets. -/
theorem IsSpelledAsName.isNeutral {n : Text} (h : IsSpelledAsName n) : ∀ c ∈ n, IsNeutral c := by
  obtain ⟨c, r, rfl, hc, hr⟩ := h
  intro d hd
  rcases List.mem_cons.1 hd with rfl | hd
  · exact isNeutral_of_isFoldedNameStart _ hc
  · exact isNeutral_of_isWordChar (hr d hd)

/-- The operands of a statement that is executed are balanced. -/
theorem imbalance?_operands {line : Text} (h : (classify line).isExecutable = true) :
    ∀ operand ∈ (classify line).operands, imbalance? operand = none := by
  intro operand hoperand
  rcases isChecked_classify line h operand hoperand with hname | hbalanced
  · exact (leads_neutral (isSpelledAsName_of_classify hname).isNeutral []).imbalance?_eq
  · exact hbalanced

end Statement

/-! ## What stands around the operands -/

/-- The written form of a number has no brackets. -/
theorem Numeral.hasBrackets_shortestText (x : Double) : HasBrackets (shortestText x) [] := by
  have hdigit {c : Char} (hc : c.isDigit = true) : IsNeutral c :=
    isNeutral_of_class (p := Char.isDigit) (by decide) hc
  cases x with
  | nan => exact Spells.hasBrackets (w := text "NaN") (by decide)
  | infinite negative =>
    cases negative with
    | false => exact Spells.hasBrackets (w := text "inf") (by decide)
    | true => exact Spells.hasBrackets (w := text "-inf") (by decide)
  | finite negative m q =>
    have hsign : HasBrackets (if negative then ['-'] else []) [] := by
      cases negative with
      | false => exact .nil
      | true => exact .other rfl (by decide) .nil
    apply hsign.append
    split
    · exact .other rfl (by decide) .nil
    · -- digits, with a point among them or without
      obtain ⟨whole, fraction, hdigits, -⟩ := positional_isPositional (Decimal.shortest m q)
      have hwhole : HasBrackets whole [] := hasBrackets_of_neutral fun c hc => hdigit (hdigits.digits c hc)
      rcases hdigits.text_eq with ⟨htext, -⟩ | htext
      · rw [htext]
        exact hwhole
      · rw [htext]
        apply hwhole.append
        have hfraction : HasBrackets fraction [] :=
          hasBrackets_of_neutral fun c hc => hdigit (hdigits.fractionDigits c hc)
        exact .other rfl (by decide) hfraction

namespace Translation

variable {operand name start stop prompt : Text} {a : List Char}

/-- A balanced operand is balanced in the script, wherever it stands there. -/
theorem leads_rewrite (context : Context) (h : imbalance? operand = none) (a : List Char) :
    Leads (rewrite context operand) a a := by
  apply leads_of_balanced
  rw [imbalance?_rewrite]
  exact imbalance?_trim h

theorem leads_value (h : imbalance? operand = none) (a : List Char) : Leads (value operand) a a :=
  leads_rewrite .value h a

theorem leads_inputCall {prompt : Option Text} (h : ∀ t ∈ prompt, imbalance? t = none) (a : List Char) :
    Leads (inputCall prompt) a a := by
  cases prompt with
  | none => exact leads_of_balanced (by decide +kernel) a
  | some prompt =>
    have hprompt : Leads (value prompt) ('(' :: a) ('(' :: a) := leads_value (h prompt rfl) _
    exact ((leads_opening (by decide) a).append hprompt).append (leads_closing (by decide) a)

theorem leads_initializer {init : Initializer} (h : imbalance? init.operand = none) (a : List Char) :
    Leads (initializer init) a a := by
  cases init with
  | expression operand => exact leads_value h a
  | input prompt =>
    apply leads_inputCall
    intro t ht
    rw [Option.mem_def.1 ht] at h
    exact h

/-- The header of a block opens a parenthesis and closes it again. -/
theorem leads_opening_condition {keyword : Text} (hkeyword : Spells keyword [])
    (h : imbalance? operand = none) : Leads (opening keyword (condition operand)) [] [] := by
  apply Leads.append _ (leads_closing (by decide) [])
  apply Leads.append _ (leads_rewrite .condition h _)
  exact (leads_plain hkeyword []).append (leads_opening (by decide) [])

/-- Both clauses of a loop header, whatever is known of the step. -/
theorem leads_loopClauses {step : Option Text} (hname : ∀ a, Leads name a a) (hstop : ∀ a, Leads stop a a)
    (hstep : ∀ t ∈ step, imbalance? t = none) (a : List Char) :
    Leads (loopClauses name stop step).1 a a ∧ Leads (loopClauses name stop step).2 a a := by
  have hcompare {sign : Text} (hsign : Spells sign []) : Leads (name ++ sign ++ stop) a a :=
    ((hname a).append (leads_plain hsign a)).append (hstop a)
  have hadvance {sign : Text} (hsign : Spells sign []) : Leads (name ++ sign) a a :=
    (hname a).append (leads_plain hsign a)
  cases step with
  | none => exact ⟨hcompare (by decide), hadvance (by decide)⟩
  | some step =>
    simp only [loopClauses]
    split
    · next n _ =>
      have hnumber (n : Double) : Leads (Numeral.shortestText n) a a :=
        leads_of_hasBrackets (Numeral.hasBrackets_shortestText n) fun _ => rfl
      -- a step below zero counts down
      split
      · exact ⟨hcompare (by decide), (hadvance (by decide)).append (hnumber _)⟩
      · exact ⟨hcompare (by decide), (hadvance (by decide)).append (hnumber _)⟩
    · -- the step is compared with zero first, in parentheses
      have hvalue : ∀ a, Leads (value step) a a := leads_value (hstep step rfl)
      have hgroup : Leads ('(' :: value step) a ('(' :: a) :=
        (leads_opening (w := ['(']) (by decide) a).append (hvalue _)
      have htest : Leads ('(' :: value step ++ text ") > 0 ? ") a a :=
        hgroup.append (leads_closing (by decide) a)
      have hup := ((htest.append (hname a)).append (leads_plain (w := text " <= ") (by decide) a)).append
        (hstop a)
      have hdown := ((hup.append (leads_plain (w := text " : ") (by decide) a)).append (hname a)).append
        ((leads_plain (w := text " >= ") (by decide) a))
      exact ⟨hdown.append (hstop a), (hadvance (by decide)).append (hvalue a)⟩

/-- The header of a loop holds one group in parentheses, which its clauses leave open. -/
theorem leads_forLoop {step : Option Text} (hname : ∀ a, Leads name a a) (hstart : imbalance? start = none)
    (hstop : imbalance? stop = none) (hstep : ∀ t ∈ step, imbalance? t = none) :
    Leads (forLoop name start stop step) [] [] := by
  obtain ⟨htest, hadvance⟩ := leads_loopClauses hname (leads_value hstop) hstep ['(']
  have hsemicolon : Leads (text "; ") ['('] ['('] := leads_plain (by decide) _
  apply Leads.append _ (leads_closing (by decide) [])
  apply Leads.append _ hadvance
  apply Leads.append _ hsemicolon
  apply Leads.append _ htest
  apply Leads.append _ hsemicolon
  apply Leads.append _ (leads_value hstart _)
  apply Leads.append _ (leads_plain (by decide) _)
  exact (leads_opening (by decide) []).append (hname _)

theorem leads_declaration {kind : DeclarationKind} {size : Option Text} {init : Option Initializer}
    (hname : imbalance? name = none) (hsize : ∀ t ∈ size, imbalance? t = none)
    (hinit : ∀ i ∈ init, imbalance? i.operand = none) : Leads (declaration kind name size init) [] [] := by
  have hword : Leads (declarationWord kind ++ ' ' :: name) [] [] := by
    have hblank : Leads (' ' :: name) [] [] :=
      (leads_plain (w := [' ']) (by decide) []).append (leads_of_balanced hname [])
    apply Leads.append _ hblank
    rw [declarationWord]
    split
    · exact leads_plain (by decide) []
    · exact leads_plain (by decide) []
  have hend : Leads [';'] [] [] := leads_plain (by decide) []
  cases size with
  | some size =>
    -- the parenthesis of the size is closed before the array is filled
    have hspells : Spells (text ").fill(0);") (text ")()") := by decide
    have hfill : Leads (text ").fill(0);") ['('] [] := leads_of_hasBrackets hspells.hasBrackets fun _ => rfl
    apply Leads.append _ hfill
    apply Leads.append _ (leads_value (hsize size rfl) _)
    exact hword.append (leads_opening (by decide) [])
  | none =>
    cases init with
    | some init =>
      apply Leads.append _ hend
      apply Leads.append _ (leads_initializer (hinit init rfl) [])
      exact hword.append (leads_plain (by decide) [])
    | none =>
      apply Leads.append _ hend
      exact (leads_plain (by decide) []).append (leads_of_balanced hname [])

/-- The script of a statement leads back to where it began if all its operands are balanced. -/
theorem leads_statement (line : Text) {s : Statement} (hexecutable : s.isExecutable = true)
    (h : ∀ operand ∈ s.operands, imbalance? operand = none) : Leads (statement line s) [] [] := by
  have hend : Leads [';'] [] [] := leads_plain (by decide) []
  have hassigned : Leads (text " = ") [] [] := leads_plain (by decide) []
  -- braces are no brackets here, so a line that opens a block is balanced in itself
  cases s with
  | blank | comment | header | footer | declare | malformed | raw => cases hexecutable
  | otherwise => exact leads_plain (w := text "\x7d else \x7b") (by decide) []
  | breaking => exact leads_plain (w := text "break;") (by decide) []
  | continuing => exact leads_plain (w := text "continue;") (by decide) []
  | ending => exact leads_plain (w := text "\x7d") (by decide) []
  | whileLoop c => exact leads_opening_condition (by decide) (h c List.mem_cons_self)
  | branch c => exact leads_opening_condition (by decide) (h c List.mem_cons_self)
  | elseIf c => exact leads_opening_condition (by decide) (h c List.mem_cons_self)
  | forLoop name start stop step =>
    simp only [Statement.operands, List.forall_mem_cons, Option.mem_toList] at h
    obtain ⟨hname, hstart, hstop, hstep⟩ := h
    exact leads_forLoop (leads_of_balanced hname) hstart hstop hstep
  | function name parameters =>
    obtain ⟨hname, hparameters⟩ := List.forall_mem_cons.1 h
    apply Leads.append _ (leads_closing (by decide) [])
    have hlist : Leads ('(' :: Text.join (text ", ") parameters) [] ['('] :=
      (leads_opening (w := ['(']) (by decide) []).append (leads_join hparameters _)
    apply Leads.append _ hlist
    exact (leads_plain (by decide) []).append (leads_of_balanced hname [])
  | returning value =>
    cases value with
    | none => exact leads_plain (w := text "return;") (by decide) []
    | some v =>
      apply Leads.append _ hend
      exact (leads_plain (by decide) []).append (leads_value (h v List.mem_cons_self) [])
  | declaration kind name size init =>
    simp only [Statement.operands, List.forall_mem_cons, List.forall_mem_append, Option.mem_toList] at h
    obtain ⟨hname, hsize, hinit⟩ := h
    apply leads_declaration hname hsize
    intro i hi
    exact hinit _ (Option.mem_map_of_mem _ hi)
  | set v target =>
    obtain ⟨hv, htarget⟩ := List.forall_mem_cons.1 h
    apply Leads.append _ hend
    apply Leads.append _ (leads_value hv [])
    exact (leads_value (htarget target List.mem_cons_self) []).append hassigned
  | print items =>
    have hvalues : ∀ t ∈ items.map value, imbalance? t = none := by
      intro t ht
      obtain ⟨item, hitem, rfl⟩ := List.mem_map.1 ht
      exact (leads_value (h item hitem) []).imbalance?_eq
    apply Leads.append _ (leads_closing (by decide) [])
    exact (leads_opening (by decide) []).append (leads_join hvalues _)
  | input prompt target =>
    simp only [Statement.operands, List.forall_mem_append, Option.mem_toList] at h
    have hcall : Leads (inputCall prompt) [] [] := leads_inputCall h.1 []
    cases target with
    | none => exact hcall.append hend
    | some target =>
      exact (((leads_value (h.2 target rfl) []).append hassigned).append hcall).append hend
  | assignment target operator init =>
    obtain ⟨htarget, hinit⟩ := List.forall_mem_cons.1 h
    have hleft : Leads (value target) [] [] := leads_value htarget []
    have hright : Leads (initializer init) [] [] := leads_initializer (hinit _ List.mem_cons_self) []
    cases init with
    | input prompt => exact ((hleft.append hassigned).append hright).append hend
    | expression operand =>
      have hsign : Leads (' ' :: operator.sign) [] [] := by
        cases operator <;> exact leads_plain (by decide) []
      apply Leads.append _ hend
      apply Leads.append (hleft.append hsign)
      exact (leads_plain (w := [' ']) (by decide) []).append hright
  | call called => exact (leads_value (h called List.mem_cons_self) []).append hend

end Translation

/-- A line whose statement is executed is written as a balanced line of script: its literals end, and its brackets
    nest. -/
theorem isBalanced_scriptLine (line : Line)
    (h : (Statement.classify line.trimmed).isExecutable = true) :
    isBalanced (Translation.scriptLine line) = true ∧
      ∃ bs, HasBrackets (Translation.scriptLine line) bs ∧ Nests bs := by
  have hleading : Leads line.leading [] [] :=
    leads_neutral (fun c hc => isNeutral_of_isBlank (Text.isBlank_of_mem_leadingBlanks hc)) []
  have hstatement := Translation.leads_statement line.trimmed h (Statement.imbalance?_operands h)
  have hbalanced : imbalance? (Translation.scriptLine line) = none := by
    rw [Translation.scriptLine]
    split
    · exact hstatement.imbalance?_eq
    · exact (hleading.append hstatement).imbalance?_eq
  constructor
  · rw [isBalanced, hbalanced]
    rfl
  · exact imbalance?_eq_none_iff.1 hbalanced

theorem isBalanced_scriptLine_print :
    Translation.scriptLine ⟨1, text "  PRINT (\"a)\", x[f(1)], 2 <> (3))"⟩ =
        text "  print(\"a)\", x[f(1)], 2 != (3));" ∧
      isBalanced (Translation.scriptLine ⟨1, text "  PRINT (\"a)\", x[f(1)], 2 <> (3))"⟩) = true :=
  ⟨by decide +kernel, (isBalanced_scriptLine _ (by decide +kernel)).1⟩

end Pseudocode
