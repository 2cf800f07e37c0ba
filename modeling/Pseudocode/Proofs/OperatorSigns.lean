import Mathlib.Data.List.Infix
import Pseudocode.Script.Token

/-!
# The signs of operators

A text begins with an operator where it begins with the sign of the operator and does not go on with
one of the characters that are barred behind it. So there is at most one such operator: where a sign
is the beginning of another one, the longer one goes on with a barred character.

* `binaryOperator?_eq_some_iff`       the binary operator that a text begins with
* `assignmentOperator?_eq_some_iff`   the operator that assigns
* `eq_of_binarySign_append`           no text begins with two binary operators
* `assignmentSign_append_ne`          nor with one of either kind
-/

namespace Pseudocode

namespace BinaryOperator

/-- The characters that an operator is not read before. -/
def barred : BinaryOperator → List Char
  | add | subtract => ['=', '+', '-']
  | multiply | divide | remainder | less | greater | equal | notEqual => ['=']
  | _ => []

/-- All of them. -/
def all : List BinaryOperator :=
  [add, subtract, multiply, divide, remainder, less, lessEqual, greater, greaterEqual, equal, notEqual,
    strictEqual, strictNotEqual, and, or]

theorem mem_all (operator : BinaryOperator) : operator ∈ all := by
  cases operator <;> decide

end BinaryOperator

/-- All of them. -/
def AssignmentOperator.all : List AssignmentOperator :=
  [plain, add, subtract, multiply, divide, remainder]

theorem AssignmentOperator.mem_all (operator : AssignmentOperator) : operator ∈ all := by
  cases operator <;> decide

namespace Script

/-- The characters that operators between two operands begin with. -/
def operatorStarts : List Char := ['|', '&', '=', '!', '<', '>', '+', '-', '*', '/', '%']

/-! ## What a text begins with -/

section

variable {t : Text} {n : Nat}

theorem binaryOperator?_eq_some_iff {level : Level} {operator : BinaryOperator} :
    Token.binaryOperator? level t = some (operator, n) ↔ level = operator.level ∧
      n = operator.sign.length ∧
        ∃ r, t = operator.sign ++ r ∧ ∀ c ∈ r.head?, c ∉ operator.barred := by
  constructor
  · intro h
    unfold Token.binaryOperator? at h
    split at h
    case h_16 => cases h
    case h_11 r | h_12 r | h_13 r | h_14 r | h_15 r =>
      obtain ⟨hnext, hfound⟩ := Option.ite_none_left_eq_some.1 h
      obtain ⟨rfl, rfl⟩ := Prod.mk.inj (Option.some.inj hfound)
      refine ⟨rfl, rfl, r, rfl, fun c hc hbarred => hnext ?_⟩
      rw [Option.mem_def.1 hc]
      exact decide_eq_true hbarred
    case h_5 r hnext | h_6 r hnext | h_9 r hnext | h_10 r hnext =>
      obtain ⟨rfl, rfl⟩ := Prod.mk.inj (Option.some.inj h)
      refine ⟨rfl, rfl, r, rfl, fun c hc hbarred => ?_⟩
      obtain rfl := List.mem_singleton.1 hbarred
      exact hnext _ (List.cons_head?_tail hc).symm
    all_goals
      obtain ⟨rfl, rfl⟩ := Prod.mk.inj (Option.some.inj h)
      exact ⟨rfl, rfl, _, rfl, fun _ _ => List.not_mem_nil⟩
  · rintro ⟨rfl, rfl, r, rfl, hr⟩
    cases operator
    case equal | notEqual | less | greater =>
      -- with an equals sign behind it, the text would begin with a longer sign
      have hnext (s : Text) (heq : r = '=' :: s) : False :=
        hr '=' (by rw [heq]; rfl) (List.mem_singleton_self '=')
      simp [Token.binaryOperator?, BinaryOperator.level, BinaryOperator.sign, text]
    case add | subtract | multiply | divide | remainder =>
      refine if_neg fun hbarred => ?_
      obtain ⟨c, hc, hbarred⟩ := (Option.any_eq_true ..).1 hbarred
      exact hr c hc (of_decide_eq_true hbarred)
    all_goals rfl

theorem assignmentOperator?_eq_some_iff {operator : AssignmentOperator} :
    Token.assignmentOperator? t = some (operator, n) ↔ n = operator.sign.length ∧
      ∃ r, t = operator.sign ++ r ∧ r.head? ≠ some '=' := by
  constructor
  · intro h
    unfold Token.assignmentOperator? at h
    split at h
    case h_7 => cases h
    all_goals
      obtain ⟨hnext, hfound⟩ := Option.ite_none_left_eq_some.1 h
      obtain ⟨rfl, rfl⟩ := Prod.mk.inj (Option.some.inj hfound)
      exact ⟨rfl, _, rfl, hnext⟩
  · rintro ⟨rfl, r, rfl, hnext⟩
    cases operator
    all_goals exact if_neg hnext

end

/-! ## What the signs begin with -/

theorem exists_binarySign (operator : BinaryOperator) :
    ∃ c w, operator.sign = c :: w ∧ c ∈ operatorStarts := by
  cases operator <;> exact ⟨_, _, rfl, by decide⟩

theorem exists_assignmentSign (operator : AssignmentOperator) :
    ∃ c w, operator.sign = c :: w ∧ c ∈ operatorStarts := by
  cases operator <;> exact ⟨_, _, rfl, by decide⟩

theorem binaryOperator?_eq_none {c : Char} (h : c ∉ operatorStarts) (level : Level) (t : Text) :
    Token.binaryOperator? level (c :: t) = none := by
  refine Option.eq_none_iff_forall_ne_some.2 fun ⟨operator, _⟩ hscan => ?_
  obtain ⟨-, -, r, heq, -⟩ := binaryOperator?_eq_some_iff.1 hscan
  obtain ⟨d, w, hsign, hd⟩ := exists_binarySign operator
  rw [hsign, List.cons_append, List.cons.injEq] at heq
  exact h (heq.1 ▸ hd)

theorem binaryOperator?_nil (level : Level) : Token.binaryOperator? level [] = none := by
  refine Option.eq_none_iff_forall_ne_some.2 fun ⟨operator, _⟩ hscan => ?_
  obtain ⟨-, -, r, heq, -⟩ := binaryOperator?_eq_some_iff.1 hscan
  obtain ⟨_, _, hsign, -⟩ := exists_binarySign operator
  rw [hsign] at heq
  cases heq

theorem assignmentOperator?_eq_none {c : Char} (h : c ∉ operatorStarts) (t : Text) :
    Token.assignmentOperator? (c :: t) = none := by
  refine Option.eq_none_iff_forall_ne_some.2 fun ⟨operator, _⟩ hscan => ?_
  obtain ⟨-, r, heq, -⟩ := assignmentOperator?_eq_some_iff.1 hscan
  obtain ⟨d, w, hsign, hd⟩ := exists_assignmentSign operator
  rw [hsign, List.cons_append, List.cons.injEq] at heq
  exact h (heq.1 ▸ hd)

/-! ## Signs that begin other signs -/

/-- What stands behind a sign that begins another one is the rest of that one. -/
theorem head?_of_isPrefix {v w r s : Text} {c : Char} (hbegin : v <+: w) (h : v ++ r = w ++ s)
    (hc : c ∈ (w.drop v.length).head?) : c ∈ r.head? := by
  obtain ⟨u, rfl⟩ := hbegin
  rw [List.append_assoc, List.append_cancel_left_eq] at h
  rw [List.drop_left] at hc
  rw [h, ← List.cons_head?_tail hc]
  rfl

/-- The sign of a binary operator begins another one only if that one goes on with a barred
    character. -/
theorem barred_of_isPrefix {operator operator' : BinaryOperator} (h : operator.sign <+: operator'.sign) :
    operator = operator' ∨
      ∃ c ∈ (operator'.sign.drop operator.sign.length).head?, c ∈ operator.barred := by
  have hall : ∀ a ∈ BinaryOperator.all, ∀ b ∈ BinaryOperator.all, a.sign <+: b.sign →
      a = b ∨ ((b.sign.drop a.sign.length).head?.any fun c => c ∈ a.barred) = true := by decide +kernel
  refine (hall _ operator.mem_all _ operator'.mem_all h).imp_right fun hany => ?_
  obtain ⟨c, hc, hbarred⟩ := (Option.any_eq_true ..).1 hany
  exact ⟨c, hc, of_decide_eq_true hbarred⟩

/-- No text begins with two binary operators. -/
theorem eq_of_binarySign_append {operator operator' : BinaryOperator} {r r' : Text}
    (hr : ∀ c ∈ r.head?, c ∉ operator.barred)
    (hr' : ∀ c ∈ r'.head?, c ∉ operator'.barred)
    (h : operator.sign ++ r = operator'.sign ++ r') : operator = operator' := by
  have hbegins : operator'.sign <+: operator.sign ++ r := h ▸ List.prefix_append ..
  rcases List.prefix_or_prefix_of_prefix (List.prefix_append ..) hbegins with hbegin | hbegin
  · rcases barred_of_isPrefix hbegin with heq | ⟨c, hc, hbarred⟩
    · exact heq
    · exact absurd hbarred (hr c (head?_of_isPrefix hbegin h hc))
  · rcases barred_of_isPrefix hbegin with heq | ⟨c, hc, hbarred⟩
    · exact heq.symm
    · exact absurd hbarred (hr' c (head?_of_isPrefix hbegin h.symm hc))

/-- No text begins with a binary operator and an operator that assigns. -/
theorem assignmentSign_append_ne {operator : AssignmentOperator}
    {operator' : BinaryOperator} {r r' : Text} (hr : r.head? ≠ some '=')
    (hr' : ∀ c ∈ r'.head?, c ∉ operator'.barred) :
    operator.sign ++ r ≠ operator'.sign ++ r' := by
  intro h
  have hall : ∀ a ∈ AssignmentOperator.all, ∀ b ∈ BinaryOperator.all,
      (a.sign <+: b.sign → '=' ∈ (b.sign.drop a.sign.length).head?) ∧
        (b.sign <+: a.sign → ((a.sign.drop b.sign.length).head?.any fun c => c ∈ b.barred) = true) := by
    decide +kernel
  obtain ⟨hassignment, hbinary⟩ := hall _ operator.mem_all _ operator'.mem_all
  have hbegins : operator'.sign <+: operator.sign ++ r := h ▸ List.prefix_append ..
  rcases List.prefix_or_prefix_of_prefix (List.prefix_append ..) hbegins with hbegin | hbegin
  · exact hr (head?_of_isPrefix hbegin h (hassignment hbegin))
  · obtain ⟨c, hc, hbarred⟩ := (Option.any_eq_true ..).1 (hbinary hbegin)
    exact hr' c (head?_of_isPrefix hbegin h.symm hc) (of_decide_eq_true hbarred)

/-- Where an operator that assigns is read, no binary operator is. -/
theorem binaryOperator?_eq_none_of_assignment {t : Text} {operator : AssignmentOperator} {n : Nat}
    (h : Token.assignmentOperator? t = some (operator, n)) (level : Level) :
    Token.binaryOperator? level t = none := by
  refine Option.eq_none_iff_forall_ne_some.2 fun ⟨operator', _⟩ hscan => ?_
  obtain ⟨-, r, rfl, hr⟩ := assignmentOperator?_eq_some_iff.1 h
  obtain ⟨-, -, r', heq, hr'⟩ := binaryOperator?_eq_some_iff.1 hscan
  exact assignmentSign_append_ne hr hr' heq

end Script

end Pseudocode
