import Pseudocode.Proofs.Text
import Pseudocode.Source.Classify

/-!
# Operands stay within their line

Every text that a statement keeps is made of characters of the line that it was read from, apart
from the keyword that `print` and `input` share with names. So a statement of one line holds no line
feed, whatever shape the line has.
-/

namespace Pseudocode

/-! ## Shapes -/

namespace Shape

theorem dropWord?_eq_some {word t r : Text} (h : dropWord? word t = some r) : r <:+ t := by
  induction word generalizing t with
  | nil =>
    obtain rfl : t = r := by simpa [dropWord?] using h
    exact List.suffix_refl _
  | cons w word ih =>
    cases t with
    | nil => simp [dropWord?] at h
    | cons c t =>
      rw [dropWord?] at h
      split at h
      · exact (ih h).trans (List.suffix_cons c t)
      · cases h

theorem separator_eq_some {β : Type} {word : Text} {next : Text → Option β} {t : Text} {b : β}
    (h : separator word next t = some b) : ∃ r, r <:+ t ∧ next r = some b := by
  obtain ⟨r, hr, hb⟩ := someBlanks_eq_some h
  obtain ⟨u, hu, hb⟩ := Option.bind_eq_some_iff.1 hb
  obtain ⟨v, hv, hb⟩ := someBlanks_eq_some hb
  exact ⟨v, hv.trans ((dropWord?_eq_some hu).trans hr), hb⟩

theorem name?_eq_some {starts : Char → Bool} {t name rest : Text}
    (h : name? starts t = some (name, rest)) : t = name ++ rest := by
  cases t with
  | nil => simp [name?] at h
  | cons c r =>
    rw [name?] at h
    split at h
    · simp only [Option.some.injEq, Prod.mk.injEq] at h
      obtain ⟨rfl, rfl⟩ := h
      simp
    · cases h

/-- What the parts of bracketed groups take is a beginning of the text, and `next` reads the rest. -/
private theorem group_eq_some {β : Type} {inner : Char → Bool} {next : Text → Option β} (t : Text) :
    ∀ g b, groupStart inner next t = some (g, b) ∨ groupFirst inner next t = some (g, b) ∨
      groupRest inner next t = some (g, b) → ∃ r, t = g ++ r ∧ next r = some b := by
  induction t with
  | nil => simp [groupStart, groupFirst, groupRest]
  | cons c r ih =>
    -- one character more in front of what a part takes of the rest
    have more {part : Option (Text × β)} {g : Text} {b : β}
        (hpart : ∀ g b, part = some (g, b) → ∃ s, r = g ++ s ∧ next s = some b)
        (h : part.map (fun p => (c :: p.1, p.2)) = some (g, b)) :
        ∃ s, c :: r = g ++ s ∧ next s = some b := by
      simp only [Option.map_eq_some_iff, Prod.mk.injEq, Prod.exists] at h
      obtain ⟨g, b, h, rfl, rfl⟩ := h
      obtain ⟨s, rfl, hs⟩ := hpart g b h
      exact ⟨s, rfl, hs⟩
    have hstart : ∀ g b, groupStart inner next r = some (g, b) →
        ∃ s, r = g ++ s ∧ next s = some b := fun g b h => ih g b (.inl h)
    have hfirst : ∀ g b, groupFirst inner next r = some (g, b) →
        ∃ s, r = g ++ s ∧ next s = some b := fun g b h => ih g b (.inr (.inl h))
    have hrest : ∀ g b, groupRest inner next r = some (g, b) →
        ∃ s, r = g ++ s ∧ next s = some b := fun g b h => ih g b (.inr (.inr h))
    rintro g b (h | h | h)
    · rw [groupStart] at h
      split at h
      · exact more hfirst h
      · split at h
        · exact more hstart h
        · cases h
    · rw [groupFirst] at h
      split at h
      · exact more hrest h
      · cases h
    · rw [groupRest, Option.orElse_eq_orElse, Option.orElse_eq_or, Option.or_eq_some_iff] at h
      rcases h with h | ⟨-, h⟩
      · split at h
        · rw [Option.orElse_eq_or, Option.or_eq_some_iff] at h
          rcases h with h | ⟨-, h⟩
          · exact more hstart h
          · simp only [Option.map_eq_some_iff, Prod.mk.injEq] at h
            obtain ⟨b, h, rfl, rfl⟩ := h
            exact ⟨r, rfl, h⟩
        · cases h
      · split at h
        · exact more hrest h
        · cases h

/-- Bracketed groups are a beginning of the text, and `next` reads the rest. -/
theorem brackets_eq_some {β : Type} {inner : Char → Bool} {next : Text → Option β} {t g : Text}
    {b : β} (h : brackets inner next t = some (g, b)) : ∃ r, t = g ++ r ∧ next r = some b := by
  rw [brackets, Option.orElse_eq_orElse, Option.orElse_eq_or, Option.or_eq_some_iff] at h
  rcases h with h | ⟨-, h⟩
  · exact group_eq_some t g b (.inl h)
  · simp only [Option.map_eq_some_iff, Prod.mk.injEq] at h
    obtain ⟨b, h, rfl, rfl⟩ := h
    exact ⟨t, rfl, h⟩

end Shape

/-! ## Lists -/

namespace Expression

/-- Every segment but the first, and the first one after what was already read of it, is a
    contiguous part of the text. -/
private theorem segmentsFrom_isInfix {ts : List Token} :
    ∀ depth current, ∀ p ∈ segmentsFrom depth current ts,
      p <:+: current.reverse ++ ts.flatMap Token.chars := by
  induction ts with
  | nil =>
    intro depth current p hp
    obtain rfl : p = current.reverse := by simpa [segmentsFrom] using hp
    simp
  | cons token r ih =>
    intro depth current p hp
    -- the token joins the current segment, at whatever depth
    have joined (depth : Nat) (hp : p ∈ segmentsFrom depth (token.chars.reverse ++ current) r) :
        p <:+: current.reverse ++ (token :: r).flatMap Token.chars := by
      simpa using ih depth _ p hp
    cases token with
    | literal chars closed => exact joined depth (by simpa [segmentsFrom] using hp)
    | word chars => exact joined depth (by simpa [segmentsFrom] using hp)
    | sign c =>
      rw [segmentsFrom] at hp
      split at hp
      · exact joined (depth + 1) hp
      · split at hp
        · exact joined (depth - 1) hp
        · split at hp
          · rcases List.mem_cons.1 hp with rfl | hp
            · exact (List.prefix_append _ _).isInfix
            · have hafter := ih 0 [] p hp
              rw [List.flatMap_cons, ← List.append_assoc]
              exact hafter.trans (List.suffix_append _ _).isInfix
          · exact joined depth hp

/-- The items of a list are cut out of its text. -/
theorem splitList_isInfix {t item : Text} (h : item ∈ splitList t) : item <:+: t := by
  have hitems : ∀ p ∈ (segmentsFrom 0 [] (tokens t)).map Text.trim, p <:+: t := by
    intro p hp
    obtain ⟨q, hq, rfl⟩ := List.mem_map.1 hp
    have hsegment := segmentsFrom_isInfix 0 [] q hq
    rw [List.reverse_nil, List.nil_append, chars_tokens] at hsegment
    exact (Text.trim_isInfix q).trans hsegment
  rw [splitList] at h
  split at h
  · cases h
  · exact hitems item h

end Expression

/-! ## Statements -/

namespace Statement

open Shape Expression

/-- The texts that a statement keeps of its line. -/
def operands : Statement → List Text
  | blank | footer | otherwise | breaking | continuing | ending _ | malformed _ _ => []
  | comment t | header t | whileLoop t | branch t | elseIf t | call t | raw t => [t]
  | forLoop name start stop step => name :: start :: stop :: step.toList
  | function name parameters => name :: parameters
  | returning value => value.toList
  | declaration _ name size init => name :: (size.toList ++ (init.map Initializer.operand).toList)
  | set value target => [value, target]
  | declare name typeName => [name, typeName]
  | print items => items
  | input prompt target => prompt.toList ++ target.toList
  | assignment target _ value => [target, value.operand]

/-- All texts of a statement are contiguous parts of `t`. -/
def IsCutFrom (s : Statement) (t : Text) : Prop := ∀ operand ∈ s.operands, operand <:+: t

theorem IsCutFrom.mono {s : Statement} {t u : Text} (h : s.IsCutFrom t) (htu : t <:+: u) :
    s.IsCutFrom u := fun operand ho => (h operand ho).trans htu

theorem isCutFrom_malformed (form : Form) (fault : Fault) (t : Text) :
    (malformed form fault).IsCutFrom t := by
  simp [IsCutFrom, operands]

/-- A statement that is malformed keeps nothing. -/
theorem IsCutFrom.ifBalanced {form : Form} {texts : List Text} {s : Statement} {t : Text}
    (h : s.IsCutFrom t) : (ifBalanced form texts s).IsCutFrom t := by
  rw [Statement.ifBalanced]
  split
  · exact isCutFrom_malformed _ _ t
  · exact h

theorem insideParentheses?_eq_some {t inner : Text} (h : insideParentheses? t = some inner) :
    t = '(' :: inner ++ [')'] := by
  rw [insideParentheses?] at h
  split at h
  · cases h
  · next r hr =>
    obtain ⟨h, -⟩ := Option.filter_eq_some_iff.1 h
    rw [Text.dropStart?_eq_some hr, Text.dropEnd?_eq_some h]
    rfl

theorem insideParentheses?_isInfix {t inner : Text} (h : insideParentheses? t = some inner) :
    inner <:+: t :=
  ⟨['('], [')'], (insideParentheses?_eq_some h).symm⟩

theorem promptOperand_isInfix {t prompt : Text} (h : promptOperand t = some prompt) :
    prompt <:+: t := by
  simp only [promptOperand, Option.ite_none_left_eq_some, Option.some.injEq] at h
  obtain ⟨-, rfl⟩ := h
  split
  · next inner hinner =>
    exact ((Text.trim_isInfix inner).trans (insideParentheses?_isInfix hinner)).trans (Text.trim_isInfix t)
  · exact Text.trim_isInfix t

theorem operand_initializer_isInfix (t : Text) : (initializer t).operand <:+: t := by
  simp only [initializer]
  split
  · cases hp : promptOperand ((Text.trim t).drop 5) with
    | none => exact (List.nil_prefix).isInfix
    | some prompt =>
      exact ((promptOperand_isInfix hp).trans (List.drop_suffix 5 _).isInfix).trans (Text.trim_isInfix t)
  · exact Text.trim_isInfix t

theorem header?_isInfix {t name : Text} (h : header? t = some name) : name <:+: t := by
  obtain ⟨r, hr, h⟩ := someBlanks_eq_some h
  split at h
  · cases h
  · obtain rfl := Option.some.inj h
    exact hr.isInfix

theorem returnValue?_isInfix {t value : Text} (h : returnValue? t = some (some value)) :
    value <:+: t := by
  cases t with
  | nil => simp [returnValue?] at h
  | cons c r =>
    obtain ⟨v, hv, h⟩ := Option.map_eq_some_iff.1 h
    obtain rfl := Option.some.inj h
    exact header?_isInfix hv

theorem loopBounds?_isInfix {t start stop : Text} {step : Option Text}
    (h : loopBounds? t = some (start, stop, step)) :
    start <:+: t ∧ stop <:+: t ∧ step.getD [] <:+: t := by
  obtain ⟨u, hu, h⟩ := blanks_eq_some h
  obtain ⟨v, rfl, -, -, h⟩ := passage_eq_some h
  obtain ⟨w, hw, h⟩ := separator_eq_some h
  obtain ⟨x, rfl, -, -, h⟩ := passage_eq_some h
  -- each reader hands on an end of the text that it was given
  have hafter : stop ++ x <:+: t := (hw.trans ((List.suffix_append start v).trans hu)).isInfix
  refine ⟨(List.prefix_append start v).isInfix.trans hu.isInfix,
    (List.prefix_append stop x).isInfix.trans hafter, ?_⟩
  rw [Option.orElse_eq_orElse, Option.orElse_eq_or, Option.or_eq_some_iff] at h
  rcases h with h | ⟨-, h⟩
  · simp only [Option.map_eq_some_iff, Prod.exists] at h
    obtain ⟨p, _, hstep, rfl⟩ := h
    obtain ⟨y, hy, hpassage⟩ := separator_eq_some hstep
    obtain ⟨z, rfl, -, -, -⟩ := passage_eq_some hpassage
    exact ((List.prefix_append p z).isInfix.trans
      (hy.trans (List.suffix_append stop x)).isInfix).trans hafter
  · simp only [Option.map_eq_some_iff] at h
    obtain ⟨_, -, rfl⟩ := h
    exact List.nil_prefix.isInfix

theorem dropAssignSign?_suffix {t r : Text} (h : dropAssignSign? t = some r) : r <:+ t := by
  unfold dropAssignSign? at h
  split at h <;> cases h
  all_goals
    first
    | exact List.suffix_cons _ _
    | exact (List.suffix_cons _ _).trans (List.suffix_cons _ _)

theorem forLoop?_isInfix {t name start stop : Text} {step : Option Text}
    (h : forLoop? t = some (name, start, stop, step)) :
    name <:+: t ∧ start <:+: t ∧ stop <:+: t ∧ step.getD [] <:+: t := by
  obtain ⟨u, hu, h⟩ := someBlanks_eq_some h
  simp only [Option.bind_eq_bind, Option.bind_eq_some_iff, Prod.exists, Option.pure_def,
    Option.some.injEq, Prod.mk.injEq] at h
  obtain ⟨name, v, hname, w, hw, _, _, _, hbounds, rfl, rfl, rfl, rfl⟩ := h
  obtain rfl := name?_eq_some hname
  have hrest : w <:+: t := ((dropAssignSign?_suffix hw).trans ((Text.trimStart_suffix v).trans
    ((List.suffix_append name v).trans hu))).isInfix
  obtain ⟨hstart, hstop, hstep⟩ := loopBounds?_isInfix hbounds
  exact ⟨(List.prefix_append name v).isInfix.trans hu.isInfix, hstart.trans hrest,
    hstop.trans hrest, hstep.trans hrest⟩

theorem condition?_isInfix {words : List Text} {t condition : Text}
    (h : condition? words t = some condition) : condition <:+: t := by
  rw [condition?] at h
  split at h
  · split at h
    · next passed _ hread =>
      obtain ⟨u, hu, hread⟩ := blanks_eq_some hread
      obtain ⟨v, rfl, -, -, -⟩ := passage_eq_some hread
      split at h
      · cases h
      · obtain rfl := Option.some.inj h
        exact (List.prefix_append passed v).isInfix.trans hu.isInfix
    · cases h
  · cases h

theorem function?_isInfix {t name parameters : Text} (h : function? t = some (name, parameters)) :
    name <:+: t ∧ parameters <:+: t := by
  obtain ⟨u, hu, h⟩ := someBlanks_eq_some h
  simp only [Option.bind_eq_bind, Option.bind_eq_some_iff, Prod.exists] at h
  obtain ⟨n, v, hname, w, hw, x, hx, h⟩ := h
  split at h
  · cases h
  · simp only [Option.some.injEq, Prod.mk.injEq] at h
    obtain ⟨rfl, rfl⟩ := h
    obtain rfl := name?_eq_some hname
    have hrest : ['('] ++ (x ++ [')']) <:+ v := by
      have := Text.trimStart_suffix v
      rwa [Text.dropStart?_eq_some hw, Text.dropEnd?_eq_some hx] at this
    have hlist : x <:+: ['('] ++ (x ++ [')']) := ⟨['('], [')'], by simp⟩
    exact ⟨(List.prefix_append n v).isInfix.trans hu.isInfix,
      hlist.trans (hrest.trans ((List.suffix_append n v).trans hu)).isInfix⟩

theorem initialValue?_isInfix {t : Text} {value : Option Text} (h : initialValue? t = some value) :
    value.getD [] <:+: t := by
  unfold initialValue? at h
  split at h
  · obtain rfl := Option.some.inj h
    exact List.nil_prefix.isInfix
  · next r =>
    simp only [Option.ite_none_left_eq_some, Option.some.injEq] at h
    obtain ⟨-, rfl⟩ := h
    exact ((Text.trimStart_suffix r).trans (List.suffix_cons '=' r)).isInfix
  · cases h

theorem declaration?_isInfix {t name : Text} {size value : Option Text}
    (h : declaration? t = some (name, size, value)) :
    name <:+: t ∧ size.getD [] <:+: t ∧ value.getD [] <:+: t := by
  obtain ⟨u, hu, h⟩ := someBlanks_eq_some h
  simp only [Option.bind_eq_bind, Option.bind_eq_some_iff, Prod.exists] at h
  obtain ⟨n, v, hname, h⟩ := h
  obtain rfl := name?_eq_some hname
  have hn : n <:+: t := (List.prefix_append n v).isInfix.trans hu.isInfix
  have hrest : Text.trimStart v <:+ t :=
    (Text.trimStart_suffix v).trans ((List.suffix_append n v).trans hu)
  -- with a size in brackets and without one
  split at h
  · next r hr =>
    rw [hr] at hrest
    simp only [Option.bind_eq_some_iff, Prod.exists, Option.pure_def, Option.some.injEq,
      Prod.mk.injEq] at h
    obtain ⟨s, w, hread, rfl, rfl, rfl⟩ := h
    obtain ⟨x, hx, hread⟩ := blanks_eq_some hread
    obtain ⟨y, rfl, -, -, hread⟩ := passage_eq_some hread
    obtain ⟨z, hz, hread⟩ := blanks_eq_some hread
    obtain ⟨closed, hclosed, hvalue⟩ := Option.bind_eq_some_iff.1 hread
    have hsize : s ++ y <:+ t := hx.trans ((List.suffix_cons '[' r).trans hrest)
    have hclosed : closed <:+ t := by
      rw [Text.dropStart?_eq_some hclosed] at hz
      exact (List.suffix_append _ closed).trans (hz.trans ((List.suffix_append s y).trans hsize))
    exact ⟨hn, (List.prefix_append s y).isInfix.trans hsize.isInfix,
      (initialValue?_isInfix hvalue).trans ((Text.trimStart_suffix closed).trans hclosed).isInfix⟩
  · simp only [Option.map_eq_some_iff, Prod.mk.injEq] at h
    obtain ⟨v', hvalue, rfl, rfl, rfl⟩ := h
    exact ⟨hn, List.nil_prefix.isInfix, (initialValue?_isInfix hvalue).trans hrest.isInfix⟩

theorem place?_eq_some {t target : Text} (h : place? t = some target) : target = t := by
  rw [place?] at h
  split at h
  · cases h
  · exact (Option.some.inj h).symm
  · split at h
    · simp only [Option.ite_none_left_eq_some, Option.some.injEq] at h
      exact h.2.symm
    · cases h

theorem set?_isInfix {t value target : Text} (h : set? t = some (value, target)) :
    value <:+: t ∧ target <:+: t := by
  obtain ⟨u, hu, h⟩ := someBlanks_eq_some h
  obtain ⟨v, rfl, -, -, h⟩ := passage_eq_some h
  obtain ⟨w, hw, h⟩ := separator_eq_some h
  obtain rfl := place?_eq_some h
  exact ⟨(List.prefix_append value v).isInfix.trans hu.isInfix,
    (hw.trans ((List.suffix_append value v).trans hu)).isInfix⟩

theorem declare?_isInfix {t name typeName : Text} (h : declare? t = some (name, typeName)) :
    name <:+: t ∧ typeName <:+: t := by
  obtain ⟨u, hu, h⟩ := someBlanks_eq_some h
  simp only [Option.bind_eq_bind, Option.bind_eq_some_iff, Prod.exists] at h
  obtain ⟨n, v, hname, h⟩ := h
  obtain rfl := name?_eq_some hname
  obtain ⟨w, hw, h⟩ := separator_eq_some h
  split at h
  · simp only [Option.ite_none_right_eq_some, Option.some.injEq, Prod.mk.injEq] at h
    obtain ⟨-, rfl, rfl⟩ := h
    exact ⟨(List.prefix_append n v).isInfix.trans hu.isInfix,
      (hw.trans ((List.suffix_append n v).trans hu)).isInfix⟩
  · cases h

theorem assignmentOperator?_suffix {t r : Text} {operator : AssignmentOperator}
    (h : assignmentOperator? t = some (operator, r)) : r <:+ t := by
  unfold assignmentOperator? at h
  split at h <;> cases h
  all_goals
    first
    | exact List.suffix_cons _ _
    | exact (List.suffix_cons _ _).trans (List.suffix_cons _ _)

theorem assignment?_isInfix {t target value : Text} {operator : AssignmentOperator}
    (h : assignment? t = some (target, operator, value)) : target <:+: t ∧ value <:+: t := by
  simp only [assignment?, Option.bind_eq_bind, Option.bind_eq_some_iff, Prod.exists,
    Option.pure_def, Option.some.injEq, Prod.mk.injEq] at h
  obtain ⟨name, rest, hname, indices, _, _, hread, rfl, rfl, rfl⟩ := h
  obtain rfl := name?_eq_some hname
  obtain ⟨r, rfl, hvalue⟩ := brackets_eq_some hread
  rw [← List.append_assoc]
  refine ⟨(List.prefix_append _ r).isInfix, ?_⟩
  -- the value is what is left behind the sign
  rw [assignedValue?] at hvalue
  split at hvalue
  · next c s hs =>
    simp only [Option.ite_none_left_eq_some, Option.some.injEq, Prod.mk.injEq] at hvalue
    obtain ⟨-, rfl, rfl⟩ := hvalue
    exact ((assignmentOperator?_suffix hs).trans
      ((Text.trimStart_suffix r).trans (List.suffix_append _ r))).isInfix
  · cases hvalue

theorem dropSemicolon_isPrefix (t : Text) : dropSemicolon t <+: t := by
  rw [dropSemicolon]
  cases h : Text.dropEnd? [';'] t with
  | none => exact List.prefix_refl t
  | some r =>
    rw [Text.dropEnd?_eq_some h]
    exact List.prefix_append r _

theorem call?_isInfix {t called : Text} (h : call? t = some called) : called <:+: t := by
  unfold call? at h
  split at h
  · cases h
  · simp only [Option.ite_none_left_eq_some] at h
    obtain ⟨-, h⟩ := h
    split at h
    · simp only [Option.ite_none_left_eq_some, Option.some.injEq] at h
      obtain ⟨-, rfl⟩ := h
      exact ((Text.trimEnd_isPrefix _).trans (dropSemicolon_isPrefix _)).isInfix
    · cases h

/-! ## Lines -/

theorem isCutFrom_withoutKeyword (t : Text) : (withoutKeyword t).IsCutFrom t := by
  rw [withoutKeyword]
  split
  · next target operator value hread =>
    obtain ⟨htarget, hvalue⟩ := assignment?_isInfix hread
    have hoperand := (operand_initializer_isInfix value).trans hvalue
    have hcut : (assignment target operator (initializer value)).IsCutFrom t := by
      simp [IsCutFrom, operands, htarget, hoperand]
    simp only
    split
    · exact hcut.ifBalanced
    · exact hcut.ifBalanced
    · exact isCutFrom_malformed _ _ t
  · split
    · next called hread =>
      have hcut : (call called).IsCutFrom t := by simp [IsCutFrom, operands, call?_isInfix hread]
      exact hcut.ifBalanced
    · simp [IsCutFrom, operands]

theorem isCutFrom_endingOf (rest t : Text) : (endingOf rest).IsCutFrom t := by
  simp only [endingOf]
  split
  · simp [IsCutFrom, operands]
  · split <;> simp [IsCutFrom, operands]

theorem isCutFrom_elseIfOf {rest : Option Text} {t : Text} (h : rest.getD [] <:+: t) :
    (elseIfOf rest).IsCutFrom t := by
  rw [elseIfOf]
  split
  · next condition hread =>
    obtain ⟨r, rfl, hread⟩ := Option.bind_eq_some_iff.1 hread
    have hcut : (elseIf condition).IsCutFrom t := by
      simp [IsCutFrom, operands, (condition?_isInfix hread).trans h]
    exact hcut.ifBalanced
  · exact isCutFrom_malformed _ _ t

theorem isCutFrom_declarationOf (kind : DeclarationKind) (rest : Text) :
    (declarationOf kind rest).IsCutFrom rest := by
  rw [declarationOf]
  split
  · exact isCutFrom_malformed _ _ rest
  · exact isCutFrom_malformed _ _ rest
  · next name size value _ hread =>
    obtain ⟨hname, hsize, hvalue⟩ := declaration?_isInfix hread
    have hcut : (declaration kind name size (value.map initializer)).IsCutFrom rest := by
      intro operand hoperand
      simp only [operands, List.mem_cons, List.mem_append, Option.mem_toList,
        Option.map_eq_some_iff] at hoperand
      rcases hoperand with rfl | rfl | ⟨_, ⟨v, rfl, rfl⟩, rfl⟩
      · exact hname
      · exact hsize
      · exact (operand_initializer_isInfix v).trans hvalue
    exact hcut.ifBalanced

theorem isCutFrom_functionOf (rest : Text) : (functionOf rest).IsCutFrom rest := by
  rw [functionOf]
  split
  · exact isCutFrom_malformed _ _ rest
  · next name list hread =>
    obtain ⟨hname, hlist⟩ := function?_isInfix hread
    simp only
    split
    · exact isCutFrom_malformed _ _ rest
    · intro operand hoperand
      rcases List.mem_cons.1 hoperand with rfl | hparameter
      · exact hname
      · exact (splitList_isInfix hparameter).trans hlist

/-- A print line with a word boundary behind its keyword keeps what follows the keyword. -/
theorem isCutFrom_printOf_of_followsKeyword {rest : Text} (h : followsKeyword rest = true) :
    (printOf rest).IsCutFrom rest := by
  rw [printOf, if_pos h]
  have hlist : (insideParentheses? (Text.trim rest)).getD (Text.trim rest) <:+: rest := by
    cases hinner : insideParentheses? (Text.trim rest) with
    | none => exact Text.trim_isInfix rest
    | some inner => exact (insideParentheses?_isInfix hinner).trans (Text.trim_isInfix rest)
  apply IsCutFrom.ifBalanced
  split
  · exact isCutFrom_malformed _ _ _
  · exact fun operand hoperand => (splitList_isInfix hoperand).trans hlist

theorem isCutFrom_printOf (rest : Text) : (printOf rest).IsCutFrom (text "print" ++ rest) := by
  by_cases h : followsKeyword rest = true
  · exact (isCutFrom_printOf_of_followsKeyword h).mono (List.suffix_append _ rest).isInfix
  · rw [printOf, if_neg h]
    exact isCutFrom_withoutKeyword _

/-- An input line with a word boundary behind its keyword keeps what follows the keyword. -/
theorem isCutFrom_inputOf_of_followsKeyword {rest : Text} (h : followsKeyword rest = true) :
    (inputOf rest).IsCutFrom rest := by
  rw [inputOf, if_pos h]
  split
  · simp [IsCutFrom, operands]
  · next operand hread =>
    have hoperand := promptOperand_isInfix hread
    apply IsCutFrom.ifBalanced
    split <;> simp [IsCutFrom, operands, hoperand]

theorem isCutFrom_inputOf (rest : Text) : (inputOf rest).IsCutFrom (text "input" ++ rest) := by
  by_cases h : followsKeyword rest = true
  · exact (isCutFrom_inputOf_of_followsKeyword h).mono (List.suffix_append _ rest).isInfix
  · rw [inputOf, if_neg h]
    exact isCutFrom_withoutKeyword _

/-- What a line that starts with the keyword is read as: the words `print` and `input` may also be
    names, and are then put back in lower case. -/
def Keyword.spelled : Keyword → Text
  | .print => text "print"
  | .input => text "input"
  | _ => []

theorem isCutFrom_withKeyword (keyword : Keyword) (t rest : Text) :
    (withKeyword keyword t rest).IsCutFrom (keyword.spelled ++ rest) := by
  -- one case for each form; a line that is refused has no operands
  cases keyword with
  | algorithm =>
    simp only [withKeyword]
    split
    · next name hread => simp [IsCutFrom, operands, header?_isInfix hread, Keyword.spelled]
    · exact isCutFrom_malformed _ _ _
  | endAlgorithm => simp only [withKeyword]; split <;> simp [IsCutFrom, operands]
  | ending => exact isCutFrom_endingOf _ _
  | «for» =>
    simp only [withKeyword]
    split
    · next name start stop step hread =>
      obtain ⟨hname, hstart, hstop, hstep⟩ := forLoop?_isInfix hread
      have hcut : (forLoop name start stop step).IsCutFrom rest := by
        cases step <;> simp_all [IsCutFrom, operands]
      exact hcut.ifBalanced
    · exact isCutFrom_malformed _ _ _
  | «while» =>
    simp only [withKeyword]
    split
    · next condition hread =>
      have hcut : (whileLoop condition).IsCutFrom rest := by
        simp [IsCutFrom, operands, condition?_isInfix hread]
      exact hcut.ifBalanced
    · exact isCutFrom_malformed _ _ _
  | «if» =>
    simp only [withKeyword]
    split
    · next condition hread =>
      have hcut : (branch condition).IsCutFrom rest := by
        simp [IsCutFrom, operands, condition?_isInfix hread]
      exact hcut.ifBalanced
    · exact isCutFrom_malformed _ _ _
  | elseIf => exact isCutFrom_elseIfOf (List.infix_refl rest)
  | «else» =>
    simp only [withKeyword]
    split
    · simp [IsCutFrom, operands]
    · refine isCutFrom_elseIfOf (t := rest) ?_
      cases hread : afterElseIf? rest with
      | none => exact List.nil_prefix.isInfix
      | some r =>
        obtain ⟨u, hu, hread⟩ := someBlanks_eq_some hread
        exact ((dropWord?_eq_some hread).trans hu).isInfix
  | function => exact isCutFrom_functionOf rest
  | «return» =>
    simp only [withKeyword]
    split
    · next value hread =>
      have hcut : (returning (value.map Text.trim)).IsCutFrom rest := by
        cases value with
        | none => simp [IsCutFrom, operands]
        | some v =>
          simp [IsCutFrom, operands, (Text.trim_isInfix v).trans (returnValue?_isInfix hread)]
      exact hcut.ifBalanced
    · exact isCutFrom_malformed _ _ _
  | «break» => simp only [withKeyword]; split <;> simp [IsCutFrom, operands]
  | «continue» => simp only [withKeyword]; split <;> simp [IsCutFrom, operands]
  | declaration kind => exact isCutFrom_declarationOf kind rest
  | set =>
    simp only [withKeyword]
    split
    · next value target hread =>
      have hcut : (set value target).IsCutFrom rest := by simp [IsCutFrom, operands, set?_isInfix hread]
      exact hcut.ifBalanced
    · exact isCutFrom_malformed _ _ _
  | declare =>
    simp only [withKeyword]
    split
    · next name typeName hread => simp [IsCutFrom, operands, declare?_isInfix hread, Keyword.spelled]
    · exact isCutFrom_malformed _ _ _
  | print => exact isCutFrom_printOf rest
  | input => exact isCutFrom_inputOf rest

/-- The texts of a statement are contiguous parts of its line, once a keyword that is read as a name
    is put back in lower case. -/
theorem isCutFrom_classify (line : Text) :
    ∃ word rest, word ∈ [[], text "print", text "input"] ∧ rest <:+: line ∧
      (classify line).IsCutFrom (word ++ rest) := by
  rw [classify]
  split
  · exact ⟨[], line, by simp, List.infix_refl line, by simp [IsCutFrom, operands]⟩
  · next note ht =>
    refine ⟨[], Text.trim line, by simp, Text.trim_isInfix line, ?_⟩
    have hnote : Text.trim note <:+: Text.trim line := by
      rw [ht]
      exact (Text.trim_isInfix note).trans (List.suffix_cons '#' note).isInfix
    simp [IsCutFrom, operands, hnote]
  · split
    · next keyword _ =>
      refine ⟨keyword.spelled, (Text.trim line).drop (headWord (Text.trim line)).length, ?_,
        (List.drop_suffix _ _).isInfix.trans (Text.trim_isInfix line), isCutFrom_withKeyword keyword _ _⟩
      cases keyword <;> simp [Keyword.spelled]
    · exact ⟨[], Text.trim line, by simp, Text.trim_isInfix line, isCutFrom_withoutKeyword _⟩

/-- The texts of a statement stay within its line. -/
theorem newline_not_mem_operands {line : Text} (h : '\n' ∉ line) :
    ∀ operand ∈ (classify line).operands, '\n' ∉ operand := by
  obtain ⟨word, rest, hword, hrest, hcut⟩ := isCutFrom_classify line
  have hspelled : ∀ word ∈ [[], text "print", text "input"], '\n' ∉ word := by decide
  intro operand hoperand hmem
  rcases List.mem_append.1 ((hcut operand hoperand).subset hmem) with hmem | hmem
  · exact hspelled word hword hmem
  · exact h (hrest.subset hmem)

end Statement

end Pseudocode
