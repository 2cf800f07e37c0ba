import Pseudocode.Proofs.LiteralOperands

/-!
# Statements and the contents of literals

Lines without a keyword, and with them all lines: when a literal of a line gets other contents, the statement
of the line is the same one with these contents, or the line has lost its shape, and then the contents held
something that looks like the end of the operand they stand in.

* `assignment?_refill`   assignments, with the literal in the target or in the value
* `call?_refill`         calls
* `classify_refill`      every line
-/

namespace Pseudocode

open Expression Shape

namespace Statement

variable {F : Refill} {place : Place} {operator : AssignmentOperator} {e r r' t t' u v v' w z : Text}

/-! ## Assigned values -/

/-- The sign of an assignment is followed by any text. All but the arrows hold an equals sign. -/
theorem assignmentOperator?_split (h : assignmentOperator? t = some (operator, r)) :
    ∃ s, t = s ++ r ∧ (∀ c ∈ s, isQuote c = false) ∧
      ('=' ∈ s ∨ ∀ r', (dropAssignSign? (s ++ r')).isSome = true) ∧
      ∀ r', assignmentOperator? (s ++ r') = some (operator, r') := by
  unfold assignmentOperator? at h
  split at h <;> cases h
  · exact ⟨['='], rfl, by simp [isQuote], .inl (by decide), fun _ => rfl⟩
  · exact ⟨['+', '='], rfl, by simp [isQuote], .inl (by decide), fun _ => rfl⟩
  · exact ⟨['-', '='], rfl, by simp [isQuote], .inl (by decide), fun _ => rfl⟩
  · exact ⟨['*', '='], rfl, by simp [isQuote], .inl (by decide), fun _ => rfl⟩
  · exact ⟨['/', '='], rfl, by simp [isQuote], .inl (by decide), fun _ => rfl⟩
  · exact ⟨['%', '='], rfl, by simp [isQuote], .inl (by decide), fun _ => rfl⟩
  · exact ⟨['<', '-'], rfl, by simp [isQuote], .inr fun _ => rfl, fun _ => rfl⟩
  · exact ⟨['←'], rfl, by simp [isQuote], .inr fun _ => rfl, fun _ => rfl⟩

/-- Behind the operator any text is assigned that begins in the same way. -/
theorem assignedValue?_split (h : assignedValue? t = some (operator, v)) :
    ∃ s, Text.trimStart t = s ++ v ∧ (∀ c ∈ s, isQuote c = false) ∧
      ('=' ∈ s ∨ ∀ r', (dropAssignSign? (s ++ r')).isSome = true) ∧
      ∀ t' v', Text.trimStart t' = s ++ v' → v.head? = v'.head? → '\n' ∉ v' →
        assignedValue? t' = some (operator, v') := by
  rw [assignedValue?] at h
  split at h
  · next c x hread =>
    simp only [Option.ite_none_left_eq_some, Option.some.injEq, Prod.mk.injEq] at h
    obtain ⟨hvalue, rfl, rfl⟩ := h
    obtain ⟨s, ht, hs, hsign, hagain⟩ := assignmentOperator?_split hread
    refine ⟨s, ht, hs, hsign, fun t' v' ht' hhead hline => ?_⟩
    -- of the value, only the first character and the line feeds are looked at
    cases v' with
    | nil => cases hhead
    | cons d x' =>
      obtain rfl : c = d := Option.some.inj hhead
      rw [assignedValue?, ht', hagain]
      exact if_neg (not_or.2 ⟨(not_or.1 hvalue).1, fun hmem => hline (List.mem_cons_of_mem c hmem)⟩)
  · cases h

theorem isSome_assignedValue?_of_at (h : F.At u t t') (hline : '\n' ∉ t) (hread : (assignedValue? t).isSome = true) :
    (assignedValue? t').isSome = true := by
  obtain ⟨⟨operator, v⟩, hvalue⟩ := Option.isSome_iff_exists.1 hread
  obtain ⟨s, ht, hs, -, hagain⟩ := assignedValue?_split hvalue
  have htrim := h.trimStart
  rw [ht] at htrim
  obtain ⟨u', v', -, ht', hat⟩ := htrim.append_inv hs
  rw [hagain t' v' ht' hat.head?_eq (hat.inLine fun hmem => hline ?_)]
  · rfl
  · exact (Text.trimStart_suffix t).subset (ht ▸ List.mem_append_right s hmem)

theorem ignored_assignedValue? : F.Ignored assignedValue? := by
  intro u t t' hat hline
  rw [Bool.eq_iff_iff]
  exact ⟨isSome_assignedValue?_of_at hat hline, isSome_assignedValue?_of_at hat.swap (hat.inLine hline)⟩

theorem assignedValue?_refill (h : F.Changes t t') (hline : '\n' ∉ t) (hread : assignedValue? t = some (operator, v)) :
    ∃ v', assignedValue? t' = some (operator, v') ∧ F.Changes v v' := by
  obtain ⟨s, ht, hs, -, hagain⟩ := assignedValue?_split hread
  have htrim := h.trimStart
  rw [ht] at htrim
  obtain ⟨v', ht', hv⟩ := htrim.behind hs
  refine ⟨v', hagain t' v' ht' hv.head?_eq (hv.inLine fun hmem => hline ?_), hv⟩
  exact (Text.trimStart_suffix t).subset (ht ▸ List.mem_append_right s hmem)

/-- Groups begin with a bracket. -/
theorem trimStart_of_groupStart {β : Type} {inner : Char → Bool} {next : Text → Option β} {y : Text × β}
    (h : groupStart inner next t = some y) : ∃ r, Text.trimStart t = '[' :: r := by
  obtain ⟨g, b⟩ := y
  obtain ⟨k, c, g, t, hk, -, -, rfl, -⟩ := groupStart_split h
  refine ⟨c :: t, ?_⟩
  rw [Text.trimStart_append_cons (by decide), Text.trimStart, List.dropWhile_eq_nil_iff.2 hk, List.nil_append]

/-- A target with groups is not followed by an operator before they are read. -/
theorem assignedValue?_of_groupStart {inner : Char → Bool} {y : Text × (AssignmentOperator × Text)}
    (h : groupStart inner assignedValue? t = some y) : assignedValue? t = none := by
  obtain ⟨r, hr⟩ := trimStart_of_groupStart h
  rw [assignedValue?, hr]
  rfl

/-- Indices hold no equals sign. -/
theorem target_isCutBy_of_mem (h : '=' ∈ w) : Place.target.isCutBy w = true := by
  obtain ⟨a, b, rfl⟩ := List.append_of_mem h
  exact Place.isCutBy_append (Place.isCutBy_of_endsAt rfl)

/-- In front of a quote, a target ends where an operator follows. -/
theorem target_isCutBy {y : AssignmentOperator × Text} (h : assignedValue? (w ++ F.quote :: z) = some y) :
    Place.target.isCutBy (']' :: w) = true := by
  obtain ⟨operator, v⟩ := y
  obtain ⟨s, hcut, hs, hsign, -⟩ := assignedValue?_split h
  rw [Text.trimStart_append_cons F.isBlank_quote] at hcut
  obtain ⟨w', hw, -⟩ := exists_of_unquoted hcut hs F.opens
  rcases hsign with hequals | harrow
  · exact target_isCutBy_of_mem
      (List.mem_cons_of_mem _ ((Text.trimStart_suffix w).subset (hw ▸ List.mem_append_left w' hequals)))
  · apply Place.isCutBy_of_endsAt
    have hstart : Text.dropStart? [']'] (']' :: w) = some w := Text.dropStart?_append [']'] w
    rw [Place.endsAt, hstart, Option.any_some, hw, harrow, Bool.or_true]

/-! ## Assignments -/

theorem assignment?_eq {n : Text} (h : name? isNameStart t = some (n, r)) : assignment? t =
    (brackets (· ≠ '=') assignedValue? r).map fun y => (n ++ y.1, y.2.1, y.2.2) := by
  simp only [assignment?, h, Option.bind_eq_bind, Option.bind_some]
  cases brackets (· ≠ '=') assignedValue? r <;> rfl

/-- The statement of an assignment that is read. An input is not compounded. -/
def assigned (target : Text) (operator : AssignmentOperator) (init : Initializer) : Statement :=
  match init, operator with
  | .expression _, _ | .input _, .plain =>
    ifBalanced .assignment [target, init.operand] (.assignment target operator init)
  | _, _ => .malformed .assignment .compoundInput

theorem withoutKeyword_of_assignment? {target value : Text} (h : assignment? t = some (target, operator, value)) :
    withoutKeyword t = assigned target operator (initializer value) := by
  rw [withoutKeyword, h]
  rfl

theorem withoutKeyword_of_call? (h : assignment? t = none) (hcall : call? t = some e) :
    withoutKeyword t = ifBalanced .call [e] (.call e) := by
  rw [withoutKeyword, h]
  simp only [hcall]

theorem withoutKeyword_of_none (h : assignment? t = none) (hcall : call? t = none) : withoutKeyword t = .raw t := by
  rw [withoutKeyword, h]
  simp only [hcall]

/-- Where one right-hand side may stand behind an operator, so may one of the same form. -/
theorem assigned_eq {R : Text → Text → Prop} {target : Text} {init init' : Initializer}
    (h : (assigned target operator init).isExecutable = true) (hinit : init = init' ∨ init.Rewords R init')
    (target' : Text) : assigned target' operator init' =
      ifBalanced .assignment [target', init'.operand] (.assignment target' operator init') := by
  cases operator with
  | plain => cases init' <;> rfl
  | _ =>
    cases init' with
    | expression => rfl
    | input prompt =>
      -- then the other would be a compounded input, too
      rcases hinit with rfl | hinit
      · cases h
      · cases hinit
        cases h

theorem assigned_balanced {target : Text} {init : Initializer}
    (h : (assigned target operator init).isExecutable = true) :
    imbalance? target = none ∧ imbalance? init.operand = none ∧
      assigned target operator init = .assignment target operator init := by
  have hread := assigned_eq (R := Eq) h (.inl rfl) target
  rw [hread] at h ⊢
  obtain ⟨hbalanced, heq⟩ := balanced_of_isExecutable h
  exact ⟨hbalanced target (by simp), hbalanced init.operand (by simp), heq⟩

theorem isShapeless_assigned {target : Text} {init : Initializer} (h : imbalance? target ≠ none) :
    (assigned target operator init).isShapeless = true := by
  unfold assigned
  split
  · exact isShapeless_ifBalanced (by simp) h
  · exact isShapeless_ifBalanced (by simp) h
  · rfl

/-! ## Calls -/

theorem dropSemicolon_at (h : F.At u t t') : F.At u (dropSemicolon t) (dropSemicolon t') := by
  rw [dropSemicolon, dropSemicolon]
  cases hread : Text.dropEnd? [';'] t with
  | some r =>
    obtain ⟨r', hat, hread'⟩ := dropEnd?_at (by rfl) h hread
    rw [hread']
    exact hat
  | none =>
    cases hread' : Text.dropEnd? [';'] t' with
    | none => exact h
    | some r' =>
      obtain ⟨r, -, hsome⟩ := dropEnd?_at (by rfl) h.swap hread'
      rw [hread] at hsome
      cases hsome

/-- The characters of a callee, which may be a member. -/
def isCalleeChar (c : Char) : Bool := Text.isWordChar c || c = '.'

theorem call?_cons_iff {c : Char} : call? (c :: r) = some e ↔ isNameStart c = true ∧ ∃ x operands,
    Text.dropStart? ['('] (Text.trimEnd (dropSemicolon (Text.trimStart (r.dropWhile isCalleeChar)))) = some x ∧
      Text.dropEnd? [')'] x = some operands ∧ '\n' ∉ operands ∧ e = Text.trimEnd (dropSemicolon (c :: r)) := by
  have hcallee : (fun c => Text.isWordChar c || decide (c = '.')) = isCalleeChar := rfl
  rw [call?, hcallee]
  constructor
  · intro h
    split at h
    · cases h
    · next hc =>
      simp only at h
      split at h
      · next operands hread =>
        obtain ⟨x, hx, hoperands⟩ := Option.bind_eq_some_iff.1 hread
        simp only [Option.ite_none_left_eq_some, Option.some.injEq] at h
        exact ⟨by simpa using hc, x, operands, hx, hoperands, h.1, h.2.symm⟩
      · cases h
  · rintro ⟨hc, x, operands, hx, hoperands, hline, rfl⟩
    simp only [hc, hx, hoperands, Option.bind_some, if_neg hline, Bool.not_true, Bool.false_eq_true, if_false]

theorem call?_refill (h : F.Changes t t') (hline : '\n' ∉ t) (hread : call? t = some e) :
    ∃ e', call? t' = some e' ∧ F.Changes e e' := by
  cases t with
  | nil => cases hread
  | cons c r =>
    obtain ⟨hc, x, operands, hx, hoperands, hinside, rfl⟩ := call?_cons_iff.1 hread
    obtain ⟨u, hu, hat⟩ := h
    obtain ⟨u', r', rfl, rfl, hr⟩ := hat.cons_inv (isNeutral_of_isNameStart c hc).1
    have hquote : isCalleeChar F.quote = false := by
      rcases F.quote_eq with hquote | hquote <;> rw [hquote] <;> decide +kernel
    -- the parentheses and the semicolon stand in front of the literal and behind it
    have hrest := (dropSemicolon_at (hr.dropWhile hquote).trimStart).trimEnd
    obtain ⟨_, x', -, hat₁, hx'⟩ := dropStart?_at (by rfl) hrest hx
    obtain ⟨operands', hat₂, hoperands'⟩ := dropEnd?_at (by rfl) hat₁ hoperands
    have hcalled := (dropSemicolon_at hat).trimEnd
    exact ⟨_, call?_cons_iff.2 ⟨hc, x', operands', hx', hoperands', hat₂.inLine hinside, rfl⟩, hcalled.changes hu⟩

/-- Behind the name of a call comes a point or a parenthesis. -/
theorem trimStart_of_call? {c : Char} (h : call? (c :: r) = some e) :
    ∃ d x, Text.trimStart (r.dropWhile Text.isWordChar) = d :: x ∧ (d = '.' ∨ d = '(') := by
  obtain ⟨-, x, operands, hx, -, -, -⟩ := call?_cons_iff.1 h
  have hbegin := (Text.trimEnd_isPrefix _).trans (dropSemicolon_isPrefix (Text.trimStart (r.dropWhile isCalleeChar)))
  have hword : ∀ c ∈ r.takeWhile Text.isWordChar, isCalleeChar c = true := fun c hc => by
    rw [isCalleeChar, List.mem_takeWhile_imp hc, Bool.true_or]
  rw [Text.dropStart?_eq_some hx, ← List.takeWhile_append_dropWhile (p := Text.isWordChar) (l := r),
    List.dropWhile_append_of_pos hword] at hbegin
  have hhead := List.head?_dropWhile_not Text.isWordChar r
  generalize r.dropWhile Text.isWordChar = y at hbegin hhead ⊢
  -- behind the word the callee goes on with a point, or it ends there
  cases y with
  | nil => simp [Text.trimStart] at hbegin
  | cons d y =>
    by_cases hd : d = '.'
    · refine ⟨d, y, ?_, .inl hd⟩
      rw [hd, Text.trimStart, List.dropWhile_cons_of_neg (by decide)]
    · have hother : Text.isWordChar d = false := by simpa using hhead
      rw [List.dropWhile_cons_of_neg (by simp [isCalleeChar, hd, hother])] at hbegin
      obtain ⟨z, hz⟩ := hbegin
      exact ⟨'(', x ++ z, by rw [← hz]; simp, .inr rfl⟩

/-- A call is no assignment. -/
theorem assignment?_eq_none_of_call? (h : call? t = some e) : assignment? t = none := by
  cases t with
  | nil => rfl
  | cons c r =>
    obtain ⟨d, x, htrim, hd⟩ := trimStart_of_call? h
    have hname : name? isNameStart (c :: r) = some (c :: r.takeWhile Text.isWordChar, r.dropWhile Text.isWordChar) := by
      rw [name?, if_pos (call?_cons_iff.1 h).1]
    -- what stands behind the name of a call is neither a bracket nor an equals sign
    have hgroups : groupStart (· ≠ '=') assignedValue? (r.dropWhile Text.isWordChar) = none := by
      cases hread : groupStart (· ≠ '=') assignedValue? (r.dropWhile Text.isWordChar) with
      | none => rfl
      | some y =>
        obtain ⟨_, hbracket⟩ := trimStart_of_groupStart hread
        rw [htrim] at hbracket
        rcases hd with rfl | rfl <;> cases hbracket
    have hvalue : assignedValue? (r.dropWhile Text.isWordChar) = none := by
      rw [assignedValue?, htrim]
      rcases hd with rfl | rfl <;> rfl
    rw [assignment?_eq hname, brackets, hgroups, hvalue]
    rfl

/-! ## Targets and values -/

theorem inner_target (c : Char) (h : Text.isBlank c = true ∨ c ∈ ['[', ']']) : decide (c ≠ '=') = true := by
  rw [decide_eq_true_eq]
  rintro rfl
  rcases h with h | h
  · exact absurd h (by decide)
  · exact absurd h (by decide)

theorem indices_split {g : Text} {b : AssignmentOperator × Text}
    (h : brackets (· ≠ '=') assignedValue? t = some (g, b)) :
    ∃ r, t = g ++ r ∧ AreGroups (· ≠ '=') assignedValue? g r b :=
  brackets_split (fun _ _ => assignedValue?_of_groupStart) (fun c _ => inner_target c) h

/-- An assignment with other contents for a literal in its value. -/
theorem assigned_value_refill {n g : Text} (h : F.Changes r r') (hline : '\n' ∉ g ++ r)
    (hgroups : brackets (· ≠ '=') assignedValue? (g ++ r) = some (g, operator, v)) (hempty : HasNoEmptyIndex g)
    (hname' : name? isNameStart t' = some (n, g ++ r'))
    (hexecutable : (assigned (n ++ g) operator (initializer v)).isExecutable = true) :
    Refilled F (assigned (n ++ g) operator (initializer v)) (withoutKeyword t') := by
  obtain ⟨_, _, hat⟩ := id h
  -- the change lies behind the brackets, so target and operator stay
  obtain ⟨b', hb', hgroups'⟩ := brackets_behind (fun _ _ => assignedValue?_of_groupStart) inner_target hgroups
    ignored_assignedValue? hline hat hempty
  obtain ⟨_, hcut, hsplit⟩ := indices_split hgroups
  obtain rfl := List.append_cancel_left hcut
  obtain ⟨v', hv', hchanges⟩ := assignedValue?_refill h (fun hmem => hline (List.mem_append_right g hmem)) hsplit.read
  obtain rfl := Option.some.inj (hb'.symm.trans hv')
  have hassignment : assignment? t' = some (n ++ g, operator, v') := by
    rw [assignment?_eq hname', hgroups']
    rfl
  rw [withoutKeyword_of_assignment? hassignment]
  obtain ⟨htarget, hoperand, heq⟩ := assigned_balanced hexecutable
  obtain ⟨hvalue, hoperand'⟩ := initializer_refill hchanges hoperand
  rw [heq, assigned_eq hexecutable (.inr hvalue), ifBalanced_of_balanced]
  · exact (Rewords.value hvalue).refilled
  · simp [htarget, hoperand']

/-- Only with an equals sign in them, the new contents can keep the target from being read. -/
theorem brackets_target_eq_none {g g' : Text} (hform : IsGrouped g) (hat : F.At u g g')
    (hg : ∀ c ∈ g, decide (c ≠ '=') = true) (hread : (assignedValue? r).isSome = true) (hnone : brackets (· ≠ '=') assignedValue? (g' ++ r) = none) :
    '=' ∈ F.contents := by
  by_contra hcontents
  have hinside : ∀ c ∈ g', decide (c ≠ '=') = true := by
    obtain ⟨v, rfl, rfl⟩ := hat
    have hequals : ∀ c ∈ F.contents, decide (c ≠ '=') = true := by
      intro c hc
      rw [decide_eq_true_eq]
      rintro rfl
      exact hcontents hc
    simp only [Refill.before, Refill.after, List.forall_mem_append, List.forall_mem_cons] at hg ⊢
    exact ⟨hg.1, ⟨hg.2.1.1, hequals, hg.2.1.2.2⟩, hg.2.2⟩
  have hsome := isSome_brackets (.inr (hform.refill hat)) hinside hread
  rw [hnone] at hsome
  cases hsome

/-- Groups that end inside of a literal end in its contents. -/
theorem exists_of_isGrouped {q : Char} (hq : isQuote q = true) (h : IsGrouped (u ++ q :: w)) : ∃ m, w = m ++ [']'] := by
  obtain ⟨k, c, m, -, hends⟩ := h
  rcases List.eq_nil_or_concat w with rfl | ⟨w, d, rfl⟩
  · obtain rfl : q = ']' := by simpa [List.getLast?_cons] using congrArg List.getLast? hends
    cases hq
  · obtain rfl : d = ']' := by
      simpa [List.getLast?_append, List.getLast?_cons] using congrArg List.getLast? hends
    exact ⟨w, List.concat_eq_append⟩

/-- An assignment with other contents for a literal in its target. -/
theorem assigned_target_refill {n g g' : Text} (h : F.Changes t t') (hline : '\n' ∉ t) (hg : F.Changes g g')
    (hgroups : brackets (· ≠ '=') assignedValue? (g ++ r) = some (g, operator, v)) (hempty : HasNoEmptyIndex g)
    (hname : name? isNameStart t = some (n, g ++ r)) (hname' : name? isNameStart t' = some (n, g' ++ r))
    (hexecutable : (assigned (n ++ g) operator (initializer v)).isExecutable = true) :
    Refilled F (assigned (n ++ g) operator (initializer v)) (withoutKeyword t') := by
  obtain ⟨u, hu, hat⟩ := id hg
  obtain ⟨rfl, hn, -, -, -⟩ := name?_split isNeutral_of_isNameStart hname
  have hn : IsOutside n := isOutside_of_unquoted fun c hc => (hn c hc).1
  obtain ⟨htarget, hoperand, heq⟩ := assigned_balanced hexecutable
  have hchanges : F.Changes (n ++ g) (n ++ g') := (hat.append n).changes (hn.append hu)
  obtain ⟨_, hcut, hsplit⟩ := indices_split hgroups
  obtain rfl := List.append_cancel_left hcut
  have hform := hsplit.form.resolve_left (List.ne_nil_of_mem hat.mem.1)
  rw [heq]
  cases hfound : brackets (· ≠ '=') assignedValue? (g' ++ r) with
  | none =>
    -- the line is no assignment any more, and it is no call either
    have hassignment : assignment? t' = none := by
      rw [assignment?_eq hname', hfound]
      rfl
    refine (Rewords.target hchanges).refilled_cut (target_isCutBy_of_mem ?_) ?_
    · exact brackets_target_eq_none hform hat hsplit.inside (by rw [hsplit.read]; rfl) hfound
    · cases hcall : call? t' with
      | none =>
        rw [withoutKeyword_of_none hassignment hcall]
        rfl
      | some e =>
        obtain ⟨e', hcall', -⟩ := call?_refill h.swap (h.inLine hline) hcall
        have hnone := assignment?_eq_none_of_call? hcall'
        rw [assignment?_eq hname, hgroups] at hnone
        cases hnone
  | some y =>
    obtain ⟨g₂, b₂⟩ := y
    have hassignment : assignment? t' = some (n ++ g₂, b₂.1, b₂.2) := by
      rw [assignment?_eq hname', hfound]
      rfl
    rw [withoutKeyword_of_assignment? hassignment]
    have hline' : '\n' ∉ g ++ r := fun hmem => hline (List.mem_append_right n hmem)
    rcases brackets_refill (fun _ _ => assignedValue?_of_groupStart) inner_target hgroups ignored_assignedValue? hline'
      hat hempty hfound with ⟨rfl, rfl⟩ | ⟨w, w', z, hw, hcut, rfl, hend⟩
    · -- the groups end where they ended
      rw [assigned_eq (R := F.Changes) hexecutable (.inl rfl), ifBalanced_of_balanced]
      · exact (Rewords.target hchanges).refilled
      · simp [hchanges.imbalance?_eq, htarget, hoperand]
    · -- they end in the literal, at a bracket
      obtain ⟨_, -, hsplit₂⟩ := indices_split hfound
      obtain ⟨m, rfl⟩ := exists_of_isGrouped F.opens (hsplit₂.form.resolve_left (by simp))
      refine (Rewords.target hchanges).refilled_cut ?_ (isShapeless_assigned ?_)
      · rw [hw, List.append_assoc]
        exact Place.isCutBy_append (target_isCutBy hend)
      · rw [← List.append_assoc]
        exact imbalance?_cut (hn.append hu) hw

/-- Assignments with other contents for a literal in the target or in the value. -/
theorem assignment?_refill {target value : Text} (h : F.Changes t t') (hline : '\n' ∉ t)
    (hread : assignment? t = some (target, operator, value))
    (hexecutable : (withoutKeyword t).isExecutable = true) (hempty : HasNoEmptyIndex target) :
    Refilled F (withoutKeyword t) (withoutKeyword t') := by
  cases hname : name? isNameStart t with
  | none => simp [assignment?, hname] at hread
  | some y =>
    obtain ⟨n, rest⟩ := y
    rw [withoutKeyword_of_assignment? hread] at hexecutable ⊢
    rw [assignment?_eq hname] at hread
    obtain ⟨⟨g, operator, v⟩, hgroups, heq⟩ := Option.map_eq_some_iff.1 hread
    cases heq
    obtain ⟨rfl, hn, -, hhead, hagain⟩ := name?_split isNeutral_of_isNameStart hname
    obtain ⟨rest', rfl, hrest⟩ := h.behind fun c hc => (hn c hc).1
    have hname' := hagain rest' (by rwa [← hrest.head?_eq])
    obtain ⟨r, rfl, -⟩ := indices_split hgroups
    have hg : IsOutside g := (isOutside_of_unquoted fun c hc => (hn c hc).1).of_append
      (isOutside_of_balanced (assigned_balanced hexecutable).1)
    have hempty : HasNoEmptyIndex g := hempty.mono (List.suffix_append n g).isInfix
    -- the target is balanced, so the literal stands in its indices or behind it
    rcases hrest.split hg with ⟨g', rfl, hchanges⟩ | ⟨r', rfl, hchanges⟩
    · exact assigned_target_refill h hline hchanges hgroups hempty hname hname' hexecutable
    · exact assigned_value_refill hchanges (fun hmem => hline (List.mem_append_right n hmem)) hgroups hempty hname'
        hexecutable

/-- Lines that start with no keyword. -/
theorem withoutKeyword_refill (h : F.Changes t t') (hline : '\n' ∉ t)
    (hexecutable : (withoutKeyword t).isExecutable = true) (hwhole : (withoutKeyword t).IsWhole) :
    Refilled F (withoutKeyword t) (withoutKeyword t') := by
  cases hread : assignment? t with
  | some y =>
    obtain ⟨target, operator, value⟩ := y
    refine assignment?_refill h hline hread hexecutable ?_
    rw [withoutKeyword_of_assignment? hread] at hexecutable hwhole
    rwa [(assigned_balanced hexecutable).2.2] at hwhole
  | none =>
    -- no assignment, so the line is a call or nothing at all
    cases hcall : call? t with
    | none =>
      rw [withoutKeyword_of_none hread hcall] at hexecutable
      cases hexecutable
    | some e =>
      obtain ⟨e', hcall', hchanges⟩ := call?_refill h hline hcall
      rw [withoutKeyword_of_call? hread hcall] at hexecutable ⊢
      obtain ⟨hbalanced, heq⟩ := balanced_of_isExecutable hexecutable
      rw [heq, withoutKeyword_of_call? (assignment?_eq_none_of_call? hcall') hcall']
      exact refilled_operand (.call hchanges) hchanges (hbalanced e (by simp))

/-! ## Lines -/

theorem classify_of_cons {line : Text} {c : Char} (ht : Text.trim line = c :: t) (hc : c ≠ '#') :
    classify line = match keyword? (c :: t) with
      | some keyword => withKeyword keyword (c :: t) ((c :: t).drop (headWord (c :: t)).length)
      | none => withoutKeyword (c :: t) := by
  rw [classify, ht]
  split
  · next heq => cases heq
  · next heq => exact absurd (List.cons.inj heq).1 hc
  · rfl

/-- The keywords that end a block begin with `end`. -/
theorem quote_mem_drop_of_ending (h : F.quote ∈ t.drop (headWord t).length) (hkeyword : keyword? t = some .ending) :
    F.quote ∈ t.drop 3 := by
  have hall : ∀ entry ∈ keywords, entry.2 = .ending → 3 ≤ entry.1.length := by decide
  obtain ⟨before, after, htable, -⟩ := List.lookup_eq_some_iff.1 hkeyword
  have hlength := hall (headWord t, .ending) (by rw [htable]; simp) rfl
  rw [← Nat.add_sub_cancel' hlength, ← List.drop_drop] at h
  exact List.mem_of_mem_drop h

/-- Lines that start with a keyword. -/
theorem keyword_refill {keyword : Keyword} (h : F.Changes t t') (hline : '\n' ∉ t)
    (hkeyword : keyword? t = some keyword) {s s' : Statement}
    (hs : s = withKeyword keyword t (t.drop (headWord t).length))
    (hs' : s' = withKeyword keyword t' (t'.drop (headWord t').length))
    (hexecutable : s.isExecutable = true) (hwhole : s.IsWhole) : Refilled F s s' := by
  obtain ⟨hword, hrest⟩ := headWord_refill h
  have hline' : '\n' ∉ t.drop (headWord t).length := fun hmem => hline (List.mem_of_mem_drop hmem)
  rw [hword] at hs'
  subst hs hs'
  by_cases hfollows : keyword.spelled = [] ∨ followsKeyword (t.drop (headWord t).length) = true
  · refine withKeyword_refill hrest hline' (fun hending => ?_) hfollows hexecutable hwhole
    exact quote_mem_drop_of_ending hrest.mem.1 (hending ▸ hkeyword)
  · -- the word is the beginning of a name
    obtain ⟨hspelled, hfollows⟩ := not_or.1 hfollows
    rw [Bool.not_eq_true] at hfollows
    rw [withKeyword_eq_withoutKeyword t hspelled hfollows] at hexecutable hwhole ⊢
    rw [withKeyword_eq_withoutKeyword t' hspelled ((followsKeyword_congr hrest.head?_eq).symm.trans hfollows)]
    obtain ⟨hneutral, hinLine⟩ : (∀ c ∈ keyword.spelled, IsNeutral c) ∧ '\n' ∉ keyword.spelled := by
      cases keyword with
      | print => exact ⟨forall_isNeutral (by decide), by decide⟩
      | input => exact ⟨forall_isNeutral (by decide), by decide⟩
      | _ => exact absurd rfl hspelled
    obtain ⟨u, hu, hat⟩ := hrest
    have hfront : IsOutside keyword.spelled := isOutside_of_unquoted fun c hc => (hneutral c hc).1
    exact withoutKeyword_refill ((hat.append _).changes (hfront.append hu))
      (fun hmem => (List.mem_append.1 hmem).elim hinLine hline') hexecutable hwhole

/-- When a literal of a line gets other contents, a statement that is executed becomes the same statement with
    these contents in the operand that holds the literal. It may become none instead, but only if somewhere in
    the contents this operand could end. -/
theorem classify_refill (F : Refill) {line line' : Text} (h : F.Changes line line') (hline : '\n' ∉ line)
    (hexecutable : (classify line).isExecutable = true) (hwhole : (classify line).IsWhole) :
    ∃ place expected, (classify line).Rewords F.Changes place expected ∧
      (classify line' = expected ∨ place.isCutBy F.contents = true ∧ (classify line').isShapeless = true) := by
  have htrim := h.trim
  have hline' : '\n' ∉ Text.trim line := fun hmem => hline ((Text.trim_isInfix line).subset hmem)
  obtain ⟨c, t, ht⟩ := List.exists_cons_of_ne_nil htrim.ne_nil.1
  obtain ⟨c', t', ht'⟩ := List.exists_cons_of_ne_nil htrim.ne_nil.2
  obtain rfl : c = c' := by simpa [ht, ht'] using htrim.head?_eq
  -- a comment is not executed
  have hc : c ≠ '#' := by
    rintro rfl
    rw [classify, ht] at hexecutable
    cases hexecutable
  rw [ht, ht'] at htrim
  rw [ht] at hline'
  rw [classify_of_cons ht hc] at hexecutable hwhole ⊢
  rw [classify_of_cons ht' hc]
  -- the first word stands in front of the literal
  have hkeyword : keyword? (c :: t') = keyword? (c :: t) := by rw [keyword?, keyword?, (headWord_refill htrim).1]
  rw [hkeyword]
  cases hread : keyword? (c :: t) with
  | some keyword =>
    rw [hread] at hexecutable hwhole
    exact keyword_refill htrim hline' hread rfl rfl hexecutable hwhole
  | none =>
    rw [hread] at hexecutable hwhole
    exact withoutKeyword_refill htrim hline' hexecutable hwhole

/-- The literal `"x"` of a loop gets other contents. -/
theorem changes_loop {contents : Text} (h : contents.all Refill.isPlain = true) :
    (Refill.plain '"' (text "x") contents rfl rfl h).Changes (text "for i = len(\"x\") to 5")
      (text "for i = len(\"" ++ contents ++ text "\") to 5") :=
  ⟨text "for i = len(", isOutside_of_unquoted (by simp [text, isQuote]), text ") to 5", rfl,
    by simp [Refill.after, Refill.plain, text]⟩

/-- The words `go, on` are kept. -/
theorem classify_refill_loop :
    (Refill.plain '"' (text "x") (text "go, on") rfl rfl rfl).Changes (text "for i = len(\"x\") to 5")
        (text "for i = len(\"go, on\") to 5") ∧
      '\n' ∉ text "for i = len(\"x\") to 5" ∧
      (classify (text "for i = len(\"x\") to 5")).isExecutable = true ∧
      (classify (text "for i = len(\"x\") to 5")).IsWhole ∧
      ∃ place expected, (classify (text "for i = len(\"x\") to 5")).Rewords
          (Refill.plain '"' (text "x") (text "go, on") rfl rfl rfl).Changes place expected ∧
        (classify (text "for i = len(\"go, on\") to 5") = expected ∨ place.isCutBy (text "go, on") = true ∧
          (classify (text "for i = len(\"go, on\") to 5")).isShapeless = true) := by
  have hread : classify (text "for i = len(\"x\") to 5") =
      .forLoop (text "i") (text "len(\"x\")") (text "5") none := by decide +kernel
  have hwhole : (classify (text "for i = len(\"x\") to 5")).IsWhole := by
    rw [hread]
    exact ⟨'l', by decide, by decide⟩
  have hchanges : (Refill.plain '"' (text "x") (text "go, on") rfl rfl rfl).Changes _ _ := changes_loop rfl
  exact ⟨hchanges, by decide, by rw [hread]; rfl, hwhole,
    classify_refill _ hchanges (by decide) (by rw [hread]; rfl) hwhole⟩

/-- The words `a to b` are not: the first bound ends at the word in the literal. -/
theorem classify_cut_loop :
    (Refill.plain '"' (text "x") (text "a to b") rfl rfl rfl).Changes (text "for i = len(\"x\") to 5")
        (text "for i = len(\"a to b\") to 5") ∧
      classify (text "for i = len(\"x\") to 5") = .forLoop (text "i") (text "len(\"x\")") (text "5") none ∧
      classify (text "for i = len(\"a to b\") to 5") = .malformed .forLoop (.imbalance .unterminatedString) :=
  ⟨changes_loop rfl, by decide +kernel, by decide +kernel⟩

end Statement

end Pseudocode
