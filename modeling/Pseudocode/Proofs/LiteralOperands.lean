import Pseudocode.Proofs.LiteralPlaces

/-!
# Other contents for the operands of keywords

The operands of the statements that begin with a keyword, with other contents for a literal in them. Most of
them reach to the end of the line or to a word before it, and are found again whatever the literal holds.

* `headWord_refill`        the first word of a line
* `condition?_refill`      conditions
* `declarationOf_refill`   declarations, with a size or a value
* `initializer_refill`     right-hand sides
* `printOf_refill`, `inputOf_refill`
-/

namespace Pseudocode

open Expression Shape

namespace Statement

variable {F : Refill} {s s' : Statement} {place : Place} {form : Form} {p r r' t t' u v w x z : Text}

/-- A statement with one operand that has to be balanced. -/
theorem refilled_operand (hs : s.Rewords F.Changes place s') (h : F.Changes t t') (ht : imbalance? t = none) :
    Refilled F s (ifBalanced form [t'] s') := by
  rw [ifBalanced_of_balanced]
  · exact hs.refilled
  · simp [h.imbalance?_eq, ht]

/-! ## First characters and words -/

theorem followsKeyword_congr (h : t.head? = t'.head?) : followsKeyword t = followsKeyword t' := by
  cases t <;> cases t' <;> simp_all [followsKeyword]

theorem atWordEnd_congr (h : t.head? = t'.head?) : atWordEnd t = atWordEnd t' := by
  cases t <;> cases t' <;> simp_all [atWordEnd]

/-- The first word stands in front of the literal. -/
theorem headWord_refill (h : F.Changes t t') : headWord t' = headWord t ∧
    F.Changes (t.drop (headWord t).length) (t'.drop (headWord t).length) := by
  have hquote : Text.isNameChar F.quote = false := by
    rcases F.quote_eq with hquote | hquote <;> rw [hquote] <;> decide +kernel
  have hunquoted : ∀ c ∈ t.takeWhile Text.isNameChar, isQuote c = false := fun c hc =>
    (isNeutral_of_isNameChar (List.mem_takeWhile_imp hc)).1
  obtain ⟨u, hu, hat⟩ := id h
  obtain ⟨hword, hword'⟩ := hat.takeWhile_eq hquote
  have hsame : headWord t' = headWord t := by rw [headWord, headWord, hword, hword']
  refine ⟨hsame, ?_⟩
  have hcut' := takeWhile_append_drop_headWord t'
  rw [hsame, hword', ← hword] at hcut'
  rw [← takeWhile_append_drop_headWord t, ← hcut'] at h
  obtain ⟨r', heq, hchanges⟩ := h.behind hunquoted
  rw [List.append_cancel_left heq]
  exact hchanges

/-- A text with a quote is no word. -/
theorem sameWord_eq_false (hword : (Text.toLower w).any isQuote = false) (h : F.quote ∈ t) :
    Text.sameWord t w = false := by
  apply beq_false_of_ne
  intro hsame
  have hmem : F.quote ∈ Text.toLower t := by
    refine List.mem_map.2 ⟨F.quote, h, ?_⟩
    rcases F.quote_eq with hquote | hquote <;> rw [hquote] <;> decide
  rw [hsame] at hmem
  exact absurd F.opens (List.any_eq_false.1 hword _ hmem)

/-! ## Conditions -/

theorem neutral_then : ∀ w ∈ [text "then"], ∀ c ∈ w, IsNeutral c := by
  simpa using forall_isNeutral (t := text "then") (by decide)

theorem neutral_then_do : ∀ w ∈ [text "then", text "do"], ∀ c ∈ w, IsNeutral c :=
  List.forall_mem_append.2 ⟨neutral_then, neutral_do⟩

theorem condition?_refill {words : List Text} (hwords : ∀ w ∈ words, ∀ c ∈ w, IsNeutral c) (h : F.Changes t t')
    (hline : '\n' ∉ t) (hread : condition? words t = some p) (hp : imbalance? p = none) :
    ∃ p', condition? words t' = some p' ∧ F.Changes p p' := by
  unfold condition? at hread
  split at hread
  · next hend =>
    split at hread
    · next q _ hpassage =>
      split at hread
      · cases hread
      · obtain rfl := Option.some.inj hread
        -- the line does not close in front of a quote, so the literal stands in the condition
        have hmem := quote_mem_passage h hpassage fun r hr => quote_not_mem_of_closing hwords hr
        obtain ⟨p', hpassage', hchanges⟩ := (passes_blanks h (ignored_closing hwords) hline hpassage
          (isOutside_of_balanced hp) ⟨_, hmem, F.isBlank_quote⟩).closing hwords
        refine ⟨p', ?_, hchanges⟩
        rw [condition?, if_pos ((atWordEnd_congr h.head?_eq).symm.trans hend), hpassage']
        simp only [sameWord_eq_false (w := text "then") (by decide) hchanges.mem.2,
          sameWord_eq_false (w := text "do") (by decide) hchanges.mem.2, Bool.or_false, Bool.false_eq_true, if_false]
    · cases hread
  · cases hread

/-! ## Values behind a keyword -/

/-- What is left of a line. -/
def rest? (t : Text) : Option Text := if t = [] ∨ '\n' ∈ t then none else some t

theorem rest?_eq_some (h : rest? t = some r) : t = r := by
  rw [rest?] at h
  split at h
  · cases h
  · exact Option.some.inj h

theorem ignored_rest? : F.Ignored rest? := by
  intro u t t' hat hline
  rw [rest?, rest?, if_neg (by simp [List.ne_nil_of_mem hat.mem.1, hline]),
    if_neg (by simp [List.ne_nil_of_mem hat.mem.2, hat.inLine hline])]
  rfl

theorem returnValue?_refill {value : Option Text} (h : F.Changes t t') (hline : '\n' ∉ t)
    (hread : returnValue? t = some value) :
    ∃ v v', value = some v ∧ returnValue? t' = some (some v') ∧ F.Changes v v' := by
  have hvalue {t : Text} (ht : t ≠ []) : returnValue? t = (someBlanks rest? t).map some := by
    cases t with
    | nil => exact absurd rfl ht
    | cons c t => rfl
  rw [hvalue h.ne_nil.1] at hread
  obtain ⟨v, hv, rfl⟩ := Option.map_eq_some_iff.1 hread
  obtain ⟨_, _, _, v', -, -, -, hchanges, hr, hr', hread'⟩ := ignored_rest?.someBlanks.changes h hline hv
  rw [rest?_eq_some hr, rest?_eq_some hr'] at hchanges
  refine ⟨v, v', rfl, ?_, hchanges⟩
  rw [hvalue h.ne_nil.2, hread']
  rfl

/-! ## Parentheses -/

theorem insideParentheses?_iff : insideParentheses? t = some v ↔ t = '(' :: (v ++ [')']) ∧ imbalance? v = none := by
  constructor
  · intro h
    refine ⟨insideParentheses?_eq_some h, ?_⟩
    rw [insideParentheses?] at h
    split at h
    · cases h
    · simpa [isBalanced] using (Option.filter_eq_some_iff.1 h).2
  · rintro ⟨rfl, hbalanced⟩
    simp only [insideParentheses?, show Text.dropStart? ['('] ('(' :: (v ++ [')'])) = some (v ++ [')']) from
      Text.dropStart?_append ['('] _, Text.dropEnd?_append]
    simp [Option.filter, isBalanced, hbalanced]

theorem insideParentheses?_of_changes (h : F.Changes t t') (hread : insideParentheses? t = some v) :
    ∃ v', insideParentheses? t' = some v' ∧ F.Changes v v' := by
  obtain ⟨rfl, hbalanced⟩ := insideParentheses?_iff.1 hread
  obtain ⟨r', rfl, hr⟩ := Refill.Changes.behind (k := ['(']) h (by simp [isQuote])
  obtain ⟨v', rfl, hv⟩ := hr.front (by rfl)
  exact ⟨v', insideParentheses?_iff.2 ⟨rfl, by rw [hv.imbalance?_eq, hbalanced]⟩, hv⟩

/-- There are parentheses around both texts or around neither. -/
theorem insideParentheses?_refill (h : F.Changes t t') :
    Option.Rel F.Changes (insideParentheses? t) (insideParentheses? t') := by
  cases hread : insideParentheses? t with
  | some v =>
    obtain ⟨v', hread', hv⟩ := insideParentheses?_of_changes h hread
    rw [hread']
    exact .some hv
  | none =>
    cases hread' : insideParentheses? t' with
    | none => exact .none
    | some v' =>
      obtain ⟨v, hsome, -⟩ := insideParentheses?_of_changes h.swap hread'
      rw [hread] at hsome
      cases hsome

/-- The list of a print line. -/
theorem list_refill (h : F.Changes t t') :
    F.Changes ((insideParentheses? t).getD t) ((insideParentheses? t').getD t') := by
  have hinside := insideParentheses?_refill h
  generalize insideParentheses? t = y at hinside ⊢
  generalize insideParentheses? t' = y' at hinside ⊢
  cases hinside with
  | none => exact h
  | some hv => exact hv

theorem promptOperand_of_inside (h : insideParentheses? (Text.trim t) = some v) (hv : Text.trim v ≠ []) :
    promptOperand t = some (Text.trim v) := by
  simp only [promptOperand, h]
  exact if_neg (by simpa using hv)

theorem promptOperand_of_outside (h : insideParentheses? (Text.trim t) = none) (ht : Text.trim t ≠ []) :
    promptOperand t = some (Text.trim t) := by
  simp only [promptOperand, h]
  exact if_neg (by simpa using ht)

theorem promptOperand_refill (h : F.Changes t t') :
    ∃ p p', promptOperand t = some p ∧ promptOperand t' = some p' ∧ F.Changes p p' := by
  have hinside := insideParentheses?_refill h.trim
  generalize hread : insideParentheses? (Text.trim t) = y at hinside
  generalize hread' : insideParentheses? (Text.trim t') = y' at hinside
  cases hinside with
  | none => exact ⟨_, _, promptOperand_of_outside hread h.trim.ne_nil.1,
      promptOperand_of_outside hread' h.trim.ne_nil.2, h.trim⟩
  | some hv => exact ⟨_, _, promptOperand_of_inside hread hv.trim.ne_nil.1,
      promptOperand_of_inside hread' hv.trim.ne_nil.2, hv.trim⟩

/-! ## Right-hand sides -/

theorem initializer_eq (t : Text) : initializer t =
    if headWord (Text.trim t) = text "input" ∧ followsKeyword ((Text.trim t).drop 5) = true
    then .input (promptOperand ((Text.trim t).drop 5)) else .expression (Text.trim t) := by
  simp only [initializer, Bool.and_eq_true, decide_eq_true_eq]

theorem initializer_refill (h : F.Changes t t') (hbalanced : imbalance? (initializer t).operand = none) :
    (initializer t).Rewords F.Changes (initializer t') ∧ imbalance? (initializer t').operand = none := by
  obtain ⟨hword, hrest⟩ := headWord_refill h.trim
  rw [initializer_eq] at hbalanced
  rw [initializer_eq, initializer_eq, hword]
  -- an input call is known by its first word, which the change does not touch
  by_cases hinput : headWord (Text.trim t) = text "input"
  · rw [hinput] at hrest
    change F.Changes ((Text.trim t).drop 5) ((Text.trim t').drop 5) at hrest
    rw [← followsKeyword_congr hrest.head?_eq]
    split at hbalanced
    · next hasks =>
      obtain ⟨p, p', hp, hp', hchanges⟩ := promptOperand_refill hrest
      rw [if_pos hasks, if_pos hasks, hp, hp']
      rw [hp] at hbalanced
      exact ⟨.prompt hchanges, hchanges.imbalance?_eq.trans hbalanced⟩
    · next hasks =>
      rw [if_neg hasks, if_neg hasks]
      exact ⟨.expression h.trim, h.trim.imbalance?_eq.trans hbalanced⟩
  · rw [if_neg (by simp [hinput])] at hbalanced
    rw [if_neg (by simp [hinput]), if_neg (by simp [hinput])]
    exact ⟨.expression h.trim, h.trim.imbalance?_eq.trans hbalanced⟩

/-! ## Print and input -/

theorem atEnd_eq_some (h : atEnd t = some ()) : t = [] := by
  cases t with
  | nil => rfl
  | cons c t => cases h

/-- A text with groups is not at its end. -/
theorem atEnd_of_groupStart {inner : Char → Bool} {y : Text × Unit} (h : groupStart inner atEnd t = some y) :
    atEnd t = none := by
  cases t with
  | nil => cases h
  | cons c t => rfl

/-- A target with other contents for a literal in its indices is one. -/
theorem isTarget_of_changes (h : F.Changes t t') (hline : '\n' ∉ t) (hread : isTarget t = true) :
    isTarget t' = true := by
  cases hname : name? isNameStart t with
  | none => simp [isTarget, hname] at hread
  | some y =>
    obtain ⟨n, r⟩ := y
    obtain ⟨_, _, hat⟩ := id h
    obtain ⟨u, r', rfl, hr, hname'⟩ := name?_at isNeutral_of_isNameStart hat hname
    obtain ⟨rfl, -⟩ := name?_split isNeutral_of_isNameStart hname
    have hinside {r : Text} (hline : '\n' ∉ r) : ∀ c ∈ r, decide (c ≠ '\n') = true := by
      intro c hc
      simp only [decide_eq_true_eq]
      rintro rfl
      exact hline hc
    have hline₁ : '\n' ∉ r := fun hmem => hline (List.mem_append_right n hmem)
    simp only [isTarget, hname, hname'] at hread ⊢
    obtain ⟨⟨g, _⟩, hgroups⟩ := Option.isSome_iff_exists.1 hread
    obtain ⟨x, rfl, hsplit⟩ := brackets_split (fun _ _ => atEnd_of_groupStart)
      (fun c hc _ => hinside hline₁ c hc) hgroups
    -- the groups end with the text
    obtain rfl := atEnd_eq_some hsplit.read
    rw [List.append_nil] at hr hline₁
    have hform := (hsplit.form.resolve_left (List.ne_nil_of_mem hr.mem.1)).refill hr
    have hend : (atEnd []).isSome = true := rfl
    simpa using isSome_brackets (.inr hform) (hinside (hr.inLine hline₁)) hend

theorem isTarget_refill (h : F.Changes t t') (hline : '\n' ∉ t) : isTarget t' = isTarget t := by
  rw [Bool.eq_iff_iff]
  exact ⟨isTarget_of_changes h.swap (h.inLine hline), isTarget_of_changes h hline⟩

theorem printOf_refill (h : F.Changes r r') (hfollows : followsKeyword r = true)
    (hexecutable : (printOf r).isExecutable = true) : Refilled F (printOf r) (printOf r') := by
  have hfollows' : followsKeyword r' = true := (followsKeyword_congr h.head?_eq).symm.trans hfollows
  have hlist := list_refill h.trim
  simp only [printOf, hfollows, hfollows', if_true] at hexecutable ⊢
  generalize (insideParentheses? (Text.trim r)).getD (Text.trim r) = list at hexecutable hlist ⊢
  generalize (insideParentheses? (Text.trim r')).getD (Text.trim r') = list' at hlist ⊢
  -- the commas are the same ones, and so are all items but one
  obtain ⟨front, item, item', behind, hitems, hitems', hchanges⟩ := hlist.splitList
  obtain ⟨hbalanced, hprint⟩ := balanced_of_isExecutable hexecutable
  rw [hprint] at hexecutable ⊢
  have hnonempty : ¬ (splitList list).any List.isEmpty = true := by
    intro hempty
    rw [if_pos hempty] at hexecutable
    cases hexecutable
  rw [hitems] at hnonempty
  -- the item with the literal is not empty in either list
  have hnonempty' : ¬ (front ++ item' :: behind).any List.isEmpty = true := by
    simp only [List.any_append, List.any_cons, Bool.or_eq_true, not_or] at hnonempty ⊢
    exact ⟨hnonempty.1, by simpa using hchanges.ne_nil.2, hnonempty.2.2⟩
  rw [hitems, hitems', if_neg hnonempty, if_neg hnonempty']
  exact refilled_operand (.print hchanges) hlist (hbalanced list List.mem_cons_self)

theorem inputOf_refill (h : F.Changes r r') (hline : '\n' ∉ r) (hfollows : followsKeyword r = true)
    (hexecutable : (inputOf r).isExecutable = true) : Refilled F (inputOf r) (inputOf r') := by
  have hfollows' : followsKeyword r' = true := (followsKeyword_congr h.head?_eq).symm.trans hfollows
  obtain ⟨p, p', hp, hp', hchanges⟩ := promptOperand_refill h
  have htarget := isTarget_refill hchanges fun hmem => hline ((promptOperand_isInfix hp).subset hmem)
  simp only [inputOf, hfollows, hfollows', if_true, hp, hp', htarget] at hexecutable ⊢
  obtain ⟨hbalanced, hinput⟩ := balanced_of_isExecutable hexecutable
  rw [hinput]
  cases isTarget p with
  | true => exact refilled_operand (.input hchanges) hchanges (hbalanced p List.mem_cons_self)
  | false => exact refilled_operand (.prompt hchanges) hchanges (hbalanced p List.mem_cons_self)

/-! ## Declarations -/

/-- What is read behind the size of an array. -/
def afterSize? (t : Text) : Option (Option Text) :=
  (Text.dropStart? [']'] t).bind fun t => initialValue? (Text.trimStart t)

/-- What is read behind the name of a declaration and white space. -/
def sizeOrValue? (name : Text) : Text → Option (Text × Option Text × Option Text)
  | '[' :: r => (blanks (passage (blanks afterSize?)) r).map fun y => (name, some y.1, y.2)
  | t => (initialValue? t).map fun value => (name, none, value)

theorem sizeOrValue?_of_ne {name : Text} (h : ∀ r, t ≠ '[' :: r) :
    sizeOrValue? name t = (initialValue? t).map fun value => (name, none, value) := by
  unfold sizeOrValue?
  split
  · next r => exact absurd rfl (h r)
  · rfl

theorem declaration?_eq (t : Text) :
    declaration? t = named (fun p => sizeOrValue? p.1 (Text.trimStart p.2)) t := by
  unfold declaration? named
  congr 1
  funext u
  cases name? isFoldedNameStart u with
  | none => rfl
  | some p =>
    simp only [Option.bind_eq_bind, Option.bind_some]
    generalize Text.trimStart p.2 = y
    split
    · next r =>
      change (blanks (passage (blanks afterSize?)) r).bind _ = (blanks (passage (blanks afterSize?)) r).map _
      cases blanks (passage (blanks afterSize?)) r <;> rfl
    · next hother => rw [sizeOrValue?_of_ne hother]

theorem initialValue?_refill {value : Option Text} (h : F.Changes t t') (hline : '\n' ∉ t)
    (hread : initialValue? t = some value) :
    ∃ v v', value = some v ∧ initialValue? t' = some (some v') ∧ F.Changes v v' := by
  unfold initialValue? at hread
  split at hread
  · exact absurd rfl h.ne_nil.1
  · next r =>
    obtain ⟨r', rfl, hr⟩ := Refill.Changes.behind (k := ['=']) h (by simp [isQuote])
    have hr := hr.trimStart
    simp only [Option.ite_none_left_eq_some, Option.some.injEq] at hread
    obtain ⟨-, rfl⟩ := hread
    have hline' : '\n' ∉ Text.trimStart r' := hr.inLine fun hmem =>
      hline (List.mem_cons_of_mem '=' ((Text.trimStart_suffix r).subset hmem))
    exact ⟨_, _, rfl, if_neg (not_or.2 ⟨hr.ne_nil.2, hline'⟩), hr⟩
  · cases hread

theorem eq_nil_of_initialValue? (h : initialValue? t = some none) : t = [] := by
  unfold initialValue? at h
  split at h
  · rfl
  · simp at h
  · cases h

/-- The value behind an equals sign is some text. -/
theorem isSome_initialValue?_of_at (h : F.At u t t') (hline : '\n' ∉ t) (hread : (initialValue? t).isSome = true) :
    (initialValue? t').isSome = true := by
  obtain ⟨value, hvalue⟩ := Option.isSome_iff_exists.1 hread
  unfold initialValue? at hvalue
  split at hvalue
  · cases h.mem.1
  · next r =>
    obtain ⟨u', r', -, rfl, hat⟩ := h.cons_inv (by rfl)
    have hat := hat.trimStart
    have hline' : '\n' ∉ Text.trimStart r' := hat.inLine fun hmem =>
      hline (List.mem_cons_of_mem '=' ((Text.trimStart_suffix r).subset hmem))
    rw [show initialValue? ('=' :: r') = some (some (Text.trimStart r')) from
      if_neg (not_or.2 ⟨List.ne_nil_of_mem hat.mem.2, hline'⟩)]
    rfl
  · cases hvalue

theorem isSome_afterSize?_of_at (h : F.At u t t') (hline : '\n' ∉ t) (hread : (afterSize? t).isSome = true) :
    (afterSize? t').isSome = true := by
  cases hstart : Text.dropStart? [']'] t with
  | none => simp [afterSize?, hstart] at hread
  | some r =>
    obtain ⟨u', r', -, hat, hstart'⟩ := dropStart?_at (by rfl) h hstart
    rw [afterSize?, hstart, Option.bind_some] at hread
    rw [afterSize?, hstart', Option.bind_some]
    refine isSome_initialValue?_of_at hat.trimStart (fun hmem => hline ?_) hread
    rw [Text.dropStart?_eq_some hstart]
    exact List.mem_append_right [']'] ((Text.trimStart_suffix r).subset hmem)

theorem ignored_afterSize? : F.Ignored afterSize? := by
  intro u t t' hat hline
  rw [Bool.eq_iff_iff]
  exact ⟨isSome_afterSize?_of_at hat hline, isSome_afterSize?_of_at hat.swap (hat.inLine hline)⟩

/-- Without a value there is only white space behind the size. -/
theorem isQuote_of_afterSize? (h : blanks afterSize? t = some none) : ∀ c ∈ t, isQuote c = false := by
  obtain ⟨g, r, rfl, hg, hr⟩ := blanks_split h
  obtain ⟨x, hx, hvalue⟩ := Option.bind_eq_some_iff.1 hr
  have hblank : Text.leadingBlanks x = x := by
    have hcut := Text.leadingBlanks_append_trimStart x
    rwa [eq_nil_of_initialValue? hvalue, List.append_nil] at hcut
  rw [Text.dropStart?_eq_some hx]
  simp only [List.forall_mem_append, List.forall_mem_singleton]
  refine ⟨fun c hc => isQuote_of_isBlank (hg c hc), by rfl, fun c hc => ?_⟩
  rw [← hblank] at hc
  exact isQuote_of_isBlank (Text.isBlank_of_mem_leadingBlanks hc)

theorem head?_of_initialValue? {c : Char} (h : (initialValue? (c :: t)).isSome = true) : c = '=' := by
  unfold initialValue? at h
  split at h
  · next heq => cases heq
  · next heq => exact (List.cons.inj heq).1
  · cases h

/-- In front of a quote, a size ends where a value follows. -/
theorem size_isCutBy {value : Option Text} (h : blanks afterSize? (w ++ F.quote :: z) = some value) :
    Place.size.isCutBy w = true := by
  obtain ⟨g, r, hcut, hg, hr⟩ := blanks_split h
  obtain ⟨x, hx, hvalue⟩ := Option.bind_eq_some_iff.1 hr
  rw [Text.dropStart?_eq_some hx, ← List.append_assoc] at hcut
  have hunquoted : ∀ c ∈ g ++ [']'], isQuote c = false := by
    simp only [List.forall_mem_append, List.forall_mem_singleton]
    exact ⟨fun c hc => isQuote_of_isBlank (hg c hc), by rfl⟩
  obtain ⟨w', rfl, rfl⟩ := exists_of_unquoted hcut hunquoted F.opens
  rw [Text.trimStart_append_cons F.isBlank_quote] at hvalue
  rw [List.append_assoc]
  apply Place.isCutBy_append
  apply Place.isCutBy_of_endsAt
  cases htrim : Text.trimStart w' with
  | nil =>
    -- the quote is no equals sign
    rw [htrim, List.nil_append] at hvalue
    have hsign := head?_of_initialValue? (t := z) (c := F.quote) (by rw [hvalue]; rfl)
    have hopens := F.opens
    rw [hsign] at hopens
    cases hopens
  | cons c y =>
    rw [htrim, List.cons_append] at hvalue
    obtain rfl := head?_of_initialValue? (by rw [hvalue]; rfl)
    rw [Place.endsAt, Text.dropStart?_append, Option.any_some, htrim]
    rfl

/-- An array whose size gets other contents for its literal has a value behind the size if it is cut. -/
theorem size_refill {size : Text} (h : F.Changes x x') (hline : '\n' ∉ x)
    (hread : blanks (passage (blanks afterSize?)) x = some (size, none)) (hsize : imbalance? size = none) :
    ∃ size' y, blanks (passage (blanks afterSize?)) x' = some y ∧ F.Changes size size' ∧
      (y = (size', none) ∨ y.2.isSome = true ∧ Place.size.isCutBy F.contents = true) := by
  have hquote {r : Text} (hr : blanks afterSize? r = some none) : F.quote ∉ r :=
    fun hmem => absurd (F.opens.symm.trans (isQuote_of_afterSize? hr _ hmem)) (by simp)
  have hmem := quote_mem_passage h hread fun r hr => hquote hr
  -- the change lies in the size, or its new text breaks the size off; it cannot lie behind
  cases passes_blanks h ignored_afterSize?.blanks.ignored hline hread (isOutside_of_balanced hsize)
      ⟨_, hmem, F.isBlank_quote⟩ with
  | within hu hat hsame => exact ⟨_, _, hsame, hat.changes hu, .inl rfl⟩
  | @cut _ _ _ _ _ value hu hat hw hend hcut =>
    refine ⟨_, _, hcut, hat.changes hu, .inr ⟨?_, ?_⟩⟩
    · cases value with
      | some v => rfl
      | none => exact absurd (by simp) (hquote hend)
    · rw [hw]
      exact Place.isCutBy_append (size_isCutBy hend)
  | behind hchanges _ hend _ => exact absurd hchanges.mem.1 (hquote hend)

theorem declarationOf_eq {kind : DeclarationKind} {name : Text} {size value : Option Text}
    (h : declaration? t = some (name, size, value)) (hsize : size = none ∨ value = none) :
    declarationOf kind t = ifBalanced .declaration
      [size.getD [], ((value.map initializer).map Initializer.operand).getD []]
      (.declaration kind name size (value.map initializer)) := by
  rw [declarationOf, h]
  rcases hsize with rfl | rfl
  · rfl
  · cases size <;> rfl

theorem declarationOf_eq_malformed {kind : DeclarationKind} {name : Text} {size value : Option Text}
    (h : declaration? t = some (name, size, value)) (hsize : size.isSome = true) (hvalue : value.isSome = true) :
    declarationOf kind t = .malformed .declaration .initializedArray := by
  obtain ⟨size, rfl⟩ := Option.isSome_iff_exists.1 hsize
  obtain ⟨value, rfl⟩ := Option.isSome_iff_exists.1 hvalue
  rw [declarationOf, h]

/-- An array with the literal in its size, which is behind the bracket. -/
theorem sizedDeclaration_refill {kind : DeclarationKind} {name size : Text} {value : Option Text}
    (h : F.Changes x x') (hline : '\n' ∉ x) (hread : blanks (passage (blanks afterSize?)) x = some (size, value))
    (ht : declaration? t = some (name, some size, value))
    (ht' : ∀ y, blanks (passage (blanks afterSize?)) x' = some y → declaration? t' = some (name, some y.1, y.2))
    (hexecutable : (declarationOf kind t).isExecutable = true) :
    Refilled F (declarationOf kind t) (declarationOf kind t') := by
  cases value with
  | some v =>
    rw [declarationOf_eq_malformed ht rfl rfl] at hexecutable
    cases hexecutable
  | none =>
    rw [declarationOf_eq ht (.inr rfl)] at hexecutable ⊢
    obtain ⟨hbalanced, hwhole⟩ := balanced_of_isExecutable hexecutable
    rw [hwhole]
    have hsize : imbalance? size = none := hbalanced size (by simp)
    -- a size that is cut leaves a value behind it, which an array may not have
    obtain ⟨size', y, hread', hchanges, rfl | ⟨hvalue, hcut⟩⟩ := size_refill h hline hread hsize
    · rw [declarationOf_eq (ht' _ hread') (.inr rfl), ifBalanced_of_balanced]
      · exact (Rewords.size hchanges).refilled
      · simp only [Option.getD_some, Option.map_none, Option.getD_none, List.mem_cons, List.not_mem_nil, or_false]
        rintro _ (rfl | rfl)
        · rw [hchanges.imbalance?_eq, hsize]
        · exact (leads_nil []).imbalance?_eq
    · refine (Rewords.size hchanges).refilled_cut hcut ?_
      rw [declarationOf_eq_malformed (ht' _ hread') rfl hvalue]
      rfl

/-- A declaration with the literal in its value. -/
theorem initializedDeclaration_refill {kind : DeclarationKind} {name value value' : Text} (h : F.Changes value value')
    (ht : declaration? t = some (name, none, some value)) (ht' : declaration? t' = some (name, none, some value'))
    (hexecutable : (declarationOf kind t).isExecutable = true) :
    Refilled F (declarationOf kind t) (declarationOf kind t') := by
  rw [declarationOf_eq ht (.inl rfl)] at hexecutable ⊢
  obtain ⟨hbalanced, hwhole⟩ := balanced_of_isExecutable hexecutable
  obtain ⟨hinitial, hbalanced'⟩ := initializer_refill h (hbalanced (initializer value).operand (by simp))
  rw [hwhole, declarationOf_eq ht' (.inl rfl), ifBalanced_of_balanced]
  · exact (Rewords.initial hinitial).refilled
  · simp only [Option.getD_none, Option.map_some, Option.getD_some, List.mem_cons, List.not_mem_nil, or_false]
    rintro _ (rfl | rfl)
    · exact (leads_nil []).imbalance?_eq
    · exact hbalanced'

theorem declarationOf_refill {kind : DeclarationKind} (h : F.Changes t t') (hline : '\n' ∉ t)
    (hexecutable : (declarationOf kind t).isExecutable = true) :
    Refilled F (declarationOf kind t) (declarationOf kind t') := by
  cases hread : declaration? t with
  | none => simp [declarationOf, hread, isExecutable] at hexecutable
  | some y =>
    obtain ⟨name, size, value⟩ := y
    have hnamed := hread
    rw [declaration?_eq] at hnamed
    obtain ⟨n, r, r', hchanges, hr, hnext, hagain⟩ := named_refill h hnamed
    have htrim := hchanges.trimStart
    have hline' : '\n' ∉ Text.trimStart r := fun hmem => hline (hr.subset ((Text.trimStart_suffix r).subset hmem))
    rw [← declaration?_eq] at hagain
    generalize Text.trimStart r = y at hnext htrim hline'
    generalize Text.trimStart r' = y' at hagain htrim
    by_cases hsized : ∃ x, y = '[' :: x
    · -- the literal stands in the size
      obtain ⟨x, rfl⟩ := hsized
      obtain ⟨x', rfl, hx⟩ := Refill.Changes.behind (k := ['[']) htrim (by simp [isQuote])
      obtain ⟨⟨z, v⟩, hz, heq⟩ := Option.map_eq_some_iff.1 hnext
      cases heq
      refine sizedDeclaration_refill hx (fun hmem => hline' (List.mem_cons_of_mem '[' hmem)) hz hread
        (fun y hy => hagain _ ?_) hexecutable
      exact Option.map_eq_some_iff.2 ⟨y, hy, rfl⟩
    · -- or in the value
      rw [not_exists] at hsized
      rw [sizeOrValue?_of_ne hsized] at hnext
      obtain ⟨v, hv, heq⟩ := Option.map_eq_some_iff.1 hnext
      cases heq
      obtain ⟨value, value', rfl, hv', hvalue⟩ := initialValue?_refill htrim hline' hv
      refine initializedDeclaration_refill hvalue hread (hagain _ ?_) hexecutable
      rw [sizeOrValue?_of_ne fun x hx => ?_]
      · exact Option.map_eq_some_iff.2 ⟨some value', hv', rfl⟩
      · rw [hx] at hv'
        simp [initialValue?] at hv'

/-! ## Lines without a place for a literal -/

theorem function?_eq (t : Text) : function? t = named (fun p =>
    (Text.dropStart? ['('] (Text.trimStart p.2)).bind fun r => (Text.dropEnd? [')'] r).bind fun list =>
      if list.any (fun c => c = '(' || c = ')') then none else some (p.1, list)) t := rfl

/-- No parameter holds a quote. -/
theorem not_isExecutable_functionOf (h : F.Changes t t') : (functionOf t).isExecutable = false := by
  cases hread : function? t with
  | none => simp [functionOf, hread, isExecutable]
  | some y =>
    obtain ⟨name, list⟩ := y
    have hnamed := hread
    rw [function?_eq] at hnamed
    obtain ⟨n, r, r', hchanges, -, hnext, -⟩ := named_refill h hnamed
    simp only [Option.bind_eq_some_iff, Option.ite_none_left_eq_some, Option.some.injEq, Prod.mk.injEq] at hnext
    obtain ⟨x, hx, list, hlist, -, rfl, rfl⟩ := hnext
    have htrim := hchanges.trimStart
    rw [Text.dropStart?_eq_some hx, Text.dropEnd?_eq_some hlist] at htrim
    obtain ⟨x', -, hinside⟩ := htrim.behind (by simp [isQuote])
    obtain ⟨list', -, hitems⟩ := hinside.front (by rfl)
    obtain ⟨before, item, _, behind, hsplit, -, hitem⟩ := hitems.splitList
    -- the literal stands in a parameter, and no name holds a quote
    have hfound : ∃ written, (splitList list).find? (fun p => !isName p) = some written := by
      rw [← Option.isSome_iff_exists, List.find?_isSome]
      refine ⟨item, by simp [hsplit], ?_⟩
      by_contra hname
      have hneutral := (isSpelledAsName_of_isName (by simpa using hname)).isNeutral F.quote hitem.mem.1
      exact absurd (F.opens.symm.trans hneutral.1) (by simp)
    obtain ⟨written, hfound⟩ := hfound
    simp only [functionOf, hread, hfound, isExecutable]

theorem not_isExecutable_endingOf (h : F.quote ∈ t) : (endingOf t).isExecutable = false := by
  have hmem : F.quote ∈ Text.trimStart t := by
    rw [← Text.leadingBlanks_append_trimStart t, List.mem_append] at h
    refine h.resolve_left fun hblank => ?_
    exact absurd (F.isBlank_quote.symm.trans (Text.isBlank_of_mem_leadingBlanks hblank)) (by simp)
  have hkind : blockKind? (Text.trimStart t) = none := by
    rw [blockKind?, List.find?_eq_none]
    intro kind _
    rw [sameWord_eq_false (by cases kind <;> decide) hmem]
    simp
  simp only [endingOf, sameWord_eq_false (w := text "algorithm") (by decide) hmem, hkind, Bool.false_eq_true, if_false,
    isExecutable]

/-! ## Keywords -/

theorem afterElseIf?_refill (h : F.Changes r r') (hline : '\n' ∉ r) (hread : afterElseIf? r = some x) :
    ∃ x', afterElseIf? r' = some x' ∧ F.Changes x x' ∧ x <:+ r := by
  have hword : F.Follows some (dropWord? (text "if")) := by
    have hnext : F.Ignored (some : Text → Option Text) := fun _ _ _ _ _ => rfl
    simpa using hnext.dropWord (forall_isNeutral (t := text "if") (by decide))
  obtain ⟨k, q, q', x', rfl, rfl, -, hchanges, hq, hq', hread'⟩ :=
    (hword.trans hword.ignored.someBlanks).changes h hline hread
  cases hq
  cases hq'
  exact ⟨q', hread', hchanges, List.suffix_append k x⟩

theorem elseIfOf_refill (h : F.Changes r r') (hline : '\n' ∉ r)
    (hexecutable : (elseIfOf (some r)).isExecutable = true) :
    Refilled F (elseIfOf (some r)) (elseIfOf (some r')) := by
  cases hread : condition? [text "then"] r with
  | none => simp [elseIfOf, hread, isExecutable] at hexecutable
  | some p =>
    simp only [elseIfOf, Option.bind_some, hread] at hexecutable ⊢
    obtain ⟨hbalanced, hwhole⟩ := balanced_of_isExecutable hexecutable
    obtain ⟨p', hread', hchanges⟩ := condition?_refill neutral_then h hline hread (hbalanced p List.mem_cons_self)
    rw [hwhole, hread']
    exact refilled_operand (.elseIf hchanges) hchanges (hbalanced p List.mem_cons_self)

/-- The statement behind a keyword, which is taken for one. -/
theorem withKeyword_refill {keyword : Keyword} (h : F.Changes r r') (hline : '\n' ∉ r)
    (hending : keyword = .ending → F.quote ∈ t.drop 3) (hfollows : keyword.spelled = [] ∨ followsKeyword r = true)
    (hexecutable : (withKeyword keyword t r).isExecutable = true) (hwhole : (withKeyword keyword t r).IsWhole) :
    Refilled F (withKeyword keyword t r) (withKeyword keyword t' r') := by
  -- the literal stands behind the keyword, so there is something to be read
  have hne : r.isEmpty = false := by simpa using h.ne_nil.1
  have hne' : r'.isEmpty = false := by simpa using h.ne_nil.2
  cases keyword with
  | algorithm =>
    simp only [withKeyword] at hexecutable
    split at hexecutable <;> cases hexecutable
  | endAlgorithm =>
    simp only [withKeyword] at hexecutable
    split at hexecutable <;> cases hexecutable
  | ending =>
    rw [withKeyword, not_isExecutable_endingOf (hending rfl)] at hexecutable
    cases hexecutable
  | «for» =>
    cases hread : forLoop? r with
    | none => simp [withKeyword, hread, isExecutable] at hexecutable
    | some y =>
      obtain ⟨name, start, stop, step⟩ := y
      simp only [withKeyword, hread] at hexecutable hwhole ⊢
      obtain ⟨hbalanced, heq⟩ := balanced_of_isExecutable hexecutable
      rw [heq] at hwhole ⊢
      obtain ⟨start', stop', step', hread', hrefilled⟩ := forLoop?_refill h hline hread (hbalanced _ (by simp))
        (hbalanced _ (by simp)) (hbalanced _ (by simp)) hwhole
      rw [hread']
      exact hrefilled
  | «while» =>
    cases hread : condition? [text "then", text "do"] r with
    | none => simp [withKeyword, hread, isExecutable] at hexecutable
    | some p =>
      simp only [withKeyword, hread] at hexecutable ⊢
      obtain ⟨hbalanced, heq⟩ := balanced_of_isExecutable hexecutable
      obtain ⟨p', hread', hchanges⟩ := condition?_refill neutral_then_do h hline hread (hbalanced p List.mem_cons_self)
      rw [heq, hread']
      exact refilled_operand (.whileLoop hchanges) hchanges (hbalanced p List.mem_cons_self)
  | «if» =>
    cases hread : condition? [text "then"] r with
    | none => simp [withKeyword, hread, isExecutable] at hexecutable
    | some p =>
      simp only [withKeyword, hread] at hexecutable ⊢
      obtain ⟨hbalanced, heq⟩ := balanced_of_isExecutable hexecutable
      obtain ⟨p', hread', hchanges⟩ := condition?_refill neutral_then h hline hread (hbalanced p List.mem_cons_self)
      rw [heq, hread']
      exact refilled_operand (.branch hchanges) hchanges (hbalanced p List.mem_cons_self)
  | elseIf => exact elseIfOf_refill h hline hexecutable
  | «else» =>
    simp only [withKeyword, hne, hne', Bool.false_eq_true, if_false] at hexecutable ⊢
    cases hread : afterElseIf? r with
    | none => simp [elseIfOf, hread, isExecutable] at hexecutable
    | some x =>
      obtain ⟨x', hread', hchanges, hx⟩ := afterElseIf?_refill h hline hread
      rw [hread] at hexecutable
      rw [hread']
      exact elseIfOf_refill hchanges (fun hmem => hline (hx.subset hmem)) hexecutable
  | function =>
    rw [withKeyword, not_isExecutable_functionOf h] at hexecutable
    cases hexecutable
  | «return» =>
    cases hread : returnValue? r with
    | none => simp [withKeyword, hread, isExecutable] at hexecutable
    | some value =>
      obtain ⟨v, v', rfl, hread', hchanges⟩ := returnValue?_refill h hline hread
      have hchanges := hchanges.trim
      simp only [withKeyword, hread, hread'] at hexecutable ⊢
      obtain ⟨hbalanced, heq⟩ := balanced_of_isExecutable hexecutable
      rw [heq]
      exact refilled_operand (.returning hchanges) hchanges (hbalanced _ List.mem_cons_self)
  | «break» =>
    simp [withKeyword, hne, isExecutable] at hexecutable
  | «continue» =>
    simp [withKeyword, hne, isExecutable] at hexecutable
  | declaration kind => exact declarationOf_refill h hline hexecutable
  | set =>
    cases hread : set? r with
    | none => simp [withKeyword, hread, isExecutable] at hexecutable
    | some y =>
      obtain ⟨value, target⟩ := y
      simp only [withKeyword, hread] at hexecutable hwhole ⊢
      obtain ⟨hbalanced, heq⟩ := balanced_of_isExecutable hexecutable
      rw [heq] at hwhole ⊢
      obtain ⟨value', target', hread', hrefilled⟩ := set?_refill h hline hread (hbalanced _ (by simp))
        (hbalanced _ (by simp)) hwhole
      rw [hread']
      exact hrefilled
  | declare =>
    simp only [withKeyword] at hexecutable
    split at hexecutable <;> cases hexecutable
  | print => exact printOf_refill h (hfollows.resolve_left (by decide)) hexecutable
  | input => exact inputOf_refill h hline (hfollows.resolve_left (by decide)) hexecutable

end Statement

end Pseudocode
