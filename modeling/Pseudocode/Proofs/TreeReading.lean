import Pseudocode.Proofs.Declarations
import Pseudocode.Proofs.Levels
import Pseudocode.Proofs.Tree

/-!
# Reading trees

The text of a tree is read as the tree. There is one lemma for each way to put trees together, which
takes how the parts are read to how the whole is read at its level; where a part stands in parentheses
or between commas, it is read by the reader of nested phrases, and only shorter texts are nested.

* `ReadsInside`       how a nested text is read
* `ReadsOperand`      how an operand is read, with the parentheses that its level requires
* `Tree.readsLevel`   how the text of a tree is read
-/

namespace Pseudocode.Script

open Reader Grammar

section

variable {fuel : Nat} {self : Reader Phrase} {w v u t : Text} {e f g : Expression} {level : Nat}

/-- A nested text is read as a whole phrase. -/
structure ReadsInside (nested : Reader Phrase) (w : Text) (e : Expression) : Prop where
  starts : Starts w
  reads : ∀ t, EndsAt 1 t → Reads nested (w ++ t) (fun p => p.Means (12 * w.length) e) (skip t)

/-- A nested text ends at a sign that ends phrases. -/
theorem ReadsInside.reads_closer (h : ReadsInside self w e) {c : Char} (hc : c ∈ closers) (t : Text) :
    Reads self (w ++ c :: t) (fun p => p.Means (12 * w.length) e) (c :: t) := by
  have hreads := h.reads (c :: t) (endsPhrase_closer hc t).endsAt
  rwa [skip_closer hc] at hreads

/-! ## Literals and names -/

/-- What is one token is read at the tightest level. -/
theorem readsLevel_token (hlevel : level ∈ [10, 11]) (hw : Starts w)
    (hplain : ∀ t, EndsWord t → Token.unaryOperator? (w ++ t) = none)
    (hprimary : ∀ t, EndsWord t → (level = 10 → t.head? ≠ some '.') →
      Reads (primary fuel self) (w ++ t) (fun p => p.Means 12 e) (skip t)) :
    ReadsLevel fuel self level w e := by
  refine .suffixed hlevel hplain fun t ht hpoint => Reads.leads ?_
  -- a token has at least one character, which is room enough for it
  have hlength := hw.length_pos
  exact (hprimary t ht hpoint).mono fun p hp => hp.mono (by omega)

theorem readsLevel_number (l : Literal) :
    ReadsLevel fuel self 10 l.source (.number nowhere l.value) := by
  refine readsLevel_token (by decide) (.ofLiteral l) (fun t _ => l.unaryOperator?_source t)
    fun t ht hpoint => ?_
  -- a point behind the number would be read as part of it
  exact l.reads_primary ht (hpoint rfl)

theorem readsLevel_string (value : Text) :
    ReadsLevel fuel self 11 (quote value) (.string nowhere value) :=
  readsLevel_token (by decide) (.sign rfl rfl (by decide) _)
    (fun t _ => unaryOperator?_quote value t) fun t _ _ => reads_primary_quote value t

/-- A word that is a literal, and is found in the table of the reader with the index `n`. The readers
    before that one do not know the word. -/
theorem readsLevel_word {α : Type} {table : List (Text × α)} {a : α} {make : Nat → α → Phrase}
    (hw : w ∈ [text "true", text "false", text "null", text "undefined"]) (n : Nat)
    (hreader : literals[n]? = some (single (Token.wordOf? table) make))
    (hlookup : table.lookup w = some a) (hbefore : w ∉ (literalWords.take n).flatten)
    (hmake : ∀ start, (make start a).Means 12 e) : ReadsLevel fuel self 11 w e := by
  have hchars : ∀ c ∈ w, Text.isIdentifierChar c = true :=
    List.all_eq_true.1 (by fin_cases hw <;> decide)
  have hunary : w ∉ [text "typeof", text "await"] := by fin_cases hw <;> decide
  have hsentence : w ∉ sentenceWords.flatten := by fin_cases hw <;> decide
  obtain ⟨c, r, rfl, hstart, hdigit, hsign⟩ : ∃ c r, w = c :: r ∧
      Text.isIdentifierStart c = true ∧ c.isDigit = false ∧ c ∉ ['.', '"', '\'', '!', '-', '+'] := by
    fin_cases hw <;> exact ⟨_, _, rfl, rfl, rfl, by decide⟩
  have hends {t : Text} (ht : EndsWord t) : wordStart (c :: (r ++ t)) = c :: r :=
    wordStart_append hchars ht
  refine readsLevel_token (by decide) (.ofWord ⟨c, r, rfl, hstart⟩ hchars hsentence)
    (fun t ht => ?_) fun t ht _ => ?_
  · refine unaryOperator?_eq_none (fun h => hsign ?_) (hends ht) hunary
    exact List.mem_append_right ['.', '"', '\''] h
  · have hscan : Token.wordOf? table (c :: r ++ t) = some (a, (c :: r).length) := by
      rw [List.cons_append]
      simp only [Token.wordOf?, hends ht, hlookup, Option.map_some]
    have hquotes : c ∉ ['.', '"', '\''] := fun h => hsign (List.mem_append_left ['!', '-', '+'] h)
    obtain ⟨hn, hr⟩ := List.getElem?_eq_some_iff.1 hreader
    -- the alternatives are cut where the reader of the word stands
    have hsplit := List.take_append_drop n literals
    rw [List.drop_eq_getElem_cons hn, hr] at hsplit
    show Reads (oneOf (literals ++ _)) _ _ _
    rw [← hsplit, List.append_assoc, List.cons_append]
    exact (reads_single hscan hmake).oneOf _ (fails_literals hdigit hquotes (hends ht) n hbefore)

theorem readsLevel_identifier (name : Identifier) :
    ReadsLevel fuel self 11 name.chars (.identifier nowhere name.chars) := by
  have hname := name.isIdentifier
  refine readsLevel_token (by decide) (.ofIdentifier hname) (fun t ht => ?_) fun t ht _ => ?_
  · exact hname.unaryOperator? ht
  · exact hname.reads_primary ht fun start => Phrase.identifier_means start _

/-- A nested text in parentheses is as tight as a name. -/
theorem ReadsInside.group (h : ReadsInside self w e) :
    ReadsLevel fuel self 11 ('(' :: (w ++ [')'])) e := by
  refine .suffixed (by decide) (fun t _ => ?_) fun t _ _ => Reads.leads ?_
  · have hword : wordStart ('(' :: (w ++ [')']) ++ t) = [] := rfl
    exact unaryOperator?_eq_none (by decide) hword (by decide)
  · have hinner := h.reads_closer (c := ')') (by decide) t
    -- the reader skips what follows the opening parenthesis, which is nothing
    rw [← h.starts.skip_append] at hinner
    refine reads_group hinner fun start inner hp => (hp.group start).mono ?_
    simp only [List.length_cons, List.length_append, List.length_nil]
    omega

/-! ## Operators -/

variable (fuel self) in
/-- A text is read as an operand where the level is required. -/
def ReadsOperand (required : Nat) (w : Text) (e : Expression) : Prop :=
  Starts w ∧ ∃ level, required ≤ level ∧ ReadsLevel fuel self level w e

/-- With the parentheses that its level requires, a text is an operand. -/
theorem ReadsLevel.enclose {required : Nat} (h : ReadsLevel fuel self level w e) (hw : Starts w)
    (hrequired : required ≤ 11) (hinside : level < required → ReadsInside self w e) :
    ReadsOperand fuel self required (enclose required level w) e := by
  refine ⟨hw.enclose, ?_⟩
  unfold Script.enclose
  split
  · next hlevel => exact ⟨11, hrequired, (hinside hlevel).group⟩
  · next hlevel => exact ⟨level, Nat.le_of_not_lt hlevel, h⟩

/-- The left operand leads to the operator, because a chain may go on behind it; the right operand ends
    the chain of its own level. -/
theorem ReadsOperand.binary (operator : BinaryOperator)
    (hleft : ReadsOperand fuel self operator.level w e)
    (hright : ReadsOperand fuel self (operator.level + 1) v f)
    (hfuel : (w ++ ' ' :: (operator.sign ++ ' ' :: v)).length ≤ fuel) :
    ReadsLevel fuel self operator.level (w ++ ' ' :: (operator.sign ++ ' ' :: v))
      (.binary nowhere operator e f) := by
  obtain ⟨-, leftLevel, hleftLevel, hleft⟩ := hleft
  obtain ⟨hstarts, rightLevel, hrightLevel, hright⟩ := hright
  have hmem := level_mem operator
  have hbounds : operator.level + 1 ≤ 9 := by cases operator <;> decide
  have hlow : (3 : Nat) ≤ operator.level := by cases operator <;> decide
  simp only [List.length_append, List.length_cons] at hfuel
  refine .binary hmem fun t ht => ?_
  have htext : ' ' :: (operator.sign ++ ' ' :: v) ++ t
      = ' ' :: (operator.sign ++ ' ' :: (v ++ t)) := by simp
  have hoperand := hright.reads (by omega) (by omega) (Nat.succ_pos _) hrightLevel hbounds ht
  rw [← hstarts.skip_append] at hoperand
  have hchain := hleft.leads (by omega) hmem hleftLevel (endsAt_binary operator (v ++ t))
  rw [← htext] at hchain
  apply hchain.append (by simp)
  intro p hp
  -- one link of the chain: the operator with its right operand
  rw [htext, skip_binary]
  refine reads_operator operator hoperand fun start q hq => (hp.binary hq start operator).mono ?_
  simp only [List.length_append, List.length_cons]
  omega

/-- Both branches of a choice are whole phrases: the first one ends at the colon, and the second one
    where the choice ends. -/
theorem ReadsOperand.conditional (htest : ReadsOperand fuel self 3 w e)
    (hyes : ReadsInside self v f) (hno : ReadsInside self u g) (hfuel : w.length ≤ fuel) :
    ReadsLevel fuel self 2 (w ++ ' ' :: '?' :: ' ' :: (v ++ ' ' :: ':' :: ' ' :: u))
      (.conditional nowhere e f g) := by
  obtain ⟨-, level, hlevel, htest⟩ := htest
  refine .whole (by decide) fun t ht => ?_
  have hcolon : ':' ∈ closers := by decide
  have hcondition := htest.reads (l := 3) hfuel hlevel (by omega) hlevel (by omega)
    (endsAt_choice (' ' :: (v ++ ' ' :: ':' :: ' ' :: (u ++ t))))
  have hfirst := hyes.reads _ (endsPhrase_space hcolon (' ' :: (u ++ t))).endsAt
  have hsecond := hno.reads t ht
  -- behind both signs one space is skipped
  rw [skip_space, skip_cons_of_token rfl (by decide)] at hcondition hfirst
  rw [← hyes.starts.skip_append, ← skip_space] at hfirst
  rw [← hno.starts.skip_append, ← skip_space] at hsecond
  have htext : w ++ ' ' :: '?' :: ' ' :: (v ++ ' ' :: ':' :: ' ' :: u) ++ t
      = w ++ ' ' :: '?' :: ' ' :: (v ++ ' ' :: ':' :: ' ' :: (u ++ t)) := by simp
  rw [htext]
  refine Reads.assignment ?_ (ht.assignment (Nat.le_refl 1))
  refine Reads.choice hcondition hfirst hsecond fun p q r hp hq hr => ?_
  have hmeans := (hp.mono (Nat.le_max_left _ (max (12 * v.length) (12 * u.length)))).conditional
    (hq.mono (by omega)) (hr.mono (by omega))
  refine hmeans.mono ?_
  simp only [List.length_append, List.length_cons]
  omega

/-- An assignment is read to its end, whatever its value is, because its value is a whole phrase. -/
theorem ReadsOperand.assign (operator : AssignmentOperator)
    (htarget : ReadsOperand fuel self 3 w e) (he : e.isTarget = true)
    (hvalue : ReadsInside self v f) (hfuel : w.length ≤ fuel) :
    ReadsLevel fuel self 1 (w ++ ' ' :: (operator.sign ++ ' ' :: v))
      (.assign nowhere operator e f) := by
  obtain ⟨-, level, hlevel, htarget⟩ := htarget
  refine .whole (by decide) fun t ht => ?_
  -- the target is read on the level of choices, where an assignment looks for it
  have hleft := htarget.reads (l := 2) hfuel hlevel (by omega) (by omega) (by omega)
    (endsAt_assignment operator (v ++ t))
  have hright := hvalue.reads t ht
  rw [skip_assignment] at hleft
  rw [← hvalue.starts.skip_append] at hright
  have htext : w ++ ' ' :: (operator.sign ++ ' ' :: v) ++ t
      = w ++ ' ' :: (operator.sign ++ ' ' :: (v ++ t)) := by simp
  rw [htext]
  refine Reads.assign operator hleft hright fun p q hp hq => ?_
  have hmeans := (hp.mono (Nat.le_max_left _ (12 * v.length))).assign he
    (hq.mono (Nat.le_max_right _ _)) operator
  refine hmeans.mono ?_
  simp only [List.length_append, List.length_cons]
  omega

/-- A sign or word of a unary operator, with the gap behind it. -/
theorem reads_unaryOperator (operator : UnaryOperator) (spaced : Bool) (hw : Starts w) (t : Text) :
    Reads operatorBefore (operator.sign ++ (unaryGap operator spaced ++ w) ++ t)
      (fun found => found.2 = operator) (w ++ t) := by
  have hskip : skip (unaryGap operator spaced ++ w ++ t) = w ++ t := by
    unfold unaryGap
    cases operator <;> cases spaced <;> simp [hw.skip_append]
  have hscan : Token.unaryOperator? (operator.sign ++ (unaryGap operator spaced ++ w ++ t))
      = some (operator, operator.sign.length) := by
    -- only `!` looks at what follows, and no operand begins with `=`
    obtain ⟨c, r, rfl, -, hsign⟩ := hw.head
    have hequals : c ≠ '=' := fun h => hsign (by simp [h])
    cases operator with
    | not => cases spaced <;> simp [UnaryOperator.sign, text, unaryGap, Token.unaryOperator?, hequals]
    | negate | plus | typeOf | await => rfl
  have htoken := reads_token hscan
  rw [hskip] at htoken
  rw [List.append_assoc, List.append_assoc]
  rw [List.append_assoc] at htoken
  refine (Reads.bind (reads_place fun _ => trivial) fun start _ => ?_).part
  refine htoken.bind ?_
  rintro _ rfl
  exact reads_pure rfl

/-- The operators of an operand are read in one loop, and one more stands before them. -/
theorem ReadsOperand.unary (operator : UnaryOperator) (spaced : Bool)
    (h : ReadsOperand fuel self 9 w e) (hfuel : w.length ≤ fuel) :
    ReadsLevel fuel self 9 (operator.sign ++ (unaryGap operator spaced ++ w))
      (.unary nowhere operator e) := by
  obtain ⟨hw, level, hlevel, h⟩ := h
  obtain ⟨operators, core, Q, hcount, hreads, hmeans⟩ := h.readsPrefixed hfuel hlevel
  have hsign : 0 < operator.sign.length := by cases operator <;> decide
  -- one operator more in front, the core stays
  refine .unary ⟨operator :: operators, core, Q, ?_, fun t ht => ⟨?_, (hreads t ht).2⟩, ?_⟩
  · simp only [List.length_append, List.length_cons]
    omega
  · exact .cons (reads_unaryOperator operator spaced hw t) (hreads t ht).1
  · intro found p hfound hp
    cases hfound with
    | cons hfirst hothers =>
      obtain rfl := hfirst
      refine ((hmeans _ p hothers hp).unary _ _).mono ?_
      simp only [List.length_append]
      omega

/-! ## Lists -/

section

variable {items : List Tree}

/-- Nested trees are items of a list, with the room that the longest of them needs. -/
theorem readsItems (hitems : ∀ e ∈ items, ReadsInside self e.source e.expression) :
    ∀ e ∈ items,
      ReadsItem self (fun (e : Tree) p => p.Means (12 * (Tree.list items).length) e.expression)
        e.source e := by
  intro e he
  have hlength : e.source.length ≤ (Tree.list items).length := Tree.length_le_list he
  refine ⟨(hitems e he).starts.skip_append, fun c hc t => ?_⟩
  exact ((hitems e he).reads_closer hc t).mono fun p hp => hp.mono (by omega)

theorem forall₂_expressions {room : Nat} {ps : List Phrase}
    (h : List.Forall₂ (fun (e : Tree) p => p.Means room e.expression) items ps) :
    List.Forall₂ (fun e p => Phrase.Means room p e) (Tree.expressions items) ps := by
  rw [Tree.expressions_eq_map]
  exact List.forall₂_map_left_iff.2 h

theorem reads_arguments (hitems : ∀ e ∈ items, ReadsInside self e.source e.expression)
    (hempty : ∀ t, Fails self (')' :: t)) (hfuel : items.length ≤ fuel) (t : Text) :
    Reads (callArguments fuel self) ('(' :: (Tree.list items ++ ')' :: t))
      (List.Forall₂ (fun e p => Phrase.Means (12 * (Tree.list items).length) p e)
        (Tree.expressions items))
      (skip t) := by
  have h := reads_parenthesized Tree.source (readsItems hitems) hempty hfuel t
  rw [← Tree.sources_eq_map] at h
  exact h.part.mono fun ps hps => forall₂_expressions hps

theorem reads_arrayLiteral (hitems : ∀ e ∈ items, ReadsInside self e.source e.expression)
    (hempty : ∀ t, Fails self (']' :: t)) (hfuel : items.length ≤ fuel) (t : Text) :
    Reads (arrayLiteral fuel self) ('[' :: (Tree.list items ++ ']' :: t))
      (fun p => p.Means (12 * (Tree.list items).length + 12)
        (.array nowhere (Tree.expressions items)))
      (skip t) := by
  have hread := readsItems hitems
  have hclose := reads_sign ']' t
  have hcloser : ']' ∈ closers := by decide
  refine (Reads.bind (reads_place fun _ => trivial) fun start _ => ?_).part
  refine (reads_sign '[' _).bind fun _ _ => ?_
  -- the room is the same for every item, whatever the list is
  generalize 12 * (Tree.list items).length = room at hread ⊢
  cases items with
  | nil =>
    show Reads _ (skip (']' :: t)) _ _
    rw [skip_closer hcloser]
    refine (hempty t).bind.bind.optional.bind ?_
    rintro _ rfl
    exact hclose.bind fun _ _ => reads_pure (Phrase.Means.array .nil start)
  | cons e es =>
    have hcount : es.length ≤ fuel := by
      rw [List.length_cons] at hfuel
      omega
    have hlist := reads_commaList Tree.source hcloser (by decide) hread hcount t
    have hskip : skip (Tree.list (e :: es) ++ ']' :: t) = Tree.list (e :: es) ++ ']' :: t := by
      rw [Tree.list, Tree.sources, Text.join_cons, List.append_assoc]
      exact (hitems e (by simp)).starts.skip_append _
    rw [← Tree.sources_eq_map] at hlist
    rw [hskip]
    -- a comma may stand behind the last item, and none does
    have hcomma : Fails (sign ',') (']' :: t) := fails_sign (by simp)
    have hfound := hlist.bind fun ps hps => (hcomma.optional.bind fun _ _ =>
      (reads_pure hps : Reads (pure ps) _ _ _))
    refine hfound.optional.bind ?_
    rintro _ ⟨ps, rfl, hps⟩
    exact hclose.bind fun _ _ => reads_pure (Phrase.Means.array (forall₂_expressions hps) start)

theorem readsLevel_array (hitems : ∀ e ∈ items, ReadsInside self e.source e.expression)
    (hempty : ∀ t, Fails self (']' :: t)) (hfuel : items.length ≤ fuel) :
    ReadsLevel fuel self 11 ('[' :: (Tree.list items ++ [']']))
      (.array nowhere (Tree.expressions items)) := by
  have htext (t : Text) : '[' :: (Tree.list items ++ [']']) ++ t
      = '[' :: (Tree.list items ++ ']' :: t) := by simp
  have hword (t : Text) : wordStart ('[' :: t) = [] := rfl
  refine .suffixed (by decide) (fun t _ => ?_) fun t _ _ => Reads.leads ?_
  · exact unaryOperator?_eq_none (by decide) (hword _) (by decide)
  · rw [htext]
    refine Reads.oneOf ?_ [_, _, _, _, _] (fails_literals rfl (by decide) (hword _) 5 (by decide))
    refine (reads_arrayLiteral hitems hempty hfuel t).mono fun p hp => hp.mono ?_
    simp only [List.length_cons, List.length_append, List.length_nil]
    omega

theorem reads_construction (name : Identifier)
    (hitems : ∀ e ∈ items, ReadsInside self e.source e.expression)
    (hempty : ∀ t, Fails self (')' :: t)) (hfuel : items.length ≤ fuel) (t : Text) :
    Reads (construction fuel self)
      (text "new" ++ ' ' :: (name.chars ++ '(' :: (Tree.list items ++ ')' :: t)))
      (fun p => p.Means (12 * (Tree.list items).length + 12)
        (.construct nowhere name.chars (Tree.expressions items)))
      (skip t) := by
  have hname := name.isIdentifier
  have hends : EndsWord ('(' :: (Tree.list items ++ ')' :: t)) := endsWord_cons rfl _
  have hword (t : Text) : wordStart (text "new" ++ ' ' :: t) = text "new" :=
    wordStart_keyword (by decide) rfl t
  have hkeyword := reads_word (hword (name.chars ++ '(' :: (Tree.list items ++ ')' :: t)))
  have hidentifier := reads_token (identifier?_eq_some hname hends)
  have harguments := reads_arguments hitems hempty hfuel t
  -- one space is skipped behind the keyword, and none behind the name
  rw [skip_space, hname.skip_append] at hkeyword
  rw [skip_cons_of_token rfl (by decide)] at hidentifier
  refine (Reads.bind (reads_place fun _ => trivial) fun start _ => ?_).part
  refine hkeyword.part.bind fun _ _ => ?_
  refine hidentifier.part.bind ?_
  rintro _ rfl
  refine harguments.optional.bind ?_
  rintro _ ⟨ps, rfl, hps⟩
  exact reads_pure (Phrase.Means.construct hps start name.chars)

theorem readsLevel_construct (name : Identifier)
    (hitems : ∀ e ∈ items, ReadsInside self e.source e.expression)
    (hempty : ∀ t, Fails self (')' :: t)) (hfuel : items.length ≤ fuel) :
    ReadsLevel fuel self 11 (text "new " ++ (name.chars ++ '(' :: (Tree.list items ++ [')'])))
      (.construct nowhere name.chars (Tree.expressions items)) := by
  have htext (t : Text) : text "new " ++ (name.chars ++ '(' :: (Tree.list items ++ [')'])) ++ t
      = text "new" ++ ' ' :: (name.chars ++ '(' :: (Tree.list items ++ ')' :: t)) := by simp [text]
  have hword (t : Text) : wordStart (text "new" ++ ' ' :: t) = text "new" :=
    wordStart_keyword (by decide) rfl t
  refine .suffixed (by decide) (fun t _ => ?_) fun t _ _ => Reads.leads ?_
  · rw [htext]
    exact unaryOperator?_eq_none (by decide) (hword _) (by decide)
  · rw [htext]
    refine Reads.oneOf ?_ [_, _, _, _, _, _] fun r hr => ?_
    · refine (reads_construction name hitems hempty hfuel t).mono fun p hp => hp.mono ?_
      simp only [List.length_append, List.length_cons]
      omega
    · -- neither a literal nor an array begins with the keyword
      rcases List.mem_append.1 (show r ∈ [_, _, _, _, _] ++ [_] from hr) with hr | hr
      · exact fails_literals rfl (by decide) (hword _) 5 (by decide) r hr
      · rw [List.mem_singleton] at hr
        subst hr
        have hsign : Fails (sign '[') (text "new" ++ ' ' ::
            (name.chars ++ '(' :: (Tree.list items ++ ')' :: t))) := fails_sign (by simp [text])
        exact ((reads_place fun _ => trivial).bind_fails fun _ _ => hsign.bind).part

end

/-! ## Suffixes -/

/-- A suffix makes a longer phrase of what has no operator. -/
theorem ReadsOperand.suffix {required : Nat} (h : ReadsOperand fuel self required w e) {c : Char}
    (hc : c ∈ ['(', '[', '.']) (hrequired : 10 ≤ required) (hpoint : c = '.' → required = 11)
    (hstep : ∀ t p, EndsWord t → p.Means (12 * w.length) e →
      Reads (Grammar.suffix fuel self p) (c :: (v ++ t))
        (fun p => p.Means (12 * (w ++ c :: v).length) f) (skip t)) :
    ReadsLevel fuel self 11 (w ++ c :: v) f := by
  obtain ⟨-, level, hlevel, h⟩ := h
  have hten : 10 ≤ level := Nat.le_trans hrequired hlevel
  have hchar : Text.isIdentifierChar c = false := by fin_cases hc <;> rfl
  have hgap : isGap c = false ∧ c ≠ '/' := by fin_cases hc <;> decide
  have hskip (t : Text) : skip (c :: v ++ t) = c :: (v ++ t) :=
    skip_cons_of_token hgap.1 hgap.2 (v ++ t)
  refine .suffixed (by decide) (fun t _ => ?_) fun t ht _ => ?_
  · rw [List.append_assoc]
    exact h.unaryOperator? hten (endsWord_cons hchar _)
  · have hleads := h.leads_suffixes hten (t := c :: v ++ t) (endsWord_cons hchar _) ?_
    · apply hleads.append (List.cons_ne_nil _ _)
      intro p hp
      rw [hskip]
      exact hstep t p ht hp
    · -- before a point stands what is no number
      intro hnumber hhead
      have hatom := hpoint (by simpa using hhead)
      omega

/-- Arguments make a call of what stands before them. -/
theorem ReadsOperand.call {items : List Tree} (h : ReadsOperand fuel self 10 w e)
    (hitems : ∀ e ∈ items, ReadsInside self e.source e.expression)
    (hempty : ∀ t, Fails self (')' :: t)) (hfuel : items.length ≤ fuel) :
    ReadsLevel fuel self 11 (w ++ '(' :: (Tree.list items ++ [')']))
      (.call nowhere e (Tree.expressions items)) := by
  refine h.suffix (by decide) (Nat.le_refl 10) (by decide) fun t p _ hp => ?_
  rw [List.append_assoc, List.singleton_append]
  refine Reads.bind (reads_place fun _ => trivial) fun start _ => Reads.oneOf ?_ [] (by simp)
  refine (reads_arguments hitems hempty hfuel t).bind fun ps hps => reads_pure ?_
  have hcallee := hp.mono (Nat.le_max_left _ (12 * (Tree.list items).length))
  refine (hcallee.call (hps.imp fun _ _ hq => hq.mono (Nat.le_max_right _ _)) start).mono ?_
  simp only [List.length_append, List.length_cons]
  omega

/-- A key in brackets is a whole phrase. -/
theorem ReadsOperand.index (h : ReadsOperand fuel self 10 w e) (hkey : ReadsInside self v f) :
    ReadsLevel fuel self 11 (w ++ '[' :: (v ++ [']'])) (.index nowhere e f) := by
  refine h.suffix (by decide) (Nat.le_refl 10) (by decide) fun t p _ hp => ?_
  rw [List.append_assoc, List.singleton_append]
  have hinside := hkey.reads_closer (c := ']') (by decide) t
  rw [← hkey.starts.skip_append] at hinside
  refine Reads.bind (reads_place fun _ => trivial) fun start _ => Reads.oneOf ?_ [_] fun r hr => ?_
  · refine ((reads_sign '[' _).bind fun _ _ => ?_).part
    refine hinside.bind fun q hq => ?_
    refine (reads_sign ']' t).bind fun _ _ => reads_pure ?_
    refine ((hp.mono (Nat.le_max_left _ (12 * v.length))).index (hq.mono (Nat.le_max_right _ _))
      start).mono ?_
    simp only [List.length_append, List.length_cons]
    omega
  -- a call does not begin with a bracket
  · rw [List.mem_singleton] at hr
    subst hr
    exact (fails_sign (by simp)).bind.part.bind

/-- The name behind a point may be a keyword. -/
theorem ReadsOperand.member (h : ReadsOperand fuel self 11 w e) (name : MemberName) :
    ReadsLevel fuel self 11 (w ++ '.' :: name.chars) (.member nowhere e name.chars) := by
  refine h.suffix (by decide) (by decide) (fun _ => rfl) fun t p ht hp => ?_
  have hname := reads_token (name?_eq_some name.start name.isWord ht)
  have hskip : skip (name.chars ++ t) = name.chars ++ t := by
    obtain ⟨c, r, hcons, -⟩ := name.start
    have hchar := name.isWord c (by simp [hcons])
    rw [hcons]
    exact skip_cons_of_isIdentifierChar hchar (r ++ t)
  have hpoint := reads_sign '.' (name.chars ++ t)
  rw [hskip] at hpoint
  refine Reads.bind (reads_place fun _ => trivial) fun start _ => Reads.oneOf ?_ [_, _] fun r hr => ?_
  · refine (hpoint.bind fun _ _ => ?_).part
    refine Reads.bind (reads_place fun _ => trivial) fun namePlace _ => ?_
    refine hname.part.bind ?_
    rintro _ rfl
    refine reads_pure ((hp.member start namePlace name.chars).mono ?_)
    simp only [List.length_append, List.length_cons]
    omega
  -- neither a call nor an index begins with a point
  · fin_cases hr
    · exact (fails_sign (by simp)).bind.part.bind
    · exact (fails_sign (by simp)).bind.part

/-! ## Trees -/

namespace Tree

/-- What can be assigned to has no operator. -/
theorem level_of_isTarget : ∀ e : Tree, e.expression.isTarget = true → e.level = Level.atom
  | identifier _, _ | index _ _, _ | member _ _, _ | group _, _ => rfl

variable {n : Nat}

/-- An operand that is shorter than what it stands in. -/
theorem readsOperand (required : Nat) {e : Tree}
    (hself : e.source.length < n → ReadsInside self e.source e.expression)
    (hlength : (Script.enclose required e.level e.source).length < n) (hrequired : required ≤ 11)
    (h : e.source.length ≤ n → ReadsLevel fuel self e.level e.source e.expression) :
    ReadsOperand fuel self required (Script.enclose required e.level e.source) e.expression := by
  have hshorter := length_le_enclose required e.level e.source
  exact (h (by omega)).enclose e.starts hrequired fun _ => hself (by omega)

/-- The trees of a list that is shorter than what it stands in. -/
theorem readsInside_list {items : List Tree}
    (hself : ∀ e : Tree, e.expression.IsSound → e.source.length < n →
      ReadsInside self e.source e.expression)
    (hsound : ∀ e ∈ expressions items, e.IsSound)
    (hlength : (Text.join (text ", ") (sources items)).length < n) :
    ∀ e ∈ items, ReadsInside self e.source e.expression := by
  intro e he
  have hshorter := length_le_list he
  rw [expressions_eq_map] at hsound
  exact hself e (hsound _ (List.mem_map_of_mem he)) (by omega)

/-- If shorter texts are read where they are nested, the text of a tree is read at its level. -/
theorem readsLevel (hself : ∀ e : Tree, e.expression.IsSound → e.source.length < n →
      ReadsInside self e.source e.expression)
    (hempty : ∀ c ∈ closers, ∀ t, Fails self (c :: t)) (hfuel : n ≤ fuel) :
    ∀ e : Tree, e.expression.IsSound → e.source.length ≤ n →
      ReadsLevel fuel self e.level e.source e.expression
  | number l, _, _ => readsLevel_number l
  | string value, _, _ => readsLevel_string value
  | bool true, _, _ =>
    readsLevel_word (by decide) 2 rfl rfl (by decide) fun start => Phrase.bool_means start true
  | bool false, _, _ =>
    readsLevel_word (by decide) 2 rfl rfl (by decide) fun start => Phrase.bool_means start false
  | null, _, _ => readsLevel_word (by decide) 3 rfl rfl (by decide) fun start => Phrase.null_means start
  | undefined, _, _ =>
    readsLevel_word (by decide) 4 rfl rfl (by decide) fun start => Phrase.undefined_means start
  | identifier name, _, _ => readsLevel_identifier name
  | array items, hsound, hlength => by
    rw [source] at hlength ⊢
    simp only [List.length_cons, List.length_append] at hlength
    cases hsound with
    | array hitems =>
      have hcount := count_le_list items
      have hinside := readsInside_list hself hitems (by omega)
      exact readsLevel_array hinside (hempty ']' (by decide)) (by omega)
  | construct name items, hsound, hlength => by
    rw [source] at hlength ⊢
    simp only [List.length_cons, List.length_append] at hlength
    cases hsound with
    | construct hitems =>
      have hcount := count_le_list items
      have hinside := readsInside_list hself hitems (by omega)
      exact readsLevel_construct name hinside (hempty ')' (by decide)) (by omega)
  | group inner, hsound, hlength => by
    rw [source] at hlength ⊢
    simp only [List.length_cons, List.length_append] at hlength
    exact (hself inner hsound (by omega)).group
  | unary operator spaced operand, hsound, hlength => by
    rw [source] at hlength ⊢
    have hsign : 0 < operator.sign.length := by cases operator <;> decide
    simp only [List.length_append] at hlength
    cases hsound with
    | unary hoperand =>
      have h := readsOperand Level.unary (hself operand hoperand) (by omega) (by decide)
        (readsLevel hself hempty hfuel operand hoperand)
      exact h.unary operator spaced (by omega)
  | binary operator left right, hsound, hlength => by
    rw [source] at hlength ⊢
    have hwhole := Nat.le_trans hlength hfuel
    have hlevel : operator.level + 1 ≤ 11 := by cases operator <;> decide
    simp only [List.length_cons, List.length_append] at hlength
    cases hsound with
    | binary hleft hright =>
      have hl := readsOperand operator.level (hself left hleft) (by omega) (Nat.le_of_succ_le hlevel)
        (readsLevel hself hempty hfuel left hleft)
      have hr := readsOperand (operator.level + 1) (hself right hright) (by omega) hlevel
        (readsLevel hself hempty hfuel right hright)
      exact hl.binary operator hr hwhole
  | conditional test yes no, hsound, hlength => by
    rw [source] at hlength ⊢
    simp only [List.length_cons, List.length_append] at hlength
    cases hsound with
    | conditional htest hyes hno =>
      have h := readsOperand (Level.conditional + 1) (hself test htest) (by omega) (by decide)
        (readsLevel hself hempty hfuel test htest)
      exact h.conditional (hself yes hyes (by omega)) (hself no hno (by omega)) (by omega)
  | assign operator target value, hsound, hlength => by
    rw [source] at hlength ⊢
    simp only [List.length_cons, List.length_append] at hlength
    cases hsound with
    | assign htarget hisTarget hvalue =>
      have hlevel := target.level_of_isTarget hisTarget
      -- a target is never in parentheses, so it is an operand of the next level as well
      have hbare : Script.enclose (Level.conditional + 1) target.level target.source
          = Script.enclose .conditional target.level target.source := by
        rw [hlevel]
        rfl
      rw [← hbare] at hlength ⊢
      have h := readsOperand (Level.conditional + 1) (hself target htarget) (by omega) (by decide)
        (readsLevel hself hempty hfuel target htarget)
      exact h.assign operator hisTarget (hself value hvalue (by omega)) (by omega)
  | call callee items, hsound, hlength => by
    rw [source] at hlength ⊢
    simp only [List.length_cons, List.length_append] at hlength
    cases hsound with
    | call hcallee hitems =>
      have hcount := count_le_list items
      have hinside := readsInside_list hself hitems (by omega)
      have h := readsOperand Level.suffixed (hself callee hcallee) (by omega) (by decide)
        (readsLevel hself hempty hfuel callee hcallee)
      exact h.call hinside (hempty ')' (by decide)) (by omega)
  | index object key, hsound, hlength => by
    rw [source] at hlength ⊢
    simp only [List.length_cons, List.length_append] at hlength
    cases hsound with
    | index hobject hkey =>
      have h := readsOperand Level.suffixed (hself object hobject) (by omega) (by decide)
        (readsLevel hself hempty hfuel object hobject)
      exact h.index (hself key hkey (by omega))
  | member object name, hsound, hlength => by
    rw [source] at hlength ⊢
    simp only [List.length_cons, List.length_append] at hlength
    cases hsound with
    | member hobject =>
      have h := readsOperand Level.atom (hself object hobject) (by omega) (by decide)
        (readsLevel hself hempty hfuel object hobject)
      exact h.member name

end Tree

end

end Pseudocode.Script
