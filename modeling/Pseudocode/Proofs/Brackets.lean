import Pseudocode.Proofs.Respelling

/-!
# Literals and brackets

A text is balanced if each of its string literals has a closing quote and the brackets outside the literals are
a word of the grammar `B ::= empty | ( B ) B | [ B ] B`. The scan that decides this reads tokens; here the text
is taken apart character by character, by relations that know nothing of tokens, stacks or the scan.

* `IsInside`, `Closes`          the inside of a literal, and whether a literal ends
* `HasBrackets`                 the brackets outside the literals of a text
* `Nests`, `LeavesOpen`         words of brackets that nest, and words that leave brackets open
* `FirstFault`                  what keeps a text from being balanced
* `HasBrackets.scan`            the scan sees of a text its brackets only
* `complaint?_eq_iff`           the scan accepts the balanced texts and names the first fault of the others
-/

namespace Pseudocode.Expression

/-! ## Texts -/

/-- The inside of a string literal: it holds no closing quote, and a backslash in it takes the next character
    with it. -/
inductive IsInside (quote : Char) : Text → Prop where
  | nil : IsInside quote []
  | escape {t : Text} (c : Char) (rest : IsInside quote t) : IsInside quote ('\\' :: c :: t)
  | plain {c : Char} {t : Text} (hescape : c ≠ '\\') (hquote : c ≠ quote) (rest : IsInside quote t) :
      IsInside quote (c :: t)

/-- The literal that a quote opens in front of `t` has its closing quote. -/
def Closes (quote : Char) (t : Text) : Prop := ∃ body r, IsInside quote body ∧ t = body ++ quote :: r

/-- The characters that open and close groups. -/
def bracketChars : List Char := ['(', ')', '[', ']']

/-- `HasBrackets t bs`: every literal of the text ends in it, and the brackets outside its literals are `bs`. -/
inductive HasBrackets : Text → Text → Prop where
  | nil : HasBrackets [] []
  | literal {quote : Char} {body t bs : Text} (hquote : isQuote quote = true) (hbody : IsInside quote body)
      (rest : HasBrackets t bs) : HasBrackets (quote :: (body ++ quote :: t)) bs
  | bracket {c : Char} {t bs : Text} (hbracket : c ∈ bracketChars) (rest : HasBrackets t bs) :
      HasBrackets (c :: t) (c :: bs)
  | other {c : Char} {t bs : Text} (hquote : isQuote c = false) (hbracket : c ∉ bracketChars)
      (rest : HasBrackets t bs) : HasBrackets (c :: t) bs

/-- The words of the grammar `B ::= empty | ( B ) B | [ B ] B`. -/
inductive Nests : Text → Prop where
  | nil : Nests []
  | round {b b' : Text} (inner : Nests b) (rest : Nests b') : Nests ('(' :: (b ++ ')' :: b'))
  | square {b b' : Text} (inner : Nests b) (rest : Nests b') : Nests ('[' :: (b ++ ']' :: b'))

/-- `LeavesOpen bs stack`: at the end of the word `bs` the brackets `stack` are open, innermost first, and what
    stands before and behind each of them nests. -/
inductive LeavesOpen : Text → Text → Prop where
  | nests {b : Text} (h : Nests b) : LeavesOpen b []
  | opens {bs b stack : Text} {c : Char} (hopening : isOpening c = true) (h : LeavesOpen bs stack)
      (hb : Nests b) : LeavesOpen (bs ++ c :: b) (c :: stack)

/-- `FirstFault t message`: the first thing in the text, from the left, that keeps it from being balanced, with
    the words for it. -/
inductive FirstFault : Text → Text → Prop where
  /-- A literal that does not end. -/
  | unterminated {s r bs stack : Text} {quote : Char} (hs : HasBrackets s bs) (hopen : LeavesOpen bs stack)
      (hquote : isQuote quote = true) (hends : ¬ Closes quote r) :
      FirstFault (s ++ quote :: r) (text "unterminated string literal")
  /-- A closing bracket that does not match the innermost open one, or where none is open. -/
  | unmatched {s r bs stack : Text} {c opening : Char} (hs : HasBrackets s bs) (hopen : LeavesOpen bs stack)
      (hclosing : openingOf? c = some opening) (htop : stack.head? ≠ some opening) :
      FirstFault (s ++ c :: r) (text "unbalanced '" ++ [c, '\''])
  /-- The innermost of the brackets that are open at the end. -/
  | unclosed {t bs stack : Text} {c : Char} (ht : HasBrackets t bs) (hopen : LeavesOpen bs (c :: stack)) :
      FirstFault t (text "unclosed '" ++ [c, '\''])

/-- What is said about a text that is not balanced. -/
def complaint? (t : Text) : Option Text := (imbalance? t).map Imbalance.message

variable {s t bs bs' b stack : Text} {c quote opening : Char}

/-! ## Literals -/

/-- The closing quote is the first one behind the inside of a literal. -/
theorem splitLiteral_of_isInside (hquote : quote ≠ '\\') (hbody : IsInside quote b) (t : Text) :
    splitLiteral quote (b ++ quote :: t) = (b ++ [quote], t, true) := by
  induction hbody with
  | nil => exact splitLiteral_quote hquote t
  | escape c _ ih =>
    show splitLiteral quote ('\\' :: c :: (_ ++ quote :: t)) = _
    rw [splitLiteral, ih]
    rfl
  | plain hescape hne _ ih =>
    rw [List.cons_append, splitLiteral_cons hescape hne, ih]
    rfl

theorem exists_isInside (h : (splitLiteral quote t).2.2 = true) :
    ∃ body, IsInside quote body ∧ (splitLiteral quote t).1 = body ++ [quote] := by
  fun_induction splitLiteral quote t with
  | case1 => cases h
  | case2 => cases h
  | case3 c r body rest closed hread ih =>
    rw [hread] at ih
    obtain ⟨b, hb, rfl⟩ := ih h
    exact ⟨'\\' :: c :: b, .escape c hb, rfl⟩
  | case4 r => exact ⟨[], .nil, rfl⟩
  | case5 c r hlone hpair hquote body rest closed hread ih =>
    -- the branches before leave no backslash here
    have hescape : c ≠ '\\' := by
      intro hc
      cases r with
      | nil => exact hlone hc rfl
      | cons d r => exact hpair d r hc rfl
    rw [hread] at ih
    obtain ⟨b, hb, rfl⟩ := ih h
    exact ⟨c :: b, .plain hescape hquote hb, rfl⟩

/-- The literal is read to its closing quote if it has one. -/
theorem closes_iff (hquote : quote ≠ '\\') : Closes quote t ↔ (splitLiteral quote t).2.2 = true := by
  constructor
  · rintro ⟨body, r, hbody, rfl⟩
    rw [splitLiteral_of_isInside hquote hbody]
  · intro h
    obtain ⟨body, hbody, hread⟩ := exists_isInside h
    have ht := splitLiteral_append quote t
    rw [hread, List.append_assoc] at ht
    exact ⟨body, _, hbody, ht.symm⟩

/-- A text goes on behind a literal in one way. -/
theorem IsInside.unique {b' r r' : Text} (hquote : quote ≠ '\\') (hb : IsInside quote b)
    (hb' : IsInside quote b') (h : b ++ quote :: r = b' ++ quote :: r') : b = b' ∧ r = r' := by
  have hread := splitLiteral_of_isInside hquote hb r
  rw [h, splitLiteral_of_isInside hquote hb' r'] at hread
  simp only [Prod.mk.injEq, List.append_cancel_right_eq, and_true] at hread
  exact ⟨hread.1.symm, hread.2.symm⟩

/-! ## Words of brackets -/

theorem Nests.append (h : Nests b) (h' : Nests bs) : Nests (b ++ bs) := by
  induction h with
  | nil => exact h'
  | round inner _ _ ih =>
    rw [List.cons_append, List.append_assoc]
    exact .round inner ih
  | square inner _ _ ih =>
    rw [List.cons_append, List.append_assoc]
    exact .square inner ih

/-- A group in brackets of either kind. -/
theorem Nests.group (hclosing : openingOf? c = some opening) (inner : Nests b) :
    Nests (opening :: (b ++ [c])) := by
  simp only [openingOf?] at hclosing
  split at hclosing
  · next hc =>
    obtain rfl := Option.some.inj hclosing
    rw [hc]
    exact .round inner .nil
  · split at hclosing
    · next hc =>
      obtain rfl := Option.some.inj hclosing
      rw [hc]
      exact .square inner .nil
    · cases hclosing

theorem LeavesOpen.append (h : LeavesOpen bs stack) (hb : Nests b) : LeavesOpen (bs ++ b) stack := by
  cases h with
  | nests h => exact .nests (h.append hb)
  | opens hopening h hbehind =>
    rw [List.append_assoc, List.cons_append]
    exact .opens hopening h (hbehind.append hb)

/-- The bracket that matches the innermost open one closes it. -/
theorem LeavesOpen.closes (h : LeavesOpen bs (opening :: stack)) (hclosing : openingOf? c = some opening) :
    LeavesOpen (bs ++ [c]) stack := by
  cases h with
  | @opens bs b _ _ _ h hb =>
    rw [List.append_assoc, List.cons_append]
    exact h.append (hb.group hclosing)

/-! ## Texts in parts -/

/-- A word is taken apart into its characters. -/
def Token.parts : Token → List Token
  | .word w => w.map .sign
  | .literal t closed => [.literal t closed]
  | .sign c => [.sign c]

/-- The literals of a text and the characters outside of them. -/
def parts (t : Text) : List Token := (tokens t).flatMap Token.parts

theorem parts_nil : parts [] = [] := by
  rw [parts, tokens]
  rfl

theorem parts_literal (hquote : isQuote quote = true) (t : Text) :
    parts (quote :: t) = .literal (quote :: (splitLiteral quote t).1) (splitLiteral quote t).2.2 ::
      parts (splitLiteral quote t).2.1 := by
  rw [parts, tokens, if_pos hquote]
  rfl

/-- A character that opens no literal and no group, and closes none. -/
def IsNeutral (c : Char) : Prop := isQuote c = false ∧ c ∉ bracketChars

/-- A class of characters without quotes and brackets. -/
theorem isNeutral_of_class {p : Char → Bool} (hp : (['"', '\''] ++ bracketChars).all (fun d => !p d) = true)
    (h : p c = true) : IsNeutral c := by
  have hout : c ∉ ['"', '\''] ++ bracketChars := by
    intro hc
    have hnot := List.all_eq_true.1 hp c hc
    rw [h] at hnot
    cases hnot
  rw [List.mem_append, not_or] at hout
  exact ⟨by simpa [isQuote] using hout.1, hout.2⟩

theorem isNeutral_of_isNameChar (h : Text.isNameChar c = true) : IsNeutral c :=
  isNeutral_of_class (p := Text.isNameChar) (by decide) h

theorem isNeutral_of_isWordChar (h : Text.isWordChar c = true) : IsNeutral c :=
  isNeutral_of_class (p := Text.isWordChar) (by decide) h

/-- A bracket opens no literal. -/
theorem isQuote_of_mem_bracketChars (h : c ∈ bracketChars) : isQuote c = false := by
  simp only [bracketChars, List.mem_cons, List.not_mem_nil, or_false] at h
  rcases h with rfl | rfl | rfl | rfl <;> rfl

/-- The rest of a word is a word or begins with a digit; its characters are taken one by one anyway. -/
theorem parts_nameChars (t : Text) :
    (t.takeWhile Text.isNameChar).map .sign ++ parts (t.dropWhile Text.isNameChar) = parts t := by
  induction t with
  | nil => rfl
  | cons c t ih =>
    by_cases hname : Text.isNameChar c = true
    · rw [List.takeWhile_cons_of_pos hname, List.dropWhile_cons_of_pos hname, parts.eq_1 (c :: t), tokens,
        if_neg (by simp [(isNeutral_of_isNameChar hname).1])]
      by_cases hstart : isWordStart c = true
      · rw [if_pos hstart]
        rfl
      · rw [if_neg hstart, List.map_cons, List.cons_append, ih]
        rfl
    · rw [List.takeWhile_cons_of_neg hname, List.dropWhile_cons_of_neg hname]
      rfl

theorem parts_cons (hquote : isQuote c = false) (t : Text) : parts (c :: t) = .sign c :: parts t := by
  rw [parts, tokens, if_neg (by simp [hquote])]
  by_cases hstart : isWordStart c = true
  · rw [if_pos hstart, ← parts_nameChars t]
    rfl
  · rw [if_neg hstart]
    rfl

/-- A literal with its closing quote is one part. -/
theorem parts_append_literal (hquote : isQuote quote = true) (hbody : IsInside quote b) (t : Text) :
    parts (quote :: (b ++ quote :: t)) = .literal (quote :: (b ++ [quote])) true :: parts t := by
  rw [parts_literal hquote, splitLiteral_of_isInside (ne_backslash_of_isQuote hquote) hbody]

/-- A walk through tokens that takes a word like its characters may look at the parts of a text. The state of the
    walk is whatever it carries along. -/
theorem walk_parts {State Result : Type} (walk : State → List Token → Result)
    (hcons : ∀ token ts us, (∀ state, walk state ts = walk state us) →
      ∀ state, walk state (token :: ts) = walk state (token :: us))
    (hword : ∀ w ts state, (∀ c ∈ w, Text.isNameChar c = true) →
      walk state (w.map .sign ++ ts) = walk state (.word w :: ts))
    (state : State) (t : Text) : walk state (parts t) = walk state (tokens t) := by
  -- literals and signs are the same in both lists, only words fall apart
  fun_induction tokens t generalizing state with
  | case1 => rw [parts_nil]
  | case2 c t hquote ih =>
    rw [parts_literal hquote]
    exact hcons _ _ _ ih state
  | case3 c t hquote hstart ih =>
    have hname : ∀ d ∈ c :: t.takeWhile Text.isNameChar, Text.isNameChar d = true :=
      List.forall_mem_cons.2 ⟨isNameChar_of_isWordStart hstart, fun d hd => List.mem_takeWhile_imp hd⟩
    rw [parts_cons (by simpa using hquote), ← parts_nameChars t]
    exact (hword _ _ state hname).trans (hcons _ _ _ ih state)
  | case4 c t hquote hstart ih =>
    rw [parts_cons (by simpa using hquote)]
    exact hcons _ _ _ ih state

/-! ## The brackets of a text -/

/-- The brackets among tokens, unless a literal is left open. -/
def bracketsOf? : List Token → Option Text
  | [] => some []
  | .literal _ closed :: r => if closed then bracketsOf? r else none
  | .word _ :: r => bracketsOf? r
  | .sign c :: r => if c ∈ bracketChars then (bracketsOf? r).map (c :: ·) else bracketsOf? r

theorem bracketsOf?_literal (literal : Text) (closed : Bool) (ts : List Token) :
    bracketsOf? (.literal literal closed :: ts) = if closed then bracketsOf? ts else none := rfl

theorem bracketsOf?_word (w : Text) (ts : List Token) :
    bracketsOf? (.word w :: ts) = bracketsOf? ts := rfl

theorem bracketsOf?_sign (c : Char) (ts : List Token) :
    bracketsOf? (.sign c :: ts) =
      if c ∈ bracketChars then (bracketsOf? ts).map (c :: ·) else bracketsOf? ts := rfl

/-- Signs that are no brackets. -/
theorem bracketsOf?_others (h : ∀ c ∈ b, c ∉ bracketChars) (ts : List Token) :
    bracketsOf? (b.map .sign ++ ts) = bracketsOf? ts := by
  induction b with
  | nil => rfl
  | cons c b ih =>
    obtain ⟨hc, hb⟩ := List.forall_mem_cons.1 h
    rw [List.map_cons, List.cons_append, bracketsOf?_sign, if_neg hc, ih hb]

theorem bracketsOf?_parts (t : Text) : bracketsOf? (parts t) = bracketsOf? (tokens t) := by
  apply walk_parts (fun (_ : Unit) ts => bracketsOf? ts) _ _ () t
  · intro token ts us h state
    cases token <;> simp only [bracketsOf?_literal, bracketsOf?_word, bracketsOf?_sign, h ()]
  · intro w ts state hw
    rw [bracketsOf?_word, bracketsOf?_others fun c hc => (isNeutral_of_isNameChar (hw c hc)).2]

theorem HasBrackets.bracketsOf?_eq (h : HasBrackets t bs) : bracketsOf? (parts t) = some bs := by
  induction h with
  | nil =>
    rw [parts_nil]
    rfl
  | literal hquote hbody _ ih => rw [parts_append_literal hquote hbody, bracketsOf?_literal, if_pos rfl, ih]
  | bracket hbracket _ ih =>
    rw [parts_cons (isQuote_of_mem_bracketChars hbracket), bracketsOf?_sign, if_pos hbracket, ih]
    rfl
  | other hquote hbracket _ ih => rw [parts_cons hquote, bracketsOf?_sign, if_neg hbracket, ih]

/-- Where the brackets of tokens are found, each literal has its closing quote. -/
theorem isClosed_of_bracketsOf? {ts : List Token} (h : bracketsOf? ts = some bs) : ∀ token ∈ ts, token.IsClosed := by
  fun_induction bracketsOf? ts generalizing bs with
  | case1 => simp
  | case2 _ _ ih => exact List.forall_mem_cons.2 ⟨rfl, ih h⟩
  | case3 => cases h
  | case4 _ _ ih => exact List.forall_mem_cons.2 ⟨trivial, ih h⟩
  | case5 c ts _ ih =>
    obtain ⟨bs, hbs, rfl⟩ := Option.map_eq_some_iff.1 h
    exact List.forall_mem_cons.2 ⟨trivial, ih hbs⟩
  | case6 _ _ _ ih => exact List.forall_mem_cons.2 ⟨trivial, ih h⟩

/-- The brackets of a text are found among its tokens. -/
theorem hasBrackets_iff : HasBrackets t bs ↔ bracketsOf? (tokens t) = some bs := by
  rw [← bracketsOf?_parts]
  refine ⟨HasBrackets.bracketsOf?_eq, fun h => ?_⟩
  -- a literal is taken off as a whole, so the induction is on the length
  induction hlength : t.length using Nat.strong_induction_on generalizing t bs with
  | h n ih =>
  cases t with
  | nil =>
    rw [parts_nil] at h
    cases h
    exact .nil
  | cons c r =>
    by_cases hquote : isQuote c = true
    · rw [parts_literal hquote, bracketsOf?_literal] at h
      split at h
      · next hclosed =>
        obtain ⟨body, r, hbody, rfl⟩ := (closes_iff (ne_backslash_of_isQuote hquote)).2 hclosed
        rw [splitLiteral_of_isInside (ne_backslash_of_isQuote hquote) hbody] at h
        exact .literal hquote hbody (ih r.length (by simp at hlength; omega) h rfl)
      · cases h
    · have hother : isQuote c = false := by simpa using hquote
      have hr : r.length < n := by rw [← hlength]; exact Nat.lt_succ_self _
      rw [parts_cons hother, bracketsOf?_sign] at h
      split at h
      · next hbracket =>
        obtain ⟨bs, hbs, rfl⟩ := Option.map_eq_some_iff.1 h
        exact .bracket hbracket (ih r.length hr hbs rfl)
      · next hbracket => exact .other hother hbracket (ih r.length hr h rfl)

instance (t bs : Text) : Decidable (HasBrackets t bs) := decidable_of_iff _ hasBrackets_iff.symm

theorem isBracket_iff : c ∈ bracketChars ↔ isOpening c = true ∨ (openingOf? c).isSome = true := by
  simp only [bracketChars, isOpening, openingOf?, List.mem_cons, List.not_mem_nil, or_false, Bool.or_eq_true,
    decide_eq_true_eq]
  grind

theorem not_isBracket (h : c ∉ bracketChars) : isOpening c = false ∧ openingOf? c = none := by
  simpa [isBracket_iff] using h

theorem isNeutral_of_isBlank (h : Text.isBlank c = true) : IsNeutral c :=
  isNeutral_of_class (p := Text.isBlank) (by decide) h

/-! ## What the scan sees -/

/-- A sign that is no bracket changes nothing. -/
theorem imbalanceFrom?_other (h : c ∉ bracketChars) (stack : List Char) (ts : List Token) :
    imbalanceFrom? stack (.sign c :: ts) = imbalanceFrom? stack ts := by
  simp [imbalanceFrom?, not_isBracket h]

theorem imbalanceFrom?_others (h : ∀ c ∈ b, c ∉ bracketChars) (stack : List Char) (ts : List Token) :
    imbalanceFrom? stack (b.map .sign ++ ts) = imbalanceFrom? stack ts := by
  induction b with
  | nil => rfl
  | cons c b ih =>
    obtain ⟨hc, hb⟩ := List.forall_mem_cons.1 h
    rw [List.map_cons, List.cons_append, imbalanceFrom?_other hc, ih hb]

/-- What follows a token matters to the scan only by what it finds there. -/
theorem imbalanceFrom?_congr {ts us : List Token} (h : ∀ stack, imbalanceFrom? stack ts = imbalanceFrom? stack us)
    (token : Token) (stack : List Char) :
    imbalanceFrom? stack (token :: ts) = imbalanceFrom? stack (token :: us) := by
  cases token <;> simp only [imbalanceFrom?, h]

/-- The scan may look at the parts of a text. -/
theorem imbalanceFrom?_parts (stack : List Char) (t : Text) :
    imbalanceFrom? stack (parts t) = imbalanceFrom? stack (tokens t) := by
  apply walk_parts imbalanceFrom?
  · exact fun token ts us h state => imbalanceFrom?_congr h token state
  · intro w ts state hw
    rw [imbalanceFrom?, imbalanceFrom?_others fun c hc => (isNeutral_of_isNameChar (hw c hc)).2]

theorem imbalance?_eq (t : Text) : imbalance? t = imbalanceFrom? [] (parts t) :=
  (imbalanceFrom?_parts [] t).symm

/-- The scan sees of a text whose literals end only its brackets. -/
theorem HasBrackets.scan (h : HasBrackets s bs) (stack : List Char) (t : Text) :
    imbalanceFrom? stack (parts (s ++ t)) = imbalanceFrom? stack (bs.map .sign ++ parts t) := by
  induction h generalizing stack with
  | nil => rfl
  | literal hquote hbody _ ih =>
    rw [List.cons_append, List.append_assoc, List.cons_append, parts_append_literal hquote hbody, imbalanceFrom?,
      if_pos rfl, ih]
  | @bracket c s bs hbracket _ ih =>
    rw [List.cons_append, parts_cons (isQuote_of_mem_bracketChars hbracket)]
    exact imbalanceFrom?_congr ih (.sign c) stack
  | other hquote hbracket _ ih =>
    rw [List.cons_append, parts_cons hquote, imbalanceFrom?_other hbracket, ih]

/-- A group in brackets changes nothing if what is in it changes nothing. -/
theorem Nests.scan (h : Nests b) (stack : List Char) (ts : List Token) :
    imbalanceFrom? stack (b.map .sign ++ ts) = imbalanceFrom? stack ts := by
  have hgroup {opening closing : Char} {b b' : Text} (hopening : isOpening opening = true)
      (hother : isOpening closing = false) (hclosing : openingOf? closing = some opening)
      (ih : ∀ stack ts, imbalanceFrom? stack (b.map .sign ++ ts) = imbalanceFrom? stack ts)
      (ih' : ∀ stack ts, imbalanceFrom? stack (b'.map .sign ++ ts) = imbalanceFrom? stack ts)
      (stack : List Char) (ts : List Token) :
      imbalanceFrom? stack ((opening :: (b ++ closing :: b')).map .sign ++ ts) = imbalanceFrom? stack ts := by
    -- the opening bracket is put on the stack, and the closing one finds it there
    rw [List.map_cons, List.cons_append, imbalanceFrom?, if_pos hopening, List.map_append, List.append_assoc, ih,
      List.map_cons, List.cons_append, imbalanceFrom?, if_neg (by simp [hother]), hclosing]
    exact (if_pos rfl).trans (ih' stack ts)
  induction h generalizing stack ts with
  | nil => rfl
  | round _ _ ih ih' => exact hgroup rfl rfl rfl ih ih' stack ts
  | square _ _ ih ih' => exact hgroup rfl rfl rfl ih ih' stack ts

/-- The scan puts the brackets that are left open on its stack. -/
theorem LeavesOpen.scan (h : LeavesOpen bs stack) (below : List Char) (ts : List Token) :
    imbalanceFrom? below (bs.map .sign ++ ts) = imbalanceFrom? (stack ++ below) ts := by
  induction h generalizing ts with
  | nests h => exact h.scan below ts
  | @opens bs b stack c hopening _ hb ih =>
    rw [List.map_append, List.append_assoc, ih, List.map_cons, List.cons_append, imbalanceFrom?, if_pos hopening,
      hb.scan, List.cons_append]

/-- Where the scan stands behind a text that has no fault. -/
theorem HasBrackets.imbalance?_append (hs : HasBrackets s bs) (hopen : LeavesOpen bs stack) (t : Text) :
    imbalance? (s ++ t) = imbalanceFrom? stack (parts t) := by
  rw [imbalance?_eq, hs.scan, hopen.scan, List.append_nil]

/-! ## Going on character by character -/

theorem HasBrackets.append (h : HasBrackets s bs) (h' : HasBrackets t bs') :
    HasBrackets (s ++ t) (bs ++ bs') := by
  induction h with
  | nil => exact h'
  | literal hquote hbody _ ih =>
    rw [List.cons_append, List.append_assoc]
    exact .literal hquote hbody ih
  | bracket hbracket _ ih => exact .bracket hbracket ih
  | other hquote hbracket _ ih => exact .other hquote hbracket ih

theorem hasBrackets_of_neutral (h : ∀ c ∈ t, IsNeutral c) : HasBrackets t [] := by
  induction t with
  | nil => exact .nil
  | cons c t ih =>
    obtain ⟨⟨hquote, hbracket⟩, ht⟩ := List.forall_mem_cons.1 h
    exact .other hquote hbracket (ih ht)

theorem HasBrackets.inv_literal (hquote : isQuote quote = true) (h : HasBrackets (quote :: t) bs) :
    ∃ body r, IsInside quote body ∧ t = body ++ quote :: r ∧ HasBrackets r bs := by
  cases h with
  | literal _ hbody rest => exact ⟨_, _, hbody, rfl, rest⟩
  | bracket hbracket _ =>
    rw [isQuote_of_mem_bracketChars hbracket] at hquote
    cases hquote
  | other hother _ _ =>
    rw [hother] at hquote
    cases hquote

theorem HasBrackets.inv_bracket (hbracket : c ∈ bracketChars) (h : HasBrackets (c :: t) bs) :
    ∃ bs', bs = c :: bs' ∧ HasBrackets t bs' := by
  cases h with
  | literal hquote _ _ =>
    rw [isQuote_of_mem_bracketChars hbracket] at hquote
    cases hquote
  | bracket _ rest => exact ⟨_, rfl, rest⟩
  | other _ hother _ => exact absurd hbracket hother

theorem HasBrackets.inv_other (hquote : isQuote c = false) (hbracket : c ∉ bracketChars)
    (h : HasBrackets (c :: t) bs) : HasBrackets t bs := by
  cases h with
  | literal hliteral _ _ =>
    rw [hquote] at hliteral
    cases hliteral
  | bracket hother _ => exact absurd hother hbracket
  | other _ _ rest => exact rest

/-- The brackets of a text with `s` in front are those of `s` and those of the rest. -/
theorem HasBrackets.of_append (hs : HasBrackets s bs) (h : HasBrackets (s ++ t) bs') :
    ∃ b, HasBrackets t b ∧ bs' = bs ++ b := by
  induction hs generalizing bs' with
  | nil => exact ⟨bs', h, rfl⟩
  | @literal quote body s bs hquote hbody _ ih =>
    rw [List.cons_append, List.append_assoc, List.cons_append] at h
    obtain ⟨body', r, hbody', hr, hrest⟩ := h.inv_literal hquote
    obtain ⟨-, rfl⟩ := hbody.unique (ne_backslash_of_isQuote hquote) hbody' hr
    exact ih hrest
  | @bracket c s bs hbracket _ ih =>
    obtain ⟨bs', rfl, hrest⟩ := h.inv_bracket hbracket
    obtain ⟨b, hb, rfl⟩ := ih hrest
    exact ⟨b, hb, rfl⟩
  | @other c s bs hquote hbracket _ ih => exact ih (h.inv_other hquote hbracket)

theorem HasBrackets.unique (h : HasBrackets s bs) (h' : HasBrackets s bs') : bs' = bs := by
  obtain ⟨b, hb, rfl⟩ := h.of_append (t := []) (by rwa [List.append_nil])
  cases hb
  rw [List.append_nil]

/-- The text is balanced, or it has a first fault. -/
theorem exists_firstFault (t : Text) {s bs stack : Text} (hs : HasBrackets s bs) (hopen : LeavesOpen bs stack) :
    (∃ bs, HasBrackets (s ++ t) bs ∧ Nests bs) ∨ ∃ message, FirstFault (s ++ t) message := by
  -- the induction is on what is left; `s` is what was read, and it has no fault
  induction hlength : t.length using Nat.strong_induction_on generalizing t s bs stack with
  | h n ih =>
  cases t with
  | nil =>
    rw [List.append_nil]
    cases hopen with
    | nests h => exact .inl ⟨bs, hs, h⟩
    | opens hopening h hb => exact .inr ⟨_, .unclosed hs (.opens hopening h hb)⟩
  | cons c r =>
    have hgo {w r bs' stack' : Text} (hr : r.length < n) (hw : HasBrackets (s ++ w) bs')
        (hopen' : LeavesOpen bs' stack') : (∃ bs, HasBrackets (s ++ (w ++ r)) bs ∧ Nests bs) ∨
          ∃ message, FirstFault (s ++ (w ++ r)) message := by
      rw [← List.append_assoc]
      exact ih r.length hr r hw hopen' rfl
    have hr : r.length < n := by rw [← hlength]; exact Nat.lt_succ_self _
    by_cases hquote : isQuote c = true
    · by_cases hends : Closes c r
      · obtain ⟨body, r, hbody, rfl⟩ := hends
        have hliteral : HasBrackets (s ++ c :: (body ++ [c])) (bs ++ []) :=
          hs.append (.literal hquote hbody .nil)
        have hrest := hgo (w := c :: (body ++ [c])) (r := r) (by simp at hr; omega) hliteral
          (hopen.append .nil)
        simpa using hrest
      · exact .inr ⟨_, .unterminated hs hopen hquote hends⟩
    by_cases hbracket : c ∈ bracketChars
    · have hone : HasBrackets (s ++ [c]) (bs ++ [c]) := hs.append (.bracket hbracket .nil)
      by_cases hopening : isOpening c = true
      · exact hgo hr hone (.opens hopening hopen .nil)
      · -- a closing bracket needs its match on top
        obtain ⟨opening, hclosing⟩ :=
          Option.isSome_iff_exists.1 ((isBracket_iff.1 hbracket).resolve_left hopening)
        by_cases htop : stack.head? = some opening
        · obtain ⟨below, rfl⟩ := List.head?_eq_some_iff.1 htop
          exact hgo hr hone (hopen.closes hclosing)
        · exact .inr ⟨_, .unmatched hs hopen hclosing htop⟩
    · have hone : HasBrackets (s ++ [c]) (bs ++ []) := hs.append (.other (by simpa using hquote) hbracket .nil)
      exact hgo hr hone (hopen.append .nil)

/-! ## The scan decides -/

theorem imbalance?_of_nests (ht : HasBrackets t bs) (hbs : Nests bs) : imbalance? t = none := by
  have hscan := ht.imbalance?_append (.nests hbs) []
  rw [List.append_nil, parts_nil] at hscan
  rw [hscan]
  rfl

theorem isOpening_of_openingOf? (h : openingOf? c = some opening) : isOpening c = false := by
  simp only [openingOf?] at h
  grind [isOpening]

/-- The scan stops at the first fault. -/
theorem FirstFault.complaint?_eq {message : Text} (h : FirstFault t message) :
    complaint? t = some message := by
  -- up to the fault the scan has gone well, with the open brackets on its stack
  cases h with
  | unterminated hs hopen hquote hends =>
    rw [closes_iff (ne_backslash_of_isQuote hquote), Bool.not_eq_true] at hends
    rw [complaint?, hs.imbalance?_append hopen, parts_literal hquote, imbalanceFrom?, hends]
    rfl
  | @unmatched s r bs stack c opening hs hopen hclosing htop =>
    have hbracket : c ∈ bracketChars := isBracket_iff.2 (.inr (by rw [hclosing]; rfl))
    have hquote := isQuote_of_mem_bracketChars hbracket
    have hother := isOpening_of_openingOf? hclosing
    rw [complaint?, hs.imbalance?_append hopen, parts_cons hquote, imbalanceFrom?, if_neg (by simp [hother]),
      hclosing]
    cases stack with
    | nil => rfl
    | cons top below =>
      have hne : top ≠ opening := fun heq => htop (by rw [heq]; rfl)
      show Option.map _ (if top = opening then _ else _) = _
      rw [if_neg hne]
      rfl
  | unclosed ht hopen =>
    have hscan := ht.imbalance?_append hopen []
    rw [List.append_nil, parts_nil] at hscan
    rw [complaint?, hscan]
    rfl

theorem nests_or_firstFault (t : Text) :
    (∃ bs, HasBrackets t bs ∧ Nests bs) ∨ ∃ message, FirstFault t message :=
  exists_firstFault t .nil (.nests .nil)

/-- The scan accepts the texts whose literals end and whose brackets nest. -/
theorem imbalance?_eq_none_iff : imbalance? t = none ↔ ∃ bs, HasBrackets t bs ∧ Nests bs := by
  constructor
  · intro hnone
    rcases nests_or_firstFault t with h | ⟨message, h⟩
    · exact h
    · have hsome := h.complaint?_eq
      rw [complaint?, hnone] at hsome
      cases hsome
  · rintro ⟨bs, ht, hbs⟩
    exact imbalance?_of_nests ht hbs

/-- A text is balanced if and only if each of its literals ends and the brackets outside of them are a word of
    the grammar. What is said about any other text names its first fault. -/
theorem complaint?_eq_iff (t : Text) :
    (isBalanced t = true ↔ ∃ bs, HasBrackets t bs ∧ Nests bs) ∧
    ∀ message, complaint? t = some message ↔ FirstFault t message := by
  constructor
  · rw [isBalanced, Option.isNone_iff_eq_none]
    exact imbalance?_eq_none_iff
  · intro message
    constructor
    · intro hsome
      rcases nests_or_firstFault t with ⟨bs, ht, hbs⟩ | ⟨other, h⟩
      · rw [complaint?, imbalance?_of_nests ht hbs] at hsome
        cases hsome
      · rw [h.complaint?_eq] at hsome
        obtain rfl := Option.some.inj hsome
        exact h
    · exact FirstFault.complaint?_eq

end Pseudocode.Expression
