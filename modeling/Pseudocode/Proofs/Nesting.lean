import Pseudocode.Proofs.Checking

/-!
# How deep expressions nest

No expression of a program is nested deeper than `Program.maxDepth`, as the grammar counts it: by the
readings that are inside each other, or by the links of one chain of operators. The tree that is
evaluated can be higher. A chain makes its tree higher by all of its links, and the first operand of
the chain may be a chain again, at a tighter level, whose links are not counted with the others.

* `Expression.height`        the height of a tree
* `Expression.continued`     the links that are not counted on the way down
* `Program.height_le`        how high the expressions of a program are
* `Program.parse_longSum`    a program with an expression that is higher than `Program.maxDepth`
-/

namespace Pseudocode.Script

/-! ## Heights -/

mutual

/-- The number of expressions on the longest way down. -/
def Expression.height : Expression → Nat
  | array _ items => heightAll items + 1
  | unary _ _ operand => operand.height + 1
  | binary _ _ left right => max left.height right.height + 1
  | conditional _ test yes no => max test.height (max yes.height no.height) + 1
  | assign _ _ target value => max target.height value.height + 1
  | call _ callee operands => max callee.height (heightAll operands) + 1
  | index _ object key => max object.height key.height + 1
  | member _ object _ => object.height + 1
  | construct _ _ operands => heightAll operands + 1
  | number _ _ | string _ _ | bool _ _ | null _ | undefined _ | identifier _ _ => 1

/-- The height of the highest expression of a list. -/
def Expression.heightAll : List Expression → Nat
  | [] => 0
  | e :: es => max e.height (heightAll es)

end

/-- The level of the chain that an expression is a link of. -/
def Expression.chain? : Expression → Option Level
  | unary _ _ _ => some Level.unary
  | binary _ operator _ _ => some operator.level
  | call _ _ _ | index _ _ _ | member _ _ _ => some Level.suffixed
  | _ => none

/-- One for an operand that is a link of a chain of the level, since it continues the chain. -/
def Expression.continues (level : Level) (e : Expression) : Nat :=
  if e.chain? = some level then 1 else 0

mutual

/-- The greatest number of links on a way down that continue the chain of the link above them. -/
def Expression.continued : Expression → Nat
  | array _ items => continuedAll items
  | unary _ _ operand => operand.continued + operand.continues Level.unary
  | binary _ operator left right =>
    max (left.continued + left.continues operator.level) right.continued
  | conditional _ test yes no => max test.continued (max yes.continued no.continued)
  | assign _ _ target value => max target.continued value.continued
  | call _ callee operands =>
    max (callee.continued + callee.continues Level.suffixed) (continuedAll operands)
  | index _ object key =>
    max (object.continued + object.continues Level.suffixed) key.continued
  | member _ object _ => object.continued + object.continues Level.suffixed
  | construct _ _ operands => continuedAll operands
  | number _ _ | string _ _ | bool _ _ | null _ | undefined _ | identifier _ _ => 0

/-- The same for the expressions of a list. -/
def Expression.continuedAll : List Expression → Nat
  | [] => 0
  | e :: es => max e.continued (continuedAll es)

end

/-- The sum of the numbers up to `n`. -/
def triangle : Nat → Nat
  | 0 => 0
  | n + 1 => triangle n + (n + 1)

theorem triangle_mono {m n : Nat} (h : m ≤ n) : triangle m ≤ triangle n := by
  induction h with
  | refl => exact Nat.le_refl _
  | step _ ih => exact Nat.le_trans ih (Nat.le_add_right _ _)

theorem two_mul_triangle (n : Nat) : 2 * triangle n = n * (n + 1) := by
  induction n with
  | zero => rfl
  | succ n ih =>
    rw [triangle, Nat.mul_add, ih]
    ring

/-! ## Bounds -/

open Program (maxDepth)

namespace Expression

/-- What the depth `base` at which an expression is read says about its height, where `spare` is left
    for the links of its own chain. -/
structure Fits (base spare : Nat) (e : Expression) : Prop where
  base_le : base ≤ maxDepth
  near : base + e.height ≤ maxDepth + 1 + e.continued
  far : e.height ≤ spare + triangle (maxDepth - base)

/-- What is known of something as high as `height` that is read deeper than what it stands in, which
    is read at `base`. -/
structure FitsInside (base height continued : Nat) : Prop where
  near : base + height ≤ maxDepth + continued
  far : height ≤ triangle (maxDepth - base)

/-- What is known of the first operand of a link that is read at `base`, with `links` before it. -/
structure FitsBefore (level : Level) (base links : Nat) (e : Expression) : Prop where
  near : base + e.height ≤ maxDepth + (e.continued + e.continues level)
  far : e.height ≤ links + triangle (maxDepth - base)

variable {level : Level} {base deeper links spare spare' : Nat} {e first : Expression}

theorem Fits.mono (h : e.Fits base spare) (hle : spare ≤ spare') : e.Fits base spare' :=
  ⟨h.base_le, h.near, Nat.le_trans h.far (Nat.add_le_add_right hle _)⟩

theorem fitsInside_zero (h : base ≤ maxDepth) : FitsInside base 0 0 := ⟨by omega, Nat.zero_le _⟩

theorem FitsInside.max {height height' continued continued' : Nat}
    (h : FitsInside base height continued) (h' : FitsInside base height' continued') :
    FitsInside base (max height height') (max continued continued') := by
  obtain ⟨hnear, hfar⟩ := h
  obtain ⟨hnear', hfar'⟩ := h'
  exact ⟨by omega, by omega⟩

/-- An operand of its own is read deeper than what it stands in. -/
theorem Fits.inside (h : e.Fits deeper (maxDepth + 1 - deeper)) (hdeeper : base < deeper) :
    FitsInside base e.height e.continued := by
  obtain ⟨hle, hnear, hfar⟩ := h
  have hsum : maxDepth + 1 - deeper + triangle (maxDepth - deeper)
      = triangle (maxDepth - deeper + 1) := by
    rw [triangle]
    omega
  have hmono : triangle (maxDepth - deeper + 1) ≤ triangle (maxDepth - base) :=
    triangle_mono (by omega)
  exact ⟨by omega, by omega⟩

theorem FitsInside.before (h : FitsInside base first.height first.continued) (level : Level)
    (links : Nat) : first.FitsBefore level base links :=
  ⟨Nat.le_trans h.near (by omega), Nat.le_trans h.far (by omega)⟩

/-- The link before is read at the same depth, and its chain goes on. -/
theorem Fits.before (h : first.Fits base links) (hchain : first.chain? = some level) :
    first.FitsBefore level base links := by
  refine ⟨?_, h.far⟩
  have hnear := h.near
  simp only [continues, hchain, ↓reduceIte]
  omega

/-- Something that is higher by one than all that stands in it. -/
theorem FitsInside.fits {height continued : Nat} (h : FitsInside base height continued)
    (hbase : base ≤ maxDepth) (hheight : e.height ≤ height + 1) (hcontinued : e.continued = continued) :
    e.Fits base (maxDepth + 1 - base) := by
  obtain ⟨hnear, hfar⟩ := h
  exact ⟨hbase, by omega, by omega⟩

/-- A link is higher by one than its first operand, or than what else stands in it. -/
theorem FitsBefore.fits {height continued : Nat} (hfirst : first.FitsBefore level base links)
    (h : FitsInside base height continued) (hbase : base ≤ maxDepth)
    (hheight : e.height = Max.max first.height height + 1)
    (hcontinued : e.continued = Max.max (first.continued + first.continues level) continued) :
    e.Fits base (links + 1) := by
  obtain ⟨hnear, hfar⟩ := h
  obtain ⟨hnearFirst, hfarFirst⟩ := hfirst
  exact ⟨hbase, by omega, by omega⟩

end Expression

/-! ## Checked phrases -/

namespace Phrase

/-- The level up to which no link of a chain goes on with the phrase. -/
def rank : Phrase → Level
  | group _ _ => Level.atom
  | p => p.level

/-- Whether the phrase is a link of a chain. -/
def isLink : Phrase → Bool
  | unary _ _ _ | binary _ _ _ _ | call _ _ _ | index _ _ _ | member _ _ _ _ => true
  | _ => false

variable {p : Phrase} {level : Level}

theorem level_le_rank (p : Phrase) : p.level ≤ p.rank := by
  cases p <;> first | exact Nat.le_refl _ | exact Nat.le_succ _

theorem assignment_le_rank (p : Phrase) : Level.assignment ≤ p.rank :=
  Nat.le_trans p.assignment_le_level p.level_le_rank

theorem rank_of_isLink (h : p.isLink = true) : p.rank = p.level := by
  cases p <;> first | rfl | cases h

/-- What follows the operators in the grammar is an atom, or has parentheses. -/
theorem rank_of_not_isLink (h : p.isLink = false) (hlevel : Level.conditional < p.level) :
    p.rank = Level.atom := by
  cases p
  case unary | binary | call | index | member => cases h
  case conditional | assign => exact absurd hlevel (by simp only [Phrase.level]; decide)
  all_goals rfl

/-- What the check of a phrase says about the height of its expression. -/
def HasHeight (index : LineIndex) (p : Phrase) : Prop :=
  ∀ entered depth, entered ≤ p.rank + 1 →
    Settles (fun _ => True) (fun found =>
      let base := depth + (p.rank + 1 - entered)
      (entered ≤ p.rank → found.1.Fits base (maxDepth + 1 - base)) ∧
      (p.isLink = true → found.1.Fits base found.2 ∧ found.1.chain? = some p.level))
      (p.check index entered depth)

section

variable {index : LineIndex} {entered : Level} {base depth levels start : Nat}

theorem settles_deepen :
    Settles (fun _ => True) (fun deeper => deeper = depth + levels ∧ deeper ≤ maxDepth)
      (deepen index start depth levels) := by
  unfold deepen
  split
  · trivial
  · exact ⟨rfl, by omega⟩

/-- An operand that is no link of the chain it stands in. -/
theorem HasHeight.inside (h : p.HasHeight index) (hentered : entered ≤ p.rank) :
    Settles (fun _ => True) (fun found => Expression.FitsInside base found.1.height found.1.continued)
      (p.check index entered base) :=
  (h entered base (Nat.le_succ_of_le hentered)).mono fun _ hfound =>
    (hfound.1 hentered).inside
      (Nat.lt_add_of_pos_right (Nat.sub_pos_of_lt (Nat.lt_succ_of_le hentered)))

/-- The first operand of a link. -/
theorem HasHeight.before (h : p.HasHeight index) (hlow : Level.conditional < level)
    (hhigh : level ≤ Level.suffixed) (hlevel : level ≤ p.level) :
    Settles (fun _ => True) (fun found => found.1.FitsBefore level base (linksAt level p found.2))
      (p.check index (level + 1) base) := by
  have hrank := p.level_le_rank
  by_cases hsame : p.isLink = true ∧ p.level = level
  · -- the operand is a link of the same chain, which is read at the same depth
    obtain ⟨hlink, rfl⟩ := hsame
    refine (h _ base (Nat.succ_le_succ hrank)).mono fun found hfound => ?_
    obtain ⟨hfits, hchain⟩ := hfound.2 hlink
    rw [rank_of_isLink hlink, Nat.sub_self, Nat.add_zero] at hfits
    rw [linksAt, if_pos rfl]
    exact hfits.before hchain
  · have hentered : level + 1 ≤ p.rank := by
      cases hlink : p.isLink with
      | true =>
        have hlt : level < p.level := Nat.lt_of_le_of_ne hlevel fun heq => hsame ⟨hlink, heq.symm⟩
        exact Nat.lt_of_lt_of_le hlt hrank
      | false =>
        rw [rank_of_not_isLink hlink (Nat.lt_of_lt_of_le hlow hlevel)]
        exact Nat.succ_le_succ hhigh
    exact (h.inside hentered).mono fun found hfound => hfound.before level _

theorem checkAll_fitsInside {ps : List Phrase} (h : ∀ p ∈ ps, p.HasHeight index)
    (hbase : base ≤ maxDepth) :
    Settles (fun _ => True) (fun es => Expression.FitsInside base (Expression.heightAll es)
      (Expression.continuedAll es)) (checkAll index base ps) := by
  induction ps with
  | nil => exact settles_pure (Expression.fitsInside_zero hbase)
  | cons p ps ih =>
    obtain ⟨hp, hps⟩ := List.forall_mem_cons.1 h
    rw [checkAll]
    refine (hp.inside (Nat.zero_le _)).bind fun e he => (ih hps).bind fun es hes => ?_
    exact settles_pure (he.max hes)

/-- A token is as low as can be. -/
private theorem token_hasHeight (make : Position → Expression) (hrank : p.rank = Level.atom)
    (hlink : p.isLink = false)
    (hcheck : ∀ entered depth, p.check index entered depth = (do
      let _ ← deepen index start depth (Level.atom + 1 - entered)
      return (make (index.position start), 0)))
    (hheight : ∀ place, (make place).height = 1) (hcontinued : ∀ place, (make place).continued = 0) :
    p.HasHeight index := by
  intro entered depth _
  rw [hcheck, hrank, hlink]
  refine settles_deepen.bind fun deeper hdeeper => settles_pure ⟨fun _ => ?_, nofun⟩
  obtain ⟨rfl, hle⟩ := hdeeper
  exact (Expression.fitsInside_zero hle).fits hle (by rw [hheight]) (hcontinued _)

/-- A link of a chain, once its first operand and what else stands in it have been checked. -/
private theorem link_fits {links : Nat} {first e : Expression} {height continued : Nat}
    (hrank : p.rank = level) (hlevel : p.level = level)
    (hfirst : first.FitsBefore level base links) (hbase : base ≤ maxDepth)
    (h : Expression.FitsInside base height continued)
    (hheight : e.height = max first.height height + 1)
    (hcontinued : e.continued = max (first.continued + first.continues level) continued)
    (hchain : e.chain? = some level)
    (hlinks : entered ≤ level → base + (links + 1) ≤ maxDepth) :
    (entered ≤ p.rank → e.Fits base (maxDepth + 1 - base)) ∧
      (p.isLink = true → e.Fits base (links + 1) ∧ e.chain? = some p.level) := by
  have hfits := hfirst.fits h hbase hheight hcontinued
  refine ⟨fun hentered => hfits.mono ?_, fun _ => ⟨hfits, by rw [hchain, hlevel]⟩⟩
  have := hlinks (hrank ▸ hentered)
  omega

/-- The check of a phrase bounds the height of its expression, by induction on the phrase: what
    stands in it is read deeper, or is a link of the same chain. -/
theorem IsWritten.hasHeight {Q : Nat → Prop} (h : p.IsWritten Q) : p.HasHeight index := by
  induction h with
  | @number _ value _ =>
    exact token_hasHeight (.number · value) rfl rfl (fun _ _ => by rw [check]) (fun _ => rfl) fun _ => rfl
  | @string _ value _ =>
    exact token_hasHeight (.string · value) rfl rfl (fun _ _ => by rw [check]) (fun _ => rfl) fun _ => rfl
  | @bool _ value _ =>
    exact token_hasHeight (.bool · value) rfl rfl (fun _ _ => by rw [check]) (fun _ => rfl) fun _ => rfl
  | null _ =>
    exact token_hasHeight .null rfl rfl (fun _ _ => by rw [check]) (fun _ => rfl) fun _ => rfl
  | undefined _ =>
    exact token_hasHeight .undefined rfl rfl (fun _ _ => by rw [check]) (fun _ => rfl) fun _ => rfl
  | @identifier _ name _ =>
    exact token_hasHeight (.identifier · name) rfl rfl (fun _ _ => by rw [check]) (fun _ => rfl) fun _ => rfl
  | array _ _ ih =>
    intro entered depth _
    rw [check]
    refine settles_deepen.bind fun base hbase => ?_
    obtain ⟨rfl, hle⟩ := hbase
    refine (checkAll_fitsInside ih hle).bind fun es hes => settles_pure ⟨fun _ => ?_, nofun⟩
    exact hes.fits hle (Nat.le_refl _) rfl
  | construct _ _ ih =>
    intro entered depth _
    rw [check]
    refine settles_deepen.bind fun base hbase => ?_
    obtain ⟨rfl, hle⟩ := hbase
    refine (checkAll_fitsInside ih hle).bind fun es hes => settles_pure ⟨fun _ => ?_, nofun⟩
    exact hes.fits hle (Nat.le_refl _) rfl
  | @group _ inner _ _ ih =>
    intro entered depth _
    rw [check]
    refine settles_deepen.bind fun base hbase => ?_
    obtain ⟨rfl, -⟩ := hbase
    refine (ih 0 _ (Nat.zero_le _)).bind fun found hfound => settles_pure ⟨fun hentered => ?_, nofun⟩
    have hfits := hfound.1 (Nat.zero_le _)
    -- a reading of its own at the lowest level stands between the parentheses
    have hdeeper : depth + (Level.atom + 1 - entered)
        < depth + (Level.suffixed + 1 - entered) + (inner.rank + 1 - 0) := by
      have hrank : 1 ≤ inner.rank := inner.assignment_le_rank
      have hentered : entered ≤ 11 := hentered
      have hstep : Level.atom + 1 - entered = Level.suffixed + 1 - entered + 1 :=
        show 12 - entered = 11 - entered + 1 from Nat.succ_sub hentered
      rw [hstep, ← Nat.add_assoc]
      exact Nat.add_lt_add_left (Nat.succ_lt_succ hrank) _
    exact (hfits.inside hdeeper).fits (Nat.le_trans hdeeper.le hfits.base_le) (Nat.le_succ _) rfl
  | @call callee _ _ _ hlevel _ _ ihcallee ihoperands =>
    intro entered depth _
    rw [check]
    refine settles_deepen.bind fun base hbase => ?_
    obtain ⟨rfl, hle⟩ := hbase
    refine (ihcallee.before (by decide) (Nat.le_refl _) hlevel).bind fun first hfirst => ?_
    refine settles_deepen.bind fun _ hlinks => ?_
    refine (checkAll_fitsInside ihoperands hle).bind fun es hes => settles_pure ?_
    exact link_fits rfl rfl hfirst hle hes rfl rfl rfl fun _ => hlinks.1 ▸ hlinks.2
  | index _ hlevel _ _ ihobject ihkey =>
    intro entered depth _
    rw [check]
    refine settles_deepen.bind fun base hbase => ?_
    obtain ⟨rfl, hle⟩ := hbase
    refine (ihobject.before (by decide) (Nat.le_refl _) hlevel).bind fun first hfirst => ?_
    refine settles_deepen.bind fun _ hlinks => ?_
    refine (ihkey.inside (Nat.zero_le _)).bind fun key hkey => settles_pure ?_
    exact link_fits rfl rfl hfirst hle hkey rfl rfl rfl fun _ => hlinks.1 ▸ hlinks.2
  | member _ hlevel _ _ ihobject =>
    intro entered depth _
    rw [check]
    refine settles_deepen.bind fun base hbase => ?_
    obtain ⟨rfl, hle⟩ := hbase
    refine (ihobject.before (by decide) (Nat.le_refl _) hlevel).bind fun first hfirst => ?_
    refine settles_deepen.bind fun _ hlinks => settles_pure ?_
    exact link_fits rfl rfl hfirst hle (Expression.fitsInside_zero hle) (by rw [Nat.max_zero]; rfl)
      (by rw [Nat.max_zero]; rfl) rfl fun _ => hlinks.1 ▸ hlinks.2
  | unary _ _ hlevel ih =>
    intro entered depth _
    rw [check]
    refine settles_deepen.bind fun base hbase => ?_
    obtain ⟨rfl, hle⟩ := hbase
    refine (ih.before (by decide) (by decide) hlevel).bind fun first hfirst => ?_
    have hnone := Expression.fitsInside_zero hle
    dsimp only
    -- only the first one of several operators looks at how many there are
    split
    · refine settles_deepen.bind fun _ hlinks => settles_pure ?_
      exact link_fits rfl rfl hfirst hle hnone (by rw [Nat.max_zero]; rfl)
        (by rw [Nat.max_zero]; rfl) rfl fun _ => hlinks.1 ▸ hlinks.2
    · rename_i hentered
      exact settles_pure (link_fits rfl rfl hfirst hle hnone (by rw [Nat.max_zero]; rfl)
        (by rw [Nat.max_zero]; rfl) rfl fun h => absurd h hentered)
  | @binary left _ operator _ _ hleftLevel _ _ hrightLevel ihleft ihright =>
    intro entered depth _
    have hlow : Level.conditional < operator.level := by cases operator <;> decide
    have hhigh : operator.level ≤ Level.suffixed := by cases operator <;> decide
    rw [check]
    refine settles_deepen.bind fun base hbase => ?_
    obtain ⟨rfl, hle⟩ := hbase
    refine (ihleft.before hlow hhigh hleftLevel).bind fun first hfirst => ?_
    refine settles_deepen.bind fun _ hlinks => ?_
    refine (ihright.inside (Nat.le_trans hrightLevel (level_le_rank _))).bind fun right hright => ?_
    refine settles_pure ?_
    exact link_fits rfl rfl hfirst hle hright rfl rfl rfl fun _ => hlinks.1 ▸ hlinks.2
  | conditional _ hlevel _ _ ihtest ihyes ihno =>
    intro entered depth _
    rw [check]
    refine settles_deepen.bind fun base hbase => ?_
    obtain ⟨rfl, hle⟩ := hbase
    refine (ihtest.inside (Nat.le_trans hlevel (level_le_rank _))).bind fun test htest => ?_
    refine (ihyes.inside (assignment_le_rank _)).bind fun yes hyes => ?_
    refine (ihno.inside (assignment_le_rank _)).bind fun no hno => settles_pure ⟨fun _ => ?_, nofun⟩
    exact (htest.max (hyes.max hno)).fits hle (Nat.le_refl _) rfl
  | assign _ hlevel _ ihtarget ihvalue =>
    intro entered depth _
    rw [check]
    refine settles_deepen.bind fun base hbase => ?_
    obtain ⟨rfl, hle⟩ := hbase
    refine (ihtarget.inside (Nat.le_trans hlevel (level_le_rank _))).bind fun target htarget => ?_
    dsimp only
    split
    · trivial
    · refine (ihvalue.inside (assignment_le_rank _)).bind fun value hvalue => ?_
      refine settles_pure ⟨fun _ => ?_, nofun⟩
      exact (htarget.max hvalue).fits hle (Nat.le_refl _) rfl

end

end Phrase

/-! ## Programs -/

/-- The bound on the nesting of expressions bounds the height of their trees, up to the links that
    continue a chain; and no tree is higher than half the square of the bound. -/
theorem Program.height_le {t : Text} {program : Program} (hparse : Program.parse t = .ok program) :
    ∀ c ∈ program, c.Everywhere (fun e => e.height ≤ maxDepth + e.continued ∧
      2 * e.height ≤ maxDepth * (maxDepth + 1)) (fun _ => True) (fun _ => True) fun _ => True := by
  have hcarried : IsCarried (LineIndex.ofText t) (fun _ => True) (fun _ => True)
      (fun e => e.height ≤ maxDepth + e.continued ∧ 2 * e.height ≤ maxDepth * (maxDepth + 1))
      fun _ => True := by
    refine ⟨fun p hp entered hentered => ?_, fun _ _ => trivial, fun _ _ _ => trivial⟩
    have hrank : entered ≤ p.rank := Nat.le_trans hentered p.assignment_le_rank
    refine (hp.hasHeight.inside hrank).mono fun found hfound => ?_
    obtain ⟨hnear, hfar⟩ := hfound
    have htriangle := two_mul_triangle maxDepth
    rw [Nat.sub_zero] at hfar
    exact ⟨by omega, by omega⟩
  exact Program.parse_everywhere (I := fun _ => True) ⟨fun _ _ _ => trivial,
    fun _ _ _ _ _ _ => trivial⟩ (fun _ _ _ _ => trivial) trivial hcarried hparse

/-! ## A sum whose first term is a product -/

open Reader Grammar

/-- A product of names with `n` operators. -/
def longProduct (n : Nat) : Text := 'a' :: (List.replicate n (text " * a")).flatten

/-- A sum of names with `m` operators, whose first term is a product with `n` operators. -/
def longSum (n m : Nat) : Text := longProduct n ++ (List.replicate m (text " + a")).flatten

/-- A chain of operators with names on their right. -/
inductive Phrase.IsChain (operator : BinaryOperator) (P : Phrase → Prop) : Nat → Phrase → Prop where
  | first {p : Phrase} (hp : P p) : IsChain operator P 0 p
  | link {n : Nat} {p : Phrase} {place start : Nat} (hp : IsChain operator P n p) :
    IsChain operator P (n + 1) (.binary p place operator (.identifier start ['a']))

/-- The phrase is the name. -/
def Phrase.IsName (p : Phrase) : Prop := ∃ start, p = .identifier start ['a']

/-- The phrase becomes an expression of a height, of no chain of the level, with `room` left. -/
def Phrase.Reaches (level : Level) (room height : Nat) (p : Phrase) : Prop :=
  ∀ index entered depth, depth + room ≤ maxDepth →
    ∃ e links, p.check index entered depth = .ok (e, links) ∧ e.height = height ∧
      linksAt level p links = 0

section

variable {operator : BinaryOperator} {P : Phrase → Prop} {index : LineIndex} {n room height : Nat}
  {p : Phrase}

theorem deepen_eq_ok {offset depth levels : Nat} (h : depth + levels ≤ maxDepth) :
    deepen index offset depth levels = .ok (depth + levels) := by
  rw [deepen, if_neg (Nat.not_lt.2 h)]

theorem Phrase.IsName.reaches (h : p.IsName) {level : Level} (hlevel : level < Level.atom) :
    p.Reaches level 12 1 := by
  obtain ⟨start, rfl⟩ := h
  intro index entered depth hroom
  have hdeepen : deepen index start depth (Level.atom + 1 - entered)
      = .ok (depth + (Level.atom + 1 - entered)) :=
    deepen_eq_ok (Nat.le_trans (Nat.add_le_add_left (Nat.sub_le _ entered) depth) hroom)
  refine ⟨.identifier (index.position start) ['a'], 0, ?_, rfl, ?_⟩
  · rw [Phrase.check, hdeepen]
    rfl
  · rw [linksAt, if_neg]
    exact fun heq => absurd hlevel (heq ▸ Nat.lt_irrefl _)

/-- The links of a chain are counted from where the chain begins, and each of them makes the tree
    higher. -/
theorem Phrase.IsChain.check_eq (h : p.IsChain operator P n)
    (hP : ∀ p, P p → p.Reaches operator.level room height) (hheight : 1 ≤ height)
    (index : LineIndex) (entered : Level) (depth : Nat)
    (hroom : depth + (operator.level + 1 - entered) + max n (max room 12) ≤ maxDepth) :
    ∃ e links, p.check index entered depth = .ok (e, links) ∧ e.height = height + n ∧
      linksAt operator.level p links = n := by
  -- a link adds one to the height and one to the links that are counted
  induction h generalizing entered depth with
  | first hp => exact hP _ hp index entered depth (by omega)
  | @link n p place start _ ih =>
    obtain ⟨e, links, hcheck, he, hlinks⟩ := ih (operator.level + 1)
      (depth + (operator.level + 1 - entered)) (by rw [Nat.sub_self]; omega)
    have hname : (Phrase.identifier start ['a']).Reaches 3 12 1 :=
      Phrase.IsName.reaches ⟨start, rfl⟩ (by decide)
    obtain ⟨f, _, hright, hf, -⟩ := hname index (operator.level + 1)
      (depth + (operator.level + 1 - entered)) (by omega)
    refine ⟨.binary e.position operator e f, n + 1, ?_, ?_, ?_⟩
    · rw [Phrase.check]
      simp only [deepen_eq_ok (show depth + (operator.level + 1 - entered) ≤ maxDepth by omega),
        bind, Except.bind, hcheck, hlinks,
        deepen_eq_ok (show depth + (operator.level + 1 - entered) + (n + 1) ≤ maxDepth by omega),
        hright]
      rfl
    · rw [Expression.height, he, hf]
      omega
    · exact if_pos rfl

/-- A product is no sum, however long it is. -/
theorem Phrase.IsChain.reaches_product (h : p.IsChain .multiply Phrase.IsName n) :
    p.Reaches BinaryOperator.add.level (max n 12 + 9) (n + 1) := by
  intro index entered depth hroom
  have hname (p : Phrase) (hp : p.IsName) : p.Reaches BinaryOperator.multiply.level 12 1 :=
    hp.reaches (by decide)
  have hleft : depth + (9 - entered) + max n (max 12 12) ≤ maxDepth := by omega
  obtain ⟨e, links, hcheck, he, -⟩ := h.check_eq hname (Nat.le_refl 1) index entered depth
    hleft
  refine ⟨e, links, hcheck, by omega, ?_⟩
  have hne : p.level ≠ BinaryOperator.add.level := by
    cases h with
    | first hp =>
      obtain ⟨start, rfl⟩ := hp
      exact show (11 : Nat) ≠ 7 by decide
    | link => exact show (8 : Nat) ≠ 7 by decide
  rw [linksAt, if_neg hne]

/-! ### How it is read -/

variable {fuel : Nat} {self : Reader Phrase} {t : Text}

theorem isIdentifier_a : IsIdentifier ['a'] :=
  ⟨⟨'a', [], rfl, rfl⟩, List.all_eq_true.1 rfl, by decide⟩

theorem reads_name (ht : EndsOperand t) :
    Reads (unary fuel self) ('a' :: t) Phrase.IsName (skip t) :=
  ht.reads_unary (isIdentifier_a.unaryOperator? ht.word)
    (isIdentifier_a.reads_primary ht.word fun start => ⟨start, rfl⟩)

theorem leads_product (n : Nat) (ht : EndsOperand t) :
    Leads (unary fuel self) (link 8 (unary fuel self)) (longProduct n) t
      (Phrase.IsChain .multiply Phrase.IsName n) := by
  induction n generalizing t with
  | zero => exact ((reads_name ht).mono fun p hp => .first hp).leads
  | succ n ih =>
    -- a factor more goes to the end of the product
    have hlonger : longProduct (n + 1) = longProduct n ++ text " * a" := by
      simp [longProduct, List.replicate_succ']
    have hbefore : EndsOperand (text " * a" ++ t) := endsOperand_space rfl (by decide) _
    rw [hlonger]
    refine (ih hbefore).append (by decide) fun p hp => ?_
    have hfactor : Reads (unary fuel self) (skip ('a' :: t)) Phrase.IsName (skip t) := reads_name ht
    exact reads_operator .multiply hfactor fun _ _ ⟨_, hq⟩ => hq ▸ .link hp

theorem reads_product (n : Nat) (hfuel : (longProduct n).length ≤ fuel) (ht : EndsOperand t)
    (hnone : Token.binaryOperator? 8 (skip t) = none) :
    Reads (chain fuel 8 (unary fuel self)) (longProduct n ++ t)
      (Phrase.IsChain .multiply Phrase.IsName n) (skip t) :=
  ((leads_product n ht).reads (fun p => fails_operator p hnone) hfuel).part

theorem leads_sum (n m : Nat) (hfuel : (longProduct n).length ≤ fuel) (ht : EndsOperand t)
    (hnone : Token.binaryOperator? 8 (skip t) = none) :
    Leads (chain fuel 8 (unary fuel self)) (link 7 (chain fuel 8 (unary fuel self))) (longSum n m) t
      (Phrase.IsChain .add (Phrase.IsChain .multiply Phrase.IsName n) m) := by
  induction m generalizing t with
  | zero =>
    have hproduct : longSum n 0 = longProduct n := List.append_nil _
    rw [hproduct]
    exact ((reads_product n hfuel ht hnone).mono fun p hp => .first hp).leads
  | succ m ih =>
    -- the chain grows at its end, as it is read
    have hlonger : longSum n (m + 1) = longSum n m ++ text " + a" := by
      simp [longSum, List.replicate_succ']
    have hbefore : EndsOperand (text " + a" ++ t) := endsOperand_space rfl (by decide) _
    rw [hlonger]
    refine (ih hbefore rfl).append (by decide) fun p hp => ?_
    have hterm : Reads (chain fuel 8 (unary fuel self)) (skip ('a' :: t)) Phrase.IsName (skip t) :=
      reads_chain (reads_name ht) hnone
    exact reads_operator .add hterm fun _ _ ⟨_, hq⟩ => hq ▸ .link hp

end

theorem wordStart_longSum (n m : Nat) : wordStart (longSum n m ++ [';']) = ['a'] := by
  have hends : EndsWord ((List.replicate n (text " * a")).flatten ++
      ((List.replicate m (text " + a")).flatten ++ [';'])) := by
    cases n with
    | succ => exact endsWord_cons rfl _
    | zero =>
      cases m with
      | succ => exact endsWord_cons rfl _
      | zero => exact endsWord_cons rfl _
  have hword := isIdentifier_a.wordStart hends
  rwa [longSum, longProduct, List.append_assoc]

/-- A long sum is read as one phrase. -/
theorem read_longSum (n m : Nat) : ∃ p, read (longSum n m ++ [';']) = .ok [.expression p] ∧
    p.IsChain .add (Phrase.IsChain .multiply Phrase.IsName n) m := by
  -- the fuel of the readers comes from the length of the text
  obtain ⟨depth, hdepth⟩ : ∃ depth, (longSum n m ++ [';']).length = depth := ⟨_, rfl⟩
  have hlength : (longSum n m).length + 1 = depth := by simpa using hdepth
  have hproduct : (longProduct n).length ≤ (longSum n m).length := by simp [longSum]
  have hsum : Reads (binary (depth + 1) (phrase (depth + 1) depth)) (longSum n m ++ [';'])
      (Phrase.IsChain .add (Phrase.IsChain .multiply Phrase.IsName n) m) [';'] := by
    have hends : EndsOperand [';'] := (endsPhrase_closer (by decide) []).toEndsOperand
    refine reads_chains [3, 4, 5, 6] ?_ (by decide)
    exact ((leads_sum n m (by omega) hends rfl).reads (fun p => fails_operator p rfl) (by omega)).part
  have hsentence : Reads (statement (depth + 1) (depth + 1)) (longSum n m ++ [';'])
      (fun s => ∃ p, s = .expression p ∧
        p.IsChain .add (Phrase.IsChain .multiply Phrase.IsName n) m) [] := by
    refine reads_expression (reads_phrase_closer (by decide) hsum) ?_ ?_
    · rintro _ ⟨⟩
      decide
    · rw [wordStart_longSum]
      decide
  have hall : ReadsAll (statement (depth + 1) (depth + 1)) (fun (_ : Unit) s => ∃ p, s = .expression p ∧
      p.IsChain .add (Phrase.IsChain .multiply Phrase.IsName n) m) (longSum n m ++ [';']) [()] [] :=
    .cons hsentence (.nil (fails_statement_nil _))
  rw [← hdepth] at hall
  have hskip : skip (longSum n m ++ [';']) = longSum n m ++ [';'] :=
    skip_cons_of_isIdentifierChar rfl _
  obtain ⟨ss, hread, hss⟩ := read_eq_ok hskip hall (by simp)
  obtain ⟨s, rest, ⟨p, rfl, hp⟩, hrest, rfl⟩ := List.forall₂_cons_left_iff.1 hss
  obtain rfl := List.forall₂_nil_left_iff.1 hrest
  exact ⟨p, hread, hp⟩

/-- A long sum is parsed as one statement, if none of its chains is too long by itself. Its tree is as
    high as both chains together. -/
theorem Program.parse_longSum {n m : Nat} (hn : n + 20 ≤ maxDepth) (hm : m + 10 ≤ maxDepth) :
    ∃ e, Program.parse (longSum n m ++ [';']) = .ok [.expression e] ∧ e.height = n + m + 1 := by
  obtain ⟨p, hread, hp⟩ := read_longSum n m
  have hproduct (p : Phrase) (hp : p.IsChain .multiply Phrase.IsName n) := hp.reaches_product
  have hroom : 0 + (8 - 0) + max m (max (max n 12 + 9) 12) ≤ maxDepth := by
    unfold maxDepth at *
    omega
  obtain ⟨e, links, hcheck, he, -⟩ := hp.check_eq hproduct (Nat.succ_pos n)
    (LineIndex.ofText (longSum n m ++ [';'])) 0 0 hroom
  refine ⟨e, ?_, by omega⟩
  rw [Program.parse_of_read hread]
  simp only [Statement.checkAll, Statement.check, Phrase.checkWhole, bind, Except.bind, hcheck]
  rfl

/-- The bounds at a sum whose first term is a product: the tree is higher than the nesting that is
    allowed, by links that continue the chain of the product or that of the sum. -/
theorem Program.height_le_longSum :
    ∃ e, Program.parse (longSum 1500 1500 ++ [';']) = .ok [.expression e] ∧
      e.height = 3001 ∧ e.height ≤ maxDepth + e.continued := by
  obtain ⟨e, hparse, hheight⟩ := Program.parse_longSum (n := 1500) (m := 1500) (by decide) (by decide)
  refine ⟨e, hparse, hheight, ?_⟩
  cases Program.height_le hparse _ List.mem_cons_self with
  | expression he => exact he.1

/-- Two chains that are short enough make a tree that is too high. -/
theorem Program.maxDepth_lt_height :
    ∃ e, Program.parse (longSum 1500 1500 ++ [';']) = .ok [.expression e] ∧ maxDepth < e.height := by
  obtain ⟨e, hparse, hheight⟩ := Program.parse_longSum (n := 1500) (m := 1500) (by decide) (by decide)
  exact ⟨e, hparse, by rw [hheight]; decide⟩

end Pseudocode.Script
