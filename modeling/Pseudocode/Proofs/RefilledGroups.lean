import Pseudocode.Proofs.RefilledShapes

/-!
# Bracketed groups around a literal

Groups in square brackets take any text inside, literals or not, and of all places where they can end they end
at the first one. One exception is a bracket directly behind an opening one, which may be the first character
of a group. So where no pair of brackets is empty, a literal behind the groups does not matter to them, and
with other contents for a literal inside they end where they ended before, or else in the literal.

* `AreGroups`         groups up to the first bracket that can end them
* `brackets_split`    what is read are such groups
* `brackets_behind`   a literal behind the groups
* `brackets_refill`   a literal in the groups
-/

namespace Pseudocode.Shape

open Expression

variable {β : Type} {F : Refill} {inner : Char → Bool} {next : Text → Option β} {g k m r r' t u : Text} {b : β}
  {c : Char}

/-- A group begins with white space, a bracket and a character inside. -/
theorem groupStart_split (h : groupStart inner next t = some (g, b)) : ∃ k c g' t',
    (∀ x ∈ k, Text.isBlank x = true) ∧ inner c = true ∧ groupRest inner next t' = some (g', b) ∧
      t = k ++ '[' :: c :: t' ∧ g = k ++ '[' :: c :: g' := by
  -- blanks are taken off one by one, up to the bracket
  induction t generalizing g with
  | nil => cases h
  | cons x t ih =>
    rw [groupStart] at h
    split at h
    · next hx =>
      simp only [Option.map_eq_some_iff, Prod.mk.injEq, Prod.exists] at h
      obtain ⟨g, b, hfirst, rfl, rfl⟩ := h
      cases t with
      | nil => cases hfirst
      | cons c t =>
        rw [groupFirst] at hfirst
        split at hfirst
        · next hc =>
          simp only [Option.map_eq_some_iff, Prod.mk.injEq, Prod.exists] at hfirst
          obtain ⟨g, b, hrest, rfl, rfl⟩ := hfirst
          exact ⟨[], c, g, t, by simp, hc, hrest, by rw [hx]; rfl, by rw [hx]; rfl⟩
        · cases hfirst
    · split at h
      · next hx =>
        simp only [Option.map_eq_some_iff, Prod.mk.injEq, Prod.exists] at h
        obtain ⟨g, b, hstart, rfl, rfl⟩ := h
        obtain ⟨k, c, g, t, hk, hc, hrest, rfl, rfl⟩ := ih hstart
        exact ⟨x :: k, c, g, t, List.forall_mem_cons.2 ⟨hx, hk⟩, hc, hrest, rfl, rfl⟩
      · cases h

theorem groupStart_append (hk : ∀ x ∈ k, Text.isBlank x = true) (hc : inner c = true)
    (h : groupRest inner next t = some (g, b)) :
    groupStart inner next (k ++ '[' :: c :: t) = some (k ++ '[' :: c :: g, b) := by
  induction k with
  | nil => rw [List.nil_append, groupStart, if_pos rfl, groupFirst, if_pos hc, h]; rfl
  | cons x k ih =>
    obtain ⟨hx, hk⟩ := List.forall_mem_cons.1 hk
    have hbracket : x ≠ '[' := by
      rintro rfl
      exact absurd hx (by decide)
    rw [List.cons_append, groupStart, if_neg hbracket, if_pos hx, ih hk]
    rfl

/-- Wherever the rest can be read behind a closing bracket, a group can end. -/
theorem isSome_groupRest (hm : ∀ c ∈ m, inner c = true) (h : (next r).isSome = true) :
    (groupRest inner next (m ++ ']' :: r)).isSome = true := by
  induction m with
  | nil => simp [groupRest, h]
  | cons c m ih =>
    obtain ⟨hc, hm⟩ := List.forall_mem_cons.1 hm
    simp [groupRest, hc, ih hm]

/-- With `r` behind them, the groups `g` could not have ended at an earlier closing bracket. One directly
    behind an opening bracket need not count, because it may be the first character of a group. -/
def EndsFirst (next : Text → Option β) (g r : Text) : Prop :=
  ∀ m m', g = m ++ ']' :: m' → m' ≠ [] → m.getLast? ≠ some '[' → next (m' ++ r) = none

theorem endsFirst_singleton (c : Char) (r : Text) : EndsFirst next [c] r := by
  intro m m' hcut hne _
  have hlength := congrArg List.length hcut
  have hpos := List.length_pos_iff.2 hne
  simp only [List.length_append, List.length_cons, List.length_nil] at hlength
  omega

theorem EndsFirst.cons (h : EndsFirst next g r) (hc : c = ']' → next (g ++ r) = none) :
    EndsFirst next (c :: g) r := by
  intro m m' hcut hne hlast
  cases m with
  | nil =>
    obtain ⟨hclosing, rfl⟩ := List.cons.inj hcut
    exact hc hclosing
  | cons d m =>
    refine h m m' (List.cons.inj hcut).2 hne fun hlast' => hlast ?_
    rw [List.getLast?_cons, hlast']
    rfl

/-- The first character of a group does not end it. -/
theorem EndsFirst.group (h : EndsFirst next g r) (hk : ∀ x ∈ k, Text.isBlank x = true) :
    EndsFirst next (k ++ '[' :: c :: g) r := by
  have hfront : ']' ∉ k ++ ['['] := by
    intro hmem
    rcases List.mem_append.1 hmem with hmem | hmem
    · exact absurd (hk _ hmem) (by decide)
    · exact absurd hmem (by decide)
  intro m m' hcut hne hlast
  have hcut' : (k ++ ['[']) ++ c :: g = m ++ ']' :: m' := by rw [← hcut, List.append_assoc]; rfl
  -- no bracket closes before `g`, so the first that does stands in it
  rcases List.append_eq_append_iff.1 hcut' with ⟨s, rfl, hs⟩ | ⟨s, hs, hs'⟩
  · cases s with
    | nil => simp at hlast
    | cons d s =>
      refine h s m' (List.cons.inj hs).2 hne fun hlast' => hlast ?_
      rw [List.getLast?_append, List.getLast?_cons, hlast']
      rfl
  · cases s with
    | nil =>
      rw [List.append_nil] at hs
      simp [← hs] at hlast
    | cons d s =>
      obtain rfl := (List.cons.inj hs').1
      exact absurd (hs ▸ List.mem_append_right m List.mem_cons_self) hfront

/-- The text of one or more groups, as far as its ends show it. -/
def IsGrouped (g : Text) : Prop :=
  ∃ k c m, (∀ x ∈ k, Text.isBlank x = true) ∧ g = k ++ '[' :: c :: (m ++ [']'])

/-- Groups `g` in front of `r`, which `next` reads. -/
structure AreGroups (inner : Char → Bool) (next : Text → Option β) (g r : Text) (b : β) : Prop where
  form : g = [] ∨ IsGrouped g
  inside : ∀ c ∈ g, inner c = true
  read : next r = some b
  first : EndsFirst next g r

/-- A literal does not reach the ends of a group. -/
theorem IsGrouped.refill {g' : Text} (h : IsGrouped g) (hat : F.At u g g') : IsGrouped g' := by
  obtain ⟨k, c, m, hk, rfl⟩ := h
  have hfront : ∀ x ∈ k ++ ['['], isQuote x = false := by
    intro x hx
    rcases List.mem_append.1 hx with hx | hx
    · exact (isNeutral_of_isBlank (hk x hx)).1
    · rw [List.mem_singleton.1 hx]
      rfl
  have hcut : k ++ '[' :: c :: (m ++ [']']) = (k ++ ['[']) ++ ((c :: m) ++ [']']) := by simp
  rw [hcut] at hat
  obtain ⟨u, r, -, rfl, hrest⟩ := hat.append_inv hfront
  obtain ⟨m', rfl, hinside⟩ := hrest.concat_inv (by rfl)
  obtain ⟨c', m', rfl⟩ := List.exists_cons_of_ne_nil (List.ne_nil_of_mem hinside.mem.2)
  exact ⟨k, c', m', hk, by simp⟩

theorem IsGrouped.isSome_groupStart (h : IsGrouped g) (hg : ∀ c ∈ g, inner c = true)
    (hread : (next r).isSome = true) : (groupStart inner next (g ++ r)).isSome = true := by
  obtain ⟨k, c, m, hk, rfl⟩ := h
  have hm : ∀ x ∈ m, inner x = true := fun x hx => hg x (by simp [hx])
  obtain ⟨⟨g', b'⟩, hrest⟩ := Option.isSome_iff_exists.1 (isSome_groupRest hm hread)
  have happend : k ++ '[' :: c :: (m ++ [']']) ++ r = k ++ '[' :: c :: (m ++ ']' :: r) := by simp
  rw [happend, groupStart_append hk (hg c (by simp)) hrest]
  rfl

theorem isSome_brackets (h : g = [] ∨ IsGrouped g) (hg : ∀ c ∈ g, inner c = true)
    (hread : (next r).isSome = true) : (brackets inner next (g ++ r)).isSome = true := by
  rw [brackets, Option.orElse_eq_orElse, Option.orElse_eq_or, Option.isSome_or, Bool.or_eq_true]
  rcases h with rfl | h
  · exact .inr (by simpa using hread)
  · exact .inl (h.isSome_groupStart hg hread)

/-- An empty index stands nowhere in the text. -/
def HasNoEmptyIndex (t : Text) : Prop := ¬ ['[', ']'] <:+: t

theorem HasNoEmptyIndex.mono (h : HasNoEmptyIndex t) (hs : u <:+: t) : HasNoEmptyIndex u :=
  fun hempty => h (hempty.trans hs)

theorem HasNoEmptyIndex.getLast?_ne (h : HasNoEmptyIndex (m ++ [']'])) : m.getLast? ≠ some '[' := by
  intro hlast
  obtain ⟨m, rfl⟩ := List.getLast?_eq_some_iff.1 hlast
  exact h ⟨m, [], by simp⟩

/-- Groups that end in a closing bracket, and not directly behind an opening one. -/
def EndsApart (g : Text) : Prop := g = [] ∨ ∃ m, g = m ++ [']'] ∧ m.getLast? ≠ some '['

theorem endsApart_of_form (h : g = [] ∨ IsGrouped g) (hempty : HasNoEmptyIndex g) : EndsApart g := by
  rcases h with rfl | ⟨k, c, m, -, rfl⟩
  · exact .inl rfl
  · have hcut : k ++ '[' :: c :: (m ++ [']']) = (k ++ '[' :: c :: m) ++ [']'] := by simp
    rw [hcut] at hempty ⊢
    exact .inr ⟨_, rfl, hempty.getLast?_ne⟩

/-- The same with a literal in the groups, where only what stands behind the literal matters. -/
theorem endsApart_of_literal {w v : Text} (h : IsGrouped (u ++ F.quote :: (w ++ F.quote :: v)))
    (hempty : HasNoEmptyIndex v) : EndsApart (u ++ F.quote :: (w ++ F.quote :: v)) := by
  obtain ⟨k, c, m, -, hends⟩ := h
  have hlast : (u ++ F.quote :: (w ++ F.quote :: v)).getLast? = some ']' := by
    rw [hends]
    simp [List.getLast?_cons]
  -- a quote is no bracket, so the one that closes stands behind the literal
  have hquote : F.quote ≠ ']' ∧ F.quote ≠ '[' := by
    have hopens := F.opens
    refine ⟨fun heq => ?_, fun heq => ?_⟩ <;> rw [heq] at hopens <;> cases hopens
  rcases List.eq_nil_or_concat v with rfl | ⟨v, d, rfl⟩
  · simp [List.getLast?_append, List.getLast?_cons] at hlast
    exact absurd hlast hquote.1
  · rw [List.concat_eq_append] at hempty hlast ⊢
    obtain rfl : d = ']' := by simpa [List.getLast?_append, List.getLast?_cons] using hlast
    refine .inr ⟨u ++ F.quote :: (w ++ F.quote :: v), by simp, fun hbefore => ?_⟩
    rcases List.eq_nil_or_concat v with rfl | ⟨v, e, rfl⟩
    · simp [List.getLast?_append, List.getLast?_cons] at hbefore
      exact hquote.2 hbefore
    · apply hempty.getLast?_ne
      simpa [List.getLast?_append, List.getLast?_cons] using hbefore

theorem inside_group (hinner : ∀ x ∈ k ++ '[' :: c :: g, Text.isBlank x = true ∨ x ∈ ['[', ']'] → inner x = true)
    (hk : ∀ x ∈ k, Text.isBlank x = true) (hc : inner c = true) (hg : ∀ x ∈ g, inner x = true) :
    ∀ x ∈ k ++ '[' :: c :: g, inner x = true := by
  intro x hx
  rcases List.mem_append.1 hx with hblank | hgroup
  · exact hinner x hx (.inl (hk x hblank))
  · rcases List.mem_cons.1 hgroup with rfl | hgroup
    · exact hinner '[' hx (.inr (by simp))
    · rcases List.mem_cons.1 hgroup with rfl | hgroup
      · exact hc
      · exact hg x hgroup

variable (hapart : ∀ t y, groupStart inner next t = some y → next t = none)

include hapart

/-- What is read from inside of a group on. -/
theorem groupRest_split (hinner : ∀ c ∈ t, Text.isBlank c = true ∨ c ∈ ['[', ']'] → inner c = true)
    (h : groupRest inner next t = some (g, b)) : ∃ m r, g = m ++ [']'] ∧ t = g ++ r ∧
      (∀ c ∈ g, inner c = true) ∧ next r = some b ∧ EndsFirst next g r := by
  -- a group that opens behind a bracket is read from its second character on, so the induction is on the length
  induction hlength : t.length using Nat.strong_induction_on generalizing t g b with
  | h n ih =>
  cases t with
  | nil => cases h
  | cons c t =>
    have hlt : t.length < n := by rw [← hlength]; exact Nat.lt_succ_self _
    obtain ⟨hc, hinner⟩ := List.forall_mem_cons.1 hinner
    rw [groupRest, Option.orElse_eq_orElse, Option.orElse_eq_or, Option.or_eq_some_iff] at h
    rcases h with hends | ⟨hnone, hinside⟩
    · split at hends
      · next hbracket =>
        have hclosing : inner c = true := hc (.inr (by simp [hbracket]))
        rw [Option.orElse_eq_or, Option.or_eq_some_iff] at hends
        rcases hends with hopens | ⟨-, hread⟩
        · -- another group opens
          simp only [Option.map_eq_some_iff, Prod.mk.injEq, Prod.exists] at hopens
          obtain ⟨g, b, hstart, rfl, rfl⟩ := hopens
          have hnext := hapart t _ hstart
          obtain ⟨k, d, g, t, hk, hd, hrest, rfl, rfl⟩ := groupStart_split hstart
          have hshorter : t.length < n := by
            simp only [List.length_append, List.length_cons] at hlt
            omega
          obtain ⟨m, r, rfl, rfl, hg, hr, hfirst⟩ := ih _ hshorter (fun x hx => hinner x (by simp [hx])) hrest rfl
          refine ⟨c :: (k ++ '[' :: d :: m), r, by simp, by simp, ?_, hr, (hfirst.group hk).cons fun _ => ?_⟩
          · refine List.forall_mem_cons.2 ⟨hclosing, inside_group (fun x hx => hinner x ?_) hk hd hg⟩
            simpa [or_assoc] using List.mem_append_left r hx
          · simpa using hnext
        · simp only [Option.map_eq_some_iff, Prod.mk.injEq] at hread
          obtain ⟨b, hread, rfl, rfl⟩ := hread
          exact ⟨[], t, by rw [hbracket]; rfl, rfl, by simpa using hclosing, hread, endsFirst_singleton c t⟩
      · cases hends
    · split at hinside
      · next hc =>
        -- one character more inside, where the groups do not end
        simp only [Option.map_eq_some_iff, Prod.mk.injEq, Prod.exists] at hinside
        obtain ⟨g, b, hrest, rfl, rfl⟩ := hinside
        obtain ⟨m, r, rfl, rfl, hg, hr, hfirst⟩ := ih _ hlt hinner hrest rfl
        refine ⟨c :: m, r, rfl, rfl, List.forall_mem_cons.2 ⟨hc, hg⟩, hr, hfirst.cons fun hclosing => ?_⟩
        rw [if_pos hclosing, Option.orElse_eq_or, Option.or_eq_none_iff] at hnone
        exact Option.map_eq_none_iff.1 hnone.2
      · cases hinside

theorem brackets_split (hinner : ∀ c ∈ t, Text.isBlank c = true ∨ c ∈ ['[', ']'] → inner c = true)
    (h : brackets inner next t = some (g, b)) : ∃ r, t = g ++ r ∧ AreGroups inner next g r b := by
  rw [brackets, Option.orElse_eq_orElse, Option.orElse_eq_or, Option.or_eq_some_iff] at h
  rcases h with hstart | ⟨-, hread⟩
  · obtain ⟨k, c, g, t, hk, hc, hrest, rfl, rfl⟩ := groupStart_split hstart
    obtain ⟨m, r, rfl, rfl, hg, hr, hfirst⟩ := groupRest_split hapart (fun x hx => hinner x (by simp [hx])) hrest
    refine ⟨r, by simp, .inr ⟨k, c, m, hk, rfl⟩, inside_group (fun x hx => hinner x ?_) hk hc hg, hr,
      hfirst.group hk⟩
    simpa [or_assoc] using List.mem_append_left r hx
  · simp only [Option.map_eq_some_iff, Prod.mk.injEq] at hread
    obtain ⟨b, hread, rfl, rfl⟩ := hread
    refine ⟨t, rfl, .inl rfl, by simp, hread, fun m m' hcut => ?_⟩
    exact absurd hcut (by simp)

/-- Groups do not end behind a place where they could have ended. -/
theorem AreGroups.eq_nil {s : Text} (h : AreGroups inner next (g ++ s) r b) (hg : EndsApart g)
    (hread : (next (s ++ r)).isSome = true) : s = [] := by
  by_contra hs
  have hnone : next (s ++ r) = none := by
    rcases hg with rfl | ⟨m, rfl, hlast⟩
    · rw [List.nil_append] at h
      have hsome : (next r).isSome = true := by
        rw [h.read]
        rfl
      obtain ⟨y, hy⟩ := Option.isSome_iff_exists.1 ((h.form.resolve_left hs).isSome_groupStart h.inside hsome)
      exact hapart _ y hy
    · exact h.first m s (by rw [List.append_assoc]; rfl) hs hlast
  rw [hnone] at hread
  cases hread

variable (hinner : ∀ c, Text.isBlank c = true ∨ c ∈ ['[', ']'] → inner c = true)

include hinner

/-- A literal behind the groups does not matter to where they end. -/
theorem brackets_behind (h : brackets inner next (g ++ r) = some (g, b)) (hnext : F.Ignored next)
    (hline : '\n' ∉ g ++ r) (hat : F.At u r r') (hempty : HasNoEmptyIndex g) :
    ∃ b', next r' = some b' ∧ brackets inner next (g ++ r') = some (g, b') := by
  obtain ⟨_, hr, hgroups⟩ := brackets_split hapart (fun c _ => hinner c) h
  obtain rfl := List.append_cancel_left hr
  have hread : (next r').isSome = true := by
    rw [← hnext hat fun hmem => hline (List.mem_append_right g hmem), hgroups.read]
    rfl
  obtain ⟨⟨g₂, b₂⟩, hfound⟩ := Option.isSome_iff_exists.1 (isSome_brackets hgroups.form hgroups.inside hread)
  obtain ⟨r₂, hcut, hgroups₂⟩ := brackets_split hapart (fun c _ => hinner c) hfound
  suffices hsame : g₂ = g by
    rw [hsame] at hcut hfound
    exact ⟨b₂, List.append_cancel_left hcut ▸ hgroups₂.read, hfound⟩
  rcases List.append_eq_append_iff.1 hcut with ⟨s, rfl, rfl⟩ | ⟨s, rfl, rfl⟩
  · -- they cannot end later
    rw [hgroups₂.eq_nil hapart (endsApart_of_form hgroups.form hempty) hread, List.append_nil]
  · -- nor earlier, because then they would have done so with the old contents
    have hsome := hnext (hat.append s) fun hmem => hline (by rw [List.append_assoc]; exact List.mem_append_right _ hmem)
    rw [hgroups₂.read] at hsome
    have hapart₂ := endsApart_of_form hgroups₂.form (hempty.mono (List.prefix_append _ s).isInfix)
    rw [hgroups.eq_nil hapart hapart₂ hsome, List.append_nil]

/-- Groups with a literal end where they ended before it got other contents, or inside of the literal. -/
theorem brackets_refill {g' g₂ : Text} {b₂ : β} (h : brackets inner next (g ++ r) = some (g, b))
    (hnext : F.Ignored next) (hline : '\n' ∉ g ++ r) (hat : F.At u g g') (hempty : HasNoEmptyIndex g)
    (hfound : brackets inner next (g' ++ r) = some (g₂, b₂)) : g₂ = g' ∧ b₂ = b ∨
      ∃ w₁ w₂ z, F.contents = w₁ ++ w₂ ∧ g' ++ r = u ++ F.quote :: w₁ ++ (w₂ ++ F.quote :: z) ∧
        g₂ = u ++ F.quote :: w₁ ∧ next (w₂ ++ F.quote :: z) = some b₂ := by
  obtain ⟨_, hr, hgroups⟩ := brackets_split hapart (fun c _ => hinner c) h
  obtain rfl := List.append_cancel_left hr
  obtain ⟨r₂, hcut, hgroups₂⟩ := brackets_split hapart (fun c _ => hinner c) hfound
  have hform := hgroups.form.resolve_left (List.ne_nil_of_mem hat.mem.1)
  have hform' := hform.refill hat
  obtain ⟨v, rfl, rfl⟩ := hat
  rw [List.append_assoc, List.append_assoc, Refill.after_append] at hcut
  -- the groups end in front of the literal, in it, or behind it
  rcases append_eq_literal hcut.symm with ⟨s, rfl, rfl⟩ | ⟨w₁, w₂, hw, rfl, rfl⟩ | ⟨v₁, rfl, hv⟩
  · -- they cannot end in front of the literal, because then they would have done so before
    have hat : F.At s (s ++ (F.before ++ v) ++ r) (s ++ (F.after ++ v) ++ r) := Refill.At.behind ⟨v, rfl, rfl⟩ r
    have hsome := hnext hat fun hmem => hline (by
      simpa only [List.append_assoc] using List.mem_append_right g₂ hmem)
    have hafter : s ++ (F.after ++ v) ++ r = s ++ F.quote :: (F.contents ++ F.quote :: (v ++ r)) := by
      simp [Refill.after]
    rw [hafter, hgroups₂.read] at hsome
    rw [List.append_assoc] at hgroups hempty
    have hnil := hgroups.eq_nil hapart
      (endsApart_of_form hgroups₂.form (hempty.mono (List.prefix_append _ _).isInfix)) hsome
    simp [Refill.before] at hnil
  · exact .inr ⟨w₁, w₂, v ++ r, hw, by rw [Refill.after_append, hw]; simp, rfl, hgroups₂.read⟩
  · -- behind the literal the same text follows
    have hbehind : HasNoEmptyIndex v := hempty.mono ⟨u ++ F.before, [], by simp⟩
    rcases List.append_eq_append_iff.1 hv with ⟨s, rfl, rfl⟩ | ⟨s, rfl, rfl⟩
    · rw [Refill.after_append] at hform' ⊢
      have hlater : u ++ F.quote :: (F.contents ++ F.quote :: (v ++ s)) =
          u ++ F.quote :: (F.contents ++ F.quote :: v) ++ s := by simp
      rw [hlater] at hgroups₂
      have hsome : (next (s ++ r₂)).isSome = true := by
        rw [hgroups.read]
        rfl
      obtain rfl := hgroups₂.eq_nil hapart (endsApart_of_literal hform' hbehind) hsome
      have hread := hgroups.read
      rw [List.nil_append, hgroups₂.read] at hread
      rw [List.append_nil]
      exact .inl ⟨rfl, Option.some.inj hread⟩
    · have hform₂ : IsGrouped (u ++ F.quote :: (F.body ++ F.quote :: v₁)) := by
        rw [← Refill.after_append] at hgroups₂
        rw [← Refill.before_append]
        exact (hgroups₂.form.resolve_left (by simp [Refill.after])).refill
          (Refill.At.swap ⟨v₁, rfl, rfl⟩)
      have hlater : u ++ (F.before ++ (v₁ ++ s)) = u ++ F.quote :: (F.body ++ F.quote :: v₁) ++ s := by
        simp [Refill.before]
      rw [hlater] at hgroups
      have hsome : (next (s ++ r)).isSome = true := by
        rw [hgroups₂.read]
        rfl
      obtain rfl := hgroups.eq_nil hapart
        (endsApart_of_literal hform₂ (hbehind.mono (List.prefix_append v₁ s).isInfix)) hsome
      have hread := hgroups₂.read
      rw [List.nil_append, hgroups.read] at hread
      rw [List.append_nil, Refill.after_append]
      exact .inl ⟨rfl, (Option.some.inj hread).symm⟩

end Pseudocode.Shape
