import Mathlib.Logic.Relation
import Pseudocode.Proofs.Frames

/-!
# Scopes as nested environments

The scopes of a program are made one inside another and share their frames. Whatever is done to them,
in whatever order, they behave like nested environments: each has bindings of its own and lies inside
another one, and a name means what the nearest environment around it says.

* `Environments.IsNearest`     the nearest binding of a name
* `Environments.Allows`        what may be done to nested environments, and what comes of it
* `ScopeTree.allows_act`       what is done to scopes is what may be done to nested environments
* `ScopeTree.behaves_as_nested`  so scopes behave like nested environments, whatever is done to them
-/

namespace Pseudocode.Script

/-! ## What is done to scopes -/

/-- Something that is done to a tree of scopes. The scopes are numbered in the order in which they
    are made. -/
inductive ScopeAct where
  | child (scope : Nat)
  | declare (scope : Nat) (name : Text) (b : Binding)
  | define (scope : Nat) (name : Text) (value : Value)
  | assign (scope : Nat) (name : Text) (value : Value)
  | get (scope : Nat) (name : Text)
  | clear (scope : Nat)

/-- What comes back. -/
inductive ScopeReply where
  | made (scope : Nat)
  | done
  | refused (fault : ScopeFault)
  | found (value : Value)
  | missing

/-- The reply to something that may be refused. -/
def ScopeReply.ofFault? : Option ScopeFault → ScopeReply
  | none => done
  | some fault => refused fault

/-- The reply to a look-up. -/
def ScopeReply.ofValue? : Option Value → ScopeReply
  | none => missing
  | some value => found value

namespace ScopeAct

/-- The scope that something is done to. -/
def scope : ScopeAct → Nat
  | child s | declare s _ _ | define s _ _ | assign s _ _ | get s _ | clear s => s

/-- How many scopes there are afterwards. -/
def countAfter (count : Nat) : ScopeAct → Nat
  | child _ => count + 1
  | _ => count

/-- Only scopes that have been made are used. -/
def AreOnScopes : (count : Nat) → List ScopeAct → Prop
  | _, [] => True
  | count, a :: acts => a.scope < count ∧ AreOnScopes (a.countAfter count) acts

instance decidableAreOnScopes : (count : Nat) → (acts : List ScopeAct) →
    Decidable (AreOnScopes count acts)
  | _, [] => inferInstanceAs (Decidable True)
  | count, a :: acts =>
    have := decidableAreOnScopes (a.countAfter count) acts
    inferInstanceAs (Decidable (a.scope < count ∧ AreOnScopes (a.countAfter count) acts))

end ScopeAct

/-- Scopes together with the frames that they share. -/
structure ScopeTree where
  frames : Frames
  scopes : List Scope

namespace ScopeTree

/-- One scope without bindings. -/
def root : ScopeTree := ⟨#[[]], [[0]]⟩

/-- The frames of a scope. -/
def scope (t : ScopeTree) (s : Nat) : Scope := t.scopes[s]?.getD []

/-- Does one thing. -/
def act (t : ScopeTree) : ScopeAct → ScopeReply × ScopeTree
  | .child s =>
    (.made t.scopes.length,
      ⟨(t.frames.child (t.scope s)).2, t.scopes ++ [(t.frames.child (t.scope s)).1]⟩)
  | .declare s name b =>
    (.ofFault? (t.frames.declareFault? name (t.scope s)),
      { t with frames := t.frames.declare (t.scope s) name b })
  | .define s name value => (.done, { t with frames := t.frames.define (t.scope s) name value })
  | .assign s name value =>
    (.ofFault? (t.frames.assignFault? name (t.scope s)),
      { t with frames := t.frames.assign name value (t.scope s) })
  | .get s name => (.ofValue? (t.frames.get? (t.scope s) name), t)
  | .clear s => (.done, { t with frames := t.frames.clear (t.scope s) })

/-- Does one thing after the other. -/
def run (t : ScopeTree) : List ScopeAct → List ScopeReply × ScopeTree
  | [] => ([], t)
  | a :: acts => (((t.act a).1 :: ((t.act a).2.run acts).1), ((t.act a).2.run acts).2)

end ScopeTree

/-! ## Nested environments -/

/-- Environments inside each other: for each the one around it, and what it binds itself. -/
@[ext]
structure Environments where
  count : Nat
  outer? : Nat → Option Nat
  binding? : Nat → Text → Option Binding

namespace Environments

/-- One environment without bindings. -/
def start : Environments := ⟨1, fun _ => none, fun _ _ => none⟩

/-- An environment is the other one or lies around it. -/
def Encloses (e : Environments) : (inner outer : Nat) → Prop :=
  Relation.ReflTransGen fun s o => e.outer? s = some o

/-- The nearest environment around `s`, or `s` itself, that binds a name is `t`. -/
structure IsNearest (e : Environments) (s : Nat) (name : Text) (t : Nat) (b : Binding) : Prop where
  encloses : e.Encloses s t
  bound : e.binding? t name = some b
  nearest : ∀ u, e.Encloses s u → (e.binding? u name).isSome → e.Encloses t u

/-- A name is bound nowhere around `s`. -/
def IsUnbound (e : Environments) (s : Nat) (name : Text) : Prop :=
  ∀ t, e.Encloses s t → e.binding? t name = none

/-- A new environment inside `s`. -/
def addInside (e : Environments) (s : Nat) : Environments where
  count := e.count + 1
  outer? := Function.update e.outer? e.count (some s)
  binding? := Function.update e.binding? e.count fun _ => none

/-- One name is bound in one environment. -/
def bind (e : Environments) (s : Nat) (name : Text) (b : Binding) : Environments :=
  { e with
    binding? := Function.update e.binding? s (Function.update (e.binding? s) name (some b)) }

/-- One environment loses its bindings. -/
def vacate (e : Environments) (s : Nat) : Environments :=
  { e with binding? := Function.update e.binding? s fun _ => none }

/-- What may be done to nested environments, and what comes of it. -/
inductive Allows (e : Environments) : ScopeAct → ScopeReply → Environments → Prop
  | child (s : Nat) : Allows e (.child s) (.made e.count) (e.addInside s)
  | declared {s : Nat} {name : Text} (b : Binding) (hnone : e.binding? s name = none) :
      Allows e (.declare s name b) .done (e.bind s name b)
  | redeclared {s : Nat} {name : Text} {old : Binding} (b : Binding)
      (hbound : e.binding? s name = some old) :
      Allows e (.declare s name b) (.refused .alreadyDeclared) e
  | defined (s : Nat) (name : Text) (value : Value) :
      Allows e (.define s name value) .done (e.bind s name ⟨value, true⟩)
  | assigned {s : Nat} {name : Text} {t : Nat} {b : Binding} (value : Value)
      (hnearest : e.IsNearest s name t b) (hmutable : b.isMutable = true) :
      Allows e (.assign s name value) .done (e.bind t name { b with value })
  | constant {s : Nat} {name : Text} {t : Nat} {b : Binding} (value : Value)
      (hnearest : e.IsNearest s name t b) (himmutable : b.isMutable = false) :
      Allows e (.assign s name value) (.refused .constant) e
  | notFound {s : Nat} {name : Text} (value : Value) (hunbound : e.IsUnbound s name) :
      Allows e (.assign s name value) (.refused .notFound) e
  | found {s : Nat} {name : Text} {t : Nat} {b : Binding} (hnearest : e.IsNearest s name t b) :
      Allows e (.get s name) (.found b.value) e
  | missing {s : Nat} {name : Text} (hunbound : e.IsUnbound s name) :
      Allows e (.get s name) .missing e
  | cleared (s : Nat) : Allows e (.clear s) .done (e.vacate s)

/-- One thing after the other. -/
inductive Runs : Environments → List ScopeAct → List ScopeReply → Environments → Prop
  | nil (e : Environments) : Runs e [] [] e
  | cons {e e' e'' : Environments} {a : ScopeAct} {r : ScopeReply} {acts : List ScopeAct}
      {replies : List ScopeReply} (hstep : e.Allows a r e') (hrest : Runs e' acts replies e'') :
      Runs e (a :: acts) (r :: replies) e''

/-! ### Only one thing may come of it -/

variable {e : Environments}

/-- An environment lies inside an older one. -/
def IsNested (e : Environments) : Prop := ∀ s o, e.outer? s = some o → o < s

theorem Encloses.le (hnested : e.IsNested) {s t : Nat} (h : e.Encloses s t) : t ≤ s := by
  induction h with
  | refl => exact Nat.le_refl s
  | tail _ houter ih => exact Nat.le_trans (Nat.le_of_lt (hnested _ _ houter)) ih

theorem IsNearest.unique (hnested : e.IsNested) {s t t' : Nat} {name : Text} {b b' : Binding}
    (h : e.IsNearest s name t b) (h' : e.IsNearest s name t' b') : t = t' ∧ b = b' := by
  have hle := (h'.nearest t h.encloses (by simp [h.bound])).le hnested
  have hge := (h.nearest t' h'.encloses (by simp [h'.bound])).le hnested
  obtain rfl := Nat.le_antisymm hle hge
  exact ⟨rfl, Option.some.inj (h.bound.symm.trans h'.bound)⟩

theorem IsUnbound.not_isNearest {s t : Nat} {name : Text} {b : Binding} (h : e.IsUnbound s name) :
    ¬ e.IsNearest s name t b := fun hnearest => by
  have := h t hnearest.encloses
  rw [hnearest.bound] at this
  cases this

theorem Allows.unique (hnested : e.IsNested) {a : ScopeAct} {r r' : ScopeReply}
    {e' e'' : Environments} (h : e.Allows a r e') (h' : e.Allows a r' e'') :
    r = r' ∧ e' = e'' := by
  -- the nearest frame with the name is unique, and it alone decides about the reply
  cases h with
  | child | defined | cleared =>
    cases h'
    exact ⟨rfl, rfl⟩
  | declared _ hnone =>
    cases h' with
    | declared => exact ⟨rfl, rfl⟩
    | redeclared _ hbound =>
      rw [hnone] at hbound
      cases hbound
  | redeclared _ hbound =>
    cases h' with
    | declared _ hnone =>
      rw [hnone] at hbound
      cases hbound
    | redeclared => exact ⟨rfl, rfl⟩
  | assigned _ hnearest hmutable =>
    cases h' with
    | assigned _ hnearest' =>
      obtain ⟨rfl, rfl⟩ := hnearest.unique hnested hnearest'
      exact ⟨rfl, rfl⟩
    | constant _ hnearest' himmutable =>
      obtain ⟨rfl, rfl⟩ := hnearest.unique hnested hnearest'
      rw [hmutable] at himmutable
      cases himmutable
    | notFound _ hunbound => exact absurd hnearest hunbound.not_isNearest
  | constant _ hnearest himmutable =>
    cases h' with
    | assigned _ hnearest' hmutable =>
      obtain ⟨rfl, rfl⟩ := hnearest.unique hnested hnearest'
      rw [hmutable] at himmutable
      cases himmutable
    | constant => exact ⟨rfl, rfl⟩
    | notFound _ hunbound => exact absurd hnearest hunbound.not_isNearest
  | notFound _ hunbound =>
    cases h' with
    | assigned _ hnearest | constant _ hnearest => exact absurd hnearest hunbound.not_isNearest
    | notFound => exact ⟨rfl, rfl⟩
  | found hnearest =>
    cases h' with
    | found hnearest' =>
      obtain ⟨-, rfl⟩ := hnearest.unique hnested hnearest'
      exact ⟨rfl, rfl⟩
    | missing hunbound => exact absurd hnearest hunbound.not_isNearest
  | missing hunbound =>
    cases h' with
    | found hnearest => exact absurd hnearest hunbound.not_isNearest
    | missing => exact ⟨rfl, rfl⟩

end Environments

/-! ## Looking outwards -/

namespace Frames

/-- Looking for a name and assigning to it stop at the same frame: the first one that binds it. -/
theorem binding?_cases (fs : Frames) (name : Text) (scope : Scope) :
    (∃ before id outer b, scope = before ++ id :: outer ∧
      (∀ other ∈ before, (fs.frame other).lookup name = none) ∧
      (fs.frame id).lookup name = some b ∧ fs.binding? name scope = some b ∧
      ∀ value, fs.assign name value scope =
        if b.isMutable then fs.modify id (Frame.set name ⟨value, true⟩) else fs) ∨
    ((∀ id ∈ scope, (fs.frame id).lookup name = none) ∧ fs.binding? name scope = none ∧
      ∀ value, fs.assign name value scope = fs) := by
  -- from the innermost frame outwards, as the frames are searched
  induction scope with
  | nil => exact .inr ⟨by simp, rfl, fun _ => rfl⟩
  | cons first rest ih =>
    cases hfirst : (fs.frame first).lookup name with
    | some b =>
      exact .inl ⟨[], first, rest, b, rfl, by simp, hfirst, by simp only [binding?, hfirst],
        fun value => by simp only [assign, hfirst]⟩
    | none =>
      rcases ih with ⟨before, id, outer, b, rfl, hbefore, hb, hbinding, hassign⟩ |
        ⟨hnone, hbinding, hassign⟩
      · refine .inl ⟨first :: before, id, outer, b, rfl, ?_, hb, ?_, fun value => ?_⟩
        · exact List.forall_mem_cons.2 ⟨hfirst, hbefore⟩
        · simp only [binding?, hfirst, hbinding]
        · simp only [assign, hfirst, hassign]
      · refine .inr ⟨List.forall_mem_cons.2 ⟨hfirst, hnone⟩, ?_, fun value => ?_⟩
        · simp only [binding?, hfirst, hbinding]
        · simp only [assign, hfirst, hassign]

end Frames

/-! ## A tree of scopes as nested environments -/

namespace ScopeTree

/-- The environments that the scopes stand for. A scope lies inside the one that has all its frames
    but the first, and binds what the first one binds. -/
def environments (t : ScopeTree) : Environments where
  count := t.scopes.length
  outer? s := (t.scope s).tail.head?
  binding? s name := (t.scope s).head?.bind fun id => (t.frames.frame id).lookup name

/-- Each scope has a frame of its own in front of the frames of an older scope. -/
structure IsTree (t : ScopeTree) : Prop where
  size : t.frames.size = t.scopes.length
  scope : ∀ s < t.scopes.length, t.scope s = [s] ∨ ∃ o < s, t.scope s = s :: t.scope o

theorem isTree_root : root.IsTree where
  size := rfl
  scope s hs := by
    obtain rfl : s = 0 := Nat.lt_one_iff.1 hs
    exact .inl rfl

namespace IsTree

variable {t : ScopeTree}

theorem scope_of_le {s : Nat} (hs : t.scopes.length ≤ s) : t.scope s = [] := by
  rw [ScopeTree.scope, List.getElem?_eq_none hs, Option.getD_none]

theorem exists_scope (h : t.IsTree) {s : Nat} (hs : s < t.scopes.length) :
    ∃ outer, t.scope s = s :: outer := by
  rcases h.scope s hs with hscope | ⟨o, -, hscope⟩ <;> exact ⟨_, hscope⟩

theorem binding? (h : t.IsTree) (s : Nat) (name : Text) :
    t.environments.binding? s name = (t.frames.frame s).lookup name := by
  simp only [environments]
  by_cases hs : s < t.scopes.length
  · obtain ⟨outer, hscope⟩ := h.exists_scope hs
    rw [hscope]
    rfl
  · rw [scope_of_le (Nat.not_lt.1 hs), Frames.frame_of_le (h.size ▸ Nat.not_lt.1 hs)]
    rfl

theorem isNested (h : t.IsTree) : t.environments.IsNested := by
  intro s o houter
  by_cases hs : s < t.scopes.length
  · simp only [environments] at houter
    rcases h.scope s hs with hscope | ⟨o', ho', hscope⟩
    · rw [hscope] at houter
      cases houter
    · obtain ⟨outer, ho⟩ := h.exists_scope (Nat.lt_trans ho' hs)
      rw [hscope, ho] at houter
      obtain rfl := Option.some.inj houter
      exact ho'
  · simp [environments, scope_of_le (Nat.not_lt.1 hs)] at houter

/-- The frames of a scope are those of the scopes around it. -/
theorem encloses_iff (h : t.IsTree) {s : Nat} (hs : s < t.scopes.length) (u : Nat) :
    t.environments.Encloses s u ↔ u ∈ t.scope s := by
  induction s using Nat.strongRecOn with
  | ind s ih =>
    rw [Environments.Encloses, Relation.ReflTransGen.cases_head_iff]
    rcases h.scope s hs with hscope | ⟨o, ho, hscope⟩
    · have houter : t.environments.outer? s = none := by simp only [environments, hscope]; rfl
      simp [houter, hscope, eq_comm]
    · have houter : t.environments.outer? s = some o := by
        obtain ⟨outer, ho'⟩ := h.exists_scope (Nat.lt_trans ho hs)
        simp only [environments, hscope, ho']
        rfl
      simp only [houter, Option.some.injEq, exists_eq_left', hscope, List.mem_cons]
      exact or_congr eq_comm (ih o ho (Nat.lt_trans ho hs))

/-- What follows a frame in a scope is the rest of the scope that the frame belongs to. -/
theorem scope_of_append (h : t.IsTree) {s id : Nat} (hs : s < t.scopes.length) {before outer : Scope}
    (hscope : t.scope s = before ++ id :: outer) : t.scope id = id :: outer := by
  induction s using Nat.strongRecOn generalizing before with
  | ind s ih =>
    cases before with
    | nil =>
      obtain ⟨rest, hrest⟩ := h.exists_scope hs
      obtain ⟨rfl, rfl⟩ := List.cons.inj (hrest.symm.trans hscope)
      exact hrest
    | cons first before =>
      rcases h.scope s hs with hone | ⟨o, ho, hmore⟩
      · rw [hone] at hscope
        simp at hscope
      · rw [hmore] at hscope
        exact ih o ho (Nat.lt_trans ho hs) (List.cons.inj hscope).2

theorem lt_of_mem_scope (h : t.IsTree) {s id : Nat} (hs : s < t.scopes.length)
    (hid : id ∈ t.scope s) : id < t.scopes.length :=
  Nat.lt_of_le_of_lt (((h.encloses_iff hs id).2 hid).le h.isNested) hs

/-- The first frame that binds a name belongs to the nearest environment that does. -/
theorem isNearest (h : t.IsTree) {s id : Nat} (hs : s < t.scopes.length) {before outer : Scope}
    {name : Text} {b : Binding} (hscope : t.scope s = before ++ id :: outer)
    (hbefore : ∀ other ∈ before, (t.frames.frame other).lookup name = none)
    (hb : (t.frames.frame id).lookup name = some b) : t.environments.IsNearest s name id b where
  encloses := (h.encloses_iff hs id).2 (by simp [hscope])
  bound := (h.binding? id name).trans hb
  nearest u hu hbound := by
    rw [h.encloses_iff hs, hscope, List.mem_append] at hu
    have hid : id < t.scopes.length := h.lt_of_mem_scope hs (by simp [hscope])
    rw [h.encloses_iff hid, h.scope_of_append hs hscope]
    rcases hu with hu | hu
    · rw [h.binding?, hbefore u hu] at hbound
      cases hbound
    · exact hu

theorem isUnbound (h : t.IsTree) {s : Nat} (hs : s < t.scopes.length) {name : Text}
    (hnone : ∀ id ∈ t.scope s, (t.frames.frame id).lookup name = none) :
    t.environments.IsUnbound s name := fun u hu =>
  (h.binding? u name).trans (hnone u ((h.encloses_iff hs u).1 hu))

/-! ### What is done -/

/-- Changes of frames leave the tree of scopes as it is. -/
theorem withFrames (h : t.IsTree) {frames : Frames} (hsize : frames.size = t.frames.size) :
    ({ t with frames } : ScopeTree).IsTree := ⟨hsize.trans h.size, h.scope⟩

/-- A name that is bound in the first frame of a scope is bound in its environment. -/
theorem environments_modify (h : t.IsTree) {s : Nat} (hs : s < t.scopes.length) (name : Text)
    (b : Binding) :
    ({ t with frames := t.frames.modify s (Frame.set name b) } : ScopeTree).environments =
      t.environments.bind s name b := by
  refine Environments.ext rfl rfl (funext fun u => funext fun key => ?_)
  rw [(h.withFrames (by simp)).binding?, Frames.lookup_modify (h.size ▸ hs), Environments.bind]
  by_cases hu : u = s
  · subst hu
    by_cases hkey : key = name
    · simp [hkey]
    · simp [hkey, h.binding?]
  · simp [hu, h.binding?]

theorem environments_clear (h : t.IsTree) {s : Nat} (hs : s < t.scopes.length) :
    ({ t with frames := t.frames.clear (t.scope s) } : ScopeTree).environments =
      t.environments.vacate s := by
  obtain ⟨outer, hscope⟩ := h.exists_scope hs
  rw [hscope, Frames.clear]
  refine Environments.ext rfl rfl (funext fun u => funext fun key => ?_)
  rw [(h.withFrames (by simp)).binding?, Frames.frame_modify (h.size ▸ hs), Environments.vacate]
  by_cases hu : u = s
  · simp [hu]
  · simp [hu, h.binding?]

theorem scope_child (h : t.IsTree) (s u : Nat) : (t.act (.child s)).2.scope u =
    if u = t.scopes.length then t.scopes.length :: t.scope s else t.scope u := by
  simp only [act, ScopeTree.scope, Frames.child, List.getElem?_append, h.size]
  by_cases hlt : u < t.scopes.length
  · rw [if_pos hlt, if_neg (Nat.ne_of_lt hlt)]
  · rw [if_neg hlt]
    by_cases heq : u = t.scopes.length
    · simp [heq]
    · rw [if_neg heq, List.getElem?_eq_none (by simp; omega), List.getElem?_eq_none (by omega)]

/-- A new scope is a new environment inside the one it was made in. -/
theorem environments_child (h : t.IsTree) {s : Nat} (hs : s < t.scopes.length) :
    (t.act (.child s)).2.environments = t.environments.addInside s := by
  refine Environments.ext (by simp [act, environments, Environments.addInside]) (funext fun u => ?_)
    (funext fun u => funext fun key => ?_)
  · simp only [environments, h.scope_child, Environments.addInside, Function.update_apply]
    by_cases hu : u = t.scopes.length
    · obtain ⟨outer, ho⟩ := h.exists_scope hs
      simp [hu, ho]
    · simp [hu]
  · simp only [environments, h.scope_child, Environments.addInside, Function.update_apply]
    by_cases hu : u = t.scopes.length
    · have hnew : t.frames.frame t.scopes.length = [] := Frames.frame_of_le (Nat.le_of_eq h.size)
      simp [hu, act, Frames.child, hnew]
    · simp [hu, act, Frames.child]

theorem isTree_child (h : t.IsTree) {s : Nat} (hs : s < t.scopes.length) :
    (t.act (.child s)).2.IsTree where
  size := by simp [act, Frames.child, h.size]
  scope u hu := by
    have hu : u < t.scopes.length + 1 := by simpa [act] using hu
    rw [h.scope_child]
    by_cases hnew : u = t.scopes.length
    · refine .inr ⟨s, hnew ▸ hs, ?_⟩
      rw [if_pos hnew, hnew, h.scope_child, if_neg (Nat.ne_of_lt hs)]
    · have hold : u < t.scopes.length := by omega
      rw [if_neg hnew]
      refine (h.scope u hold).imp_right fun ⟨o, ho, hscope⟩ => ⟨o, ho, ?_⟩
      rw [h.scope_child, if_neg (by omega), hscope]

theorem allows_declare (h : t.IsTree) {s : Nat} (hs : s < t.scopes.length) (name : Text)
    (b : Binding) : t.environments.Allows (.declare s name b) (t.act (.declare s name b)).1
      (t.act (.declare s name b)).2.environments := by
  obtain ⟨outer, hscope⟩ := h.exists_scope hs
  -- the innermost frame has the name already, or it gets it now
  cases hlookup : (t.frames.frame s).lookup name with
  | some old =>
    have hfault : t.frames.declareFault? name (t.scope s) = some .alreadyDeclared := by
      simp [hscope, Frames.declareFault?, hlookup]
    simp only [act, Frames.declare, hfault]
    exact .redeclared b ((h.binding? s name).trans hlookup)
  | none =>
    have hfault : t.frames.declareFault? name (t.scope s) = none := by
      simp [hscope, Frames.declareFault?, hlookup]
    have hbind : t.frames.bind (t.scope s) name b = t.frames.modify s (Frame.set name b) := by
      rw [hscope, Frames.bind]
    simp only [act, Frames.declare, hfault, hbind, Option.isSome_none, Bool.false_eq_true, if_false,
      h.environments_modify hs]
    exact .declared b ((h.binding? s name).trans hlookup)

theorem allows_define (h : t.IsTree) {s : Nat} (hs : s < t.scopes.length) (name : Text)
    (value : Value) : t.environments.Allows (.define s name value) (t.act (.define s name value)).1
      (t.act (.define s name value)).2.environments := by
  obtain ⟨outer, hscope⟩ := h.exists_scope hs
  have hbind : t.frames.define (t.scope s) name value =
      t.frames.modify s (Frame.set name ⟨value, true⟩) := by
    rw [hscope, Frames.define, Frames.bind]
  simp only [act, hbind, h.environments_modify hs]
  exact .defined s name value

theorem allows_assign (h : t.IsTree) {s : Nat} (hs : s < t.scopes.length) (name : Text)
    (value : Value) : t.environments.Allows (.assign s name value) (t.act (.assign s name value)).1
      (t.act (.assign s name value)).2.environments := by
  simp only [act, Frames.assignFault?]
  rcases t.frames.binding?_cases name (t.scope s) with
    ⟨before, id, outer, b, hscope, hbefore, hb, hbinding, hassign⟩ | ⟨hnone, hbinding, hassign⟩
  · have hnearest := h.isNearest hs hscope hbefore hb
    have hid : id < t.scopes.length := h.lt_of_mem_scope hs (by simp [hscope])
    obtain ⟨old, isMutable⟩ := b
    cases isMutable
    · simp only [hbinding, hassign, Bool.false_eq_true, if_false]
      exact .constant value hnearest rfl
    · simp only [hbinding, hassign, if_true, h.environments_modify hid]
      exact .assigned value hnearest rfl
  · rw [hbinding, hassign]
    exact .notFound value (h.isUnbound hs hnone)

theorem allows_get (h : t.IsTree) {s : Nat} (hs : s < t.scopes.length) (name : Text) :
    t.environments.Allows (.get s name) (t.act (.get s name)).1
      (t.act (.get s name)).2.environments := by
  simp only [act, Frames.get?]
  rcases t.frames.binding?_cases name (t.scope s) with
    ⟨before, id, outer, b, hscope, hbefore, hb, hbinding, -⟩ | ⟨hnone, hbinding, -⟩
  · rw [hbinding]
    exact .found (h.isNearest hs hscope hbefore hb)
  · rw [hbinding]
    exact .missing (h.isUnbound hs hnone)

end IsTree

section

variable {t : ScopeTree} {a : ScopeAct}

/-- What is done to scopes is what may be done to nested environments. -/
theorem allows_act (h : t.IsTree) (ha : a.scope < t.scopes.length) :
    t.environments.Allows a (t.act a).1 (t.act a).2.environments := by
  cases a with
  | child s => exact h.environments_child ha ▸ .child s
  | declare s name b => exact h.allows_declare ha name b
  | define s name value => exact h.allows_define ha name value
  | assign s name value => exact h.allows_assign ha name value
  | get s name => exact h.allows_get ha name
  | clear s => exact h.environments_clear ha ▸ .cleared s

theorem IsTree.act (h : t.IsTree) (ha : a.scope < t.scopes.length) : (t.act a).2.IsTree := by
  have hmodify (id : Nat) (f : Frame → Frame) : (t.frames.modify id f).size = t.frames.size := by simp
  have hbind (scope : Scope) (name : Text) (b : Binding) :
      (t.frames.bind scope name b).size = t.frames.size := by cases scope <;> simp [Frames.bind]
  -- only a new child adds a frame, the other actions write into those that exist
  cases a with
  | child s => exact h.isTree_child ha
  | declare s name b =>
    refine h.withFrames ?_
    rw [Frames.declare]
    split
    · rfl
    · exact hbind _ _ _
  | define s name value => exact h.withFrames (hbind _ _ _)
  | assign s name value =>
    refine h.withFrames ?_
    rcases t.frames.binding?_cases name (t.scope s) with
      ⟨_, _, _, b, _, _, _, _, hassign⟩ | ⟨_, _, hassign⟩
    · rw [hassign]
      split
      · exact hmodify _ _
      · rfl
    · rw [hassign]
  | get s name => exact h
  | clear s =>
    refine h.withFrames ?_
    cases t.scope s with
    | nil => rfl
    | cons id outer => exact hmodify _ _

theorem length_scopes_act (t : ScopeTree) (a : ScopeAct) :
    (t.act a).2.scopes.length = a.countAfter t.scopes.length := by
  cases a <;> simp [ScopeTree.act, ScopeAct.countAfter]

/-- What is done to the scopes of a tree may be done to nested environments, with the same replies and
    the same bindings afterwards, and with no others. -/
theorem IsTree.runs_iff (h : t.IsTree) {acts : List ScopeAct}
    (hacts : ScopeAct.AreOnScopes t.scopes.length acts) (replies : List ScopeReply)
    (e : Environments) : t.environments.Runs acts replies e ↔
      replies = (t.run acts).1 ∧ e = (t.run acts).2.environments := by
  -- an act has one reply and one outcome, so the runs agree act by act
  induction acts generalizing t replies with
  | nil =>
    constructor
    · rintro ⟨⟩
      exact ⟨rfl, rfl⟩
    · rintro ⟨rfl, rfl⟩
      exact .nil _
  | cons a acts ih =>
    obtain ⟨ha, hrest⟩ := hacts
    have ih := ih (h.act ha) (by rwa [length_scopes_act])
    constructor
    · rintro (_ | ⟨hstep, hruns⟩)
      obtain ⟨rfl, rfl⟩ := hstep.unique h.isNested (allows_act h ha)
      obtain ⟨rfl, rfl⟩ := (ih _).1 hruns
      exact ⟨rfl, rfl⟩
    · rintro ⟨rfl, rfl⟩
      exact .cons (allows_act h ha) ((ih _).2 ⟨rfl, rfl⟩)

end

/-- Whatever is done to a scope and the scopes inside it, in whatever order: the replies and the
    bindings are those of nested environments. -/
theorem behaves_as_nested {acts : List ScopeAct} (hacts : ScopeAct.AreOnScopes 1 acts)
    (replies : List ScopeReply) (e : Environments) :
    Environments.start.Runs acts replies e ↔
      replies = (root.run acts).1 ∧ e = (root.run acts).2.environments := by
  have hstart : root.environments = Environments.start := by
    refine Environments.ext rfl (funext fun s => ?_) (funext fun s => funext fun name => ?_)
    · cases s <;> rfl
    · cases s <;> rfl
  rw [← hstart]
  exact isTree_root.runs_iff hacts replies e

/-- A constant is shadowed inside a block; the variable there can be changed, and the constant is back
    when the bindings of the block are dropped. -/
theorem behaves_as_nested_shadowing :
    let acts : List ScopeAct :=
      [.declare 0 (text "a") ⟨.bool true, false⟩, .child 0, .declare 1 (text "a") ⟨.null, true⟩,
        .assign 1 (text "a") .math, .get 1 (text "a"), .declare 1 (text "a") ⟨.null, true⟩, .clear 1,
        .assign 1 (text "a") .null, .get 1 (text "a"), .assign 1 (text "b") .null]
    ScopeAct.AreOnScopes 1 acts ∧ ∃ e, Environments.start.Runs acts
      [.done, .made 1, .done, .done, .found .math, .refused .alreadyDeclared, .done,
        .refused .constant, .found (.bool true), .refused .notFound] e :=
  have hacts : ScopeAct.AreOnScopes 1 _ := by decide
  ⟨hacts, _, (behaves_as_nested hacts _ _).2 ⟨rfl, rfl⟩⟩

end ScopeTree

end Pseudocode.Script
