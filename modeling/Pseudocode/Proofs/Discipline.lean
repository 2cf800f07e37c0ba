import Pseudocode.Proofs.Truncation
import Pseudocode.Proofs.Declarations
import Pseudocode.Proofs.Frames

/-!
# Evaluation keeps the declarations of a program

Every step of a run does to the frames what the declarations of the program allow. The scopes of the
checks before a run and the scopes of the run are opened in different places, so the two are related
statement by statement: a statement runs in a scope whose innermost frame agrees with the block that
the statement stands in.

* `Machine.IsSound`        functions keep scopes that are chains of frames, and have sound bodies
* `Beside`                 a run beside one that is stopped later
* `Obeys`                  what an evaluation does to a machine in a scope
* `obeys_all`              every evaluation of a sound program does that

Two runs under different watchdogs are looked at together, because what one of them finds when it is
stopped is what the other one goes on from.
-/

namespace Pseudocode

namespace Watchdog

/-- The first watchdog counts checks, and stops a run before the other one does. -/
def Precedes (v w : Watchdog) : Prop :=
  ∃ n spent, v = .counting (spent + n) spent ∧ w.Passes n

theorem Precedes.resume {v w : Watchdog} (h : v.Precedes w) :
    v.pause.resume.Precedes w.pause.resume := by
  obtain ⟨n, spent, rfl, hw⟩ := h
  exact ⟨n, spent, rfl, hw.pause_resume⟩

/-- Both watchdogs let the next check pass, or the first one does not. -/
theorem Precedes.check {v w : Watchdog} (h : v.Precedes w) :
    (v.stop? = none ∧ w.stop? = none ∧ v.tick.Precedes w.tick) ∨ v.stop? = some .timedOut := by
  obtain ⟨n, spent, rfl, hw⟩ := h
  cases n with
  | zero => exact .inr (by simp [stop?_counting])
  | succ n =>
    refine .inl ⟨by simp [stop?_counting], hw.1.1, n, spent + 1, ?_, hw.1.2⟩
    rw [tick_counting, Nat.succ_add_eq_add_succ]

end Watchdog

namespace Script

open Eval Frames

/-! ## Machines -/

/-- The body of a function declares its names once, and so does every block in it. -/
structure Closure.IsSound (strict : Prop) (c : Closure) : Prop where
  names : DeclaresOnce (c.parameters ++ varsAll c.body) (lexicalsAll c.body)
  body : ∀ s ∈ c.body, s.IsSound strict

/-- Every function has a sound body and a scope. The host cancels nothing. -/
structure Machine.IsSound (strict : Prop) (m : Machine) : Prop where
  uncancelled : m.cancelAfter = none
  closures : ∀ c ∈ m.heap.closures, c.IsSound strict ∧ m.frames.IsScope c.scope

/-- The run was left with an error that should have been found before it started. -/
def Unwind.IsSyntaxError : Unwind → Prop
  | .failed f => f.cause.name = .syntaxError
  | _ => False

/-- What happens under a watchdog, beside what happens under one that stops the run later. -/
inductive Beside {α : Type} :
    EStateM.Result Unwind Machine α → EStateM.Result Unwind Machine α → Prop where
  | ok {a : α} {m : Machine} {w : Watchdog} (hw : m.watchdog.Precedes w) :
    Beside (.ok a m) (.ok a { m with watchdog := w })
  | error {u : Unwind} {m : Machine} {w : Watchdog} :
    Beside (.error u m) (.error u { m with watchdog := w })
  /-- The first run is stopped, and the other one goes on. -/
  | stopped {place : Position} {m : Machine} {other : EStateM.Result Unwind Machine α}
    (hkeeps : m.frames.KeepsConstants (machineOf other).frames) :
    Beside (.error (.timedOut place) m) other

/-- What an evaluation does to a machine, in a scope whose innermost frame belongs to a block with
    the given variables. Afterwards the block has `declared` names. -/
structure ObeysAt (strict : Prop) (scope : Scope) (isVariable : Text → Prop) (declared : List Text)
    {α : Type} (x : Eval α) (m : Machine) : Prop where
  ok {a : α} {m' : Machine} (h : x m = .ok a m') : m'.IsSound strict ∧
    m.frames.Evolves strict scope m'.frames ∧ m'.frames.Agrees strict scope isVariable declared
  error {u : Unwind} {m' : Machine} (h : x m = .error u m') :
    m.frames.KeepsConstants m'.frames ∧ (strict → ¬u.IsSyntaxError)
  beside {w : Watchdog} (hw : m.watchdog.Precedes w) : Beside (x m) (x { m with watchdog := w })

/-- What an evaluation does on every sound machine, if the block has declared the names `before`. -/
def Obeys (strict : Prop) (scope : Scope) (isVariable : Text → Prop) (before after : List Text)
    {α : Type} (x : Eval α) : Prop :=
  ∀ m : Machine, m.IsSound strict → m.frames.IsScope scope →
    m.frames.Agrees strict scope isVariable before → ObeysAt strict scope isVariable after x m

section

variable {strict : Prop} {scope inner : Scope} {isVariable : Text → Prop}
variable {before between after : List Text} {α β : Type}

theorem Machine.IsSound.withWatchdog {m : Machine} (h : m.IsSound strict) (w : Watchdog) :
    Machine.IsSound strict { m with watchdog := w } := ⟨h.uncancelled, h.closures⟩

theorem ObeysAt.keeps {x : Eval α} {m : Machine} (h : ObeysAt strict scope isVariable after x m) :
    m.frames.KeepsConstants (machineOf (x m)).frames := by
  cases hx : x m with
  | ok a m' => exact (h.ok hx).2.1.keeps
  | error u m' => exact (h.error hx).1

/-! ## Putting evaluations together -/

theorem Obeys.bind {x : Eval α} {f : α → Eval β} (hx : Obeys strict scope isVariable before between x)
    (hf : ∀ a, Obeys strict scope isVariable between after (f a)) :
    Obeys strict scope isVariable before after (x >>= f) := by
  intro m hm hs hagrees
  have hxm := hx m hm hs hagrees
  -- what follows is looked at on the machine that the first part leaves
  have hnext {a : α} {m' : Machine} (hrun : x m = .ok a m') :
      ObeysAt strict scope isVariable after (f a) m' := by
    obtain ⟨hm', hevolves, hagrees'⟩ := hxm.ok hrun
    exact hf a m' hm' (hs.mono hevolves.size_le) hagrees'
  refine ⟨fun {b m''} h => ?_, fun {u m''} h => ?_, fun {w} hw => ?_⟩
  · simp only [Bind.bind, EStateM.bind] at h
    cases hrun : x m with
    | error u m' =>
      rw [hrun] at h
      cases h
    | ok a m' =>
      rw [hrun] at h
      obtain ⟨hm'', hevolves, hagrees''⟩ := (hnext hrun).ok h
      exact ⟨hm'', (hxm.ok hrun).2.1.trans hevolves, hagrees''⟩
  · simp only [Bind.bind, EStateM.bind] at h
    cases hrun : x m with
    | error u' m' =>
      rw [hrun] at h
      obtain ⟨rfl, rfl⟩ : u' = u ∧ m' = m'' := by simpa using h
      exact hxm.error hrun
    | ok a m' =>
      rw [hrun] at h
      obtain ⟨hkeeps, herror⟩ := (hnext hrun).error h
      exact ⟨(hxm.ok hrun).2.1.keeps.trans hkeeps, herror⟩
  · have hbeside := hxm.beside hw
    simp only [Bind.bind, EStateM.bind]
    cases hrun : x m with
    | ok a m' =>
      rw [hrun] at hbeside
      generalize x { m with watchdog := w } = other at hbeside
      cases hbeside with
      | ok hw' => exact (hnext hrun).beside hw'
    | error u m' =>
      rw [hrun] at hbeside
      cases hother : x { m with watchdog := w } with
      | error u' n =>
        rw [hother] at hbeside
        cases hbeside with
        | error => exact .error
        | stopped hkeeps => exact .stopped hkeeps
      | ok a n =>
        rw [hother] at hbeside
        cases hbeside with
        | stopped hkeeps =>
          have hxw := hx { m with watchdog := w } (hm.withWatchdog w) hs hagrees
          obtain ⟨hn, hevolves, hagrees'⟩ := hxw.ok hother
          have hrest := hf a n hn (hs.mono hevolves.size_le) hagrees'
          exact .stopped (hkeeps.trans hrest.keeps)

theorem Obeys.mono {x : Eval α} (h : Obeys strict scope isVariable before between x)
    (hsub : between ⊆ after) : Obeys strict scope isVariable before after x := by
  intro m hm hs hagrees
  have hx := h m hm hs hagrees
  refine ⟨fun hrun => ?_, hx.error, hx.beside⟩
  obtain ⟨hm', hevolves, hagrees'⟩ := hx.ok hrun
  exact ⟨hm', hevolves, hagrees'.mono hsub⟩

/-- A round of a loop is forgotten: it declares nothing, or nobody asks. -/
theorem Obeys.forget {x : Eval α} (h : Obeys strict scope isVariable before between x)
    (hsame : strict → between = after) : Obeys strict scope isVariable before after x := by
  intro m hm hs hagrees
  have hx := h m hm hs hagrees
  refine ⟨fun hrun => ?_, hx.error, hx.beside⟩
  obtain ⟨hm', hevolves, hagrees'⟩ := hx.ok hrun
  refine ⟨hm', hevolves, ?_⟩
  by_cases hstrict : strict
  · exact hsame hstrict ▸ hagrees'
  · exact hagrees'.of_not_strict hstrict

theorem Obeys.within {x : Eval α} (h : Obeys strict scope isVariable before after x) (call : Call) :
    Obeys strict scope isVariable before after (within call x) := by
  intro m hm hs hagrees
  have hx := h { m with calls := call :: m.calls } ⟨hm.uncancelled, hm.closures⟩ hs hagrees
  -- the call is on the stack inside only, and the invariant does not speak of the stack
  refine ⟨fun {a m'} hrun => ?_, fun {u m'} hrun => ?_, fun {w} hw => ?_⟩
  · simp only [Eval.within] at hrun
    cases hin : x { m with calls := call :: m.calls } with
    | error u n =>
      rw [hin] at hrun
      cases hrun
    | ok b n =>
      rw [hin] at hrun
      obtain ⟨rfl, rfl⟩ : b = a ∧ { n with calls := n.calls.tail } = m' := by simpa using hrun
      obtain ⟨hn, hevolves, hagrees'⟩ := hx.ok hin
      exact ⟨⟨hn.uncancelled, hn.closures⟩, hevolves, hagrees'⟩
  · simp only [Eval.within] at hrun
    cases hin : x { m with calls := call :: m.calls } with
    | ok b n =>
      rw [hin] at hrun
      cases hrun
    | error v n =>
      rw [hin] at hrun
      obtain ⟨rfl, rfl⟩ : v = u ∧ { n with calls := n.calls.tail } = m' := by simpa using hrun
      exact ⟨(hx.error hin).1, (hx.error hin).2⟩
  · have hbeside := hx.beside hw
    simp only [Eval.within]
    generalize x { m with calls := call :: m.calls } = left at hbeside
    generalize x { m with watchdog := w, calls := call :: m.calls } = right at hbeside
    cases hbeside with
    | ok hw' => exact .ok hw'
    | error => exact .error
    | stopped hkeeps => cases right <;> exact .stopped hkeeps

/-! ## Operations -/

/-- A check either passes under both watchdogs, or stops the first run. -/
theorem obeys_tick (place : Position) :
    Obeys strict scope isVariable before before (tick place) := by
  intro m hm hs hagrees
  refine ⟨fun {a m'} h => ?_, fun {u m'} h => ?_, fun {w} hw => ?_⟩
  · simp only [tick] at h
    split at h <;> cases h
    exact ⟨⟨hm.uncancelled, hm.closures⟩, .refl _ _ _, hagrees⟩
  · simp only [tick] at h
    split at h <;> cases h <;> exact ⟨.refl _, fun _ => id⟩
  · rcases hw.check with ⟨hv, hw', hticked⟩ | hv
    · rw [tick_of_passes hv, tick_of_passes (m := { m with watchdog := w }) hw']
      exact .ok hticked
    · rw [show tick place m = .error (.timedOut place) m by simp only [tick, hv]]
      refine .stopped ?_
      simp only [tick]
      split <;> exact .refl _

/-- An operation that has nothing to do with the watchdog. -/
theorem obeys_of_local {x : Eval α} (hlocal : IsLocal x)
    (hok : ∀ m : Machine, m.IsSound strict → m.frames.IsScope scope →
      m.frames.Agrees strict scope isVariable before → ∀ a m', x m = .ok a m' →
        (∀ c ∈ m'.heap.closures, c.IsSound strict ∧ m'.frames.IsScope c.scope) ∧
        m.frames.Evolves strict scope m'.frames ∧ m'.frames.Agrees strict scope isVariable after)
    (herror : ∀ m : Machine, m.frames.Agrees strict scope isVariable before → ∀ u m',
      x m = .error u m' → m'.frames = m.frames ∧ (strict → ¬u.IsSyntaxError)) :
    Obeys strict scope isVariable before after x := by
  intro m hm hs hagrees
  refine ⟨fun {a m'} h => ?_, fun {u m'} h => ?_, fun {w} hw => ?_⟩
  · have hsame := hlocal m m.watchdog
    rw [h] at hsame
    obtain ⟨hclosures, hevolves, hagrees'⟩ := hok m hm hs hagrees a m' h
    exact ⟨⟨hsame.1.cancelAfter.trans hm.uncancelled, hclosures⟩, hevolves, hagrees'⟩
  · obtain ⟨hframes, hcause⟩ := herror m hagrees u m' h
    exact ⟨hframes ▸ .refl _, hcause⟩
  -- the other run has another watchdog, which is not looked at
  · have hsame := hlocal m w
    cases hrun : x m with
    | ok a m' =>
      rw [hrun] at hsame
      rw [hsame.2]
      exact .ok (hsame.1.watchdog ▸ hw)
    | error u m' =>
      rw [hrun] at hsame
      rw [hsame.2.2]
      exact .error

/-- An operation that changes neither frames nor functions. -/
theorem obeys_of_still {x : Eval α} (hlocal : IsLocal x)
    (hok : ∀ m a m', x m = .ok a m' → m'.frames = m.frames ∧ m'.heap.closures = m.heap.closures)
    (herror : ∀ m u m', x m = .error u m' → m'.frames = m.frames ∧ (strict → ¬u.IsSyntaxError)) :
    Obeys strict scope isVariable before before x := by
  refine obeys_of_local hlocal (fun m hm hs hagrees a m' h => ?_) fun m _ => herror m
  obtain ⟨hframes, hclosures⟩ := hok m a m' h
  rw [hframes, hclosures]
  exact ⟨hm.closures, .refl _ _ _, hagrees⟩

theorem obeys_pure (a : α) : Obeys strict scope isVariable before before (pure a : Eval α) := by
  refine obeys_of_still (isLocal_pure a) (fun m b m' h => ?_) fun m u m' h => by cases h
  cases h
  exact ⟨rfl, rfl⟩

theorem obeys_outOfFuel : Obeys strict scope isVariable before after (throw .outOfFuel : Eval α) := by
  refine obeys_of_local isLocal_outOfFuel (fun m _ _ _ a m' h => by cases h) fun m _ u m' h => ?_
  cases h
  exact ⟨rfl, fun _ => id⟩

theorem obeys_fail (place : Position) {cause : ErrorCause} (hcause : cause.name ≠ .syntaxError) :
    Obeys strict scope isVariable before after (fail place cause : Eval α) := by
  refine obeys_of_local (isLocal_fail place cause) (fun m _ _ _ a m' h => by cases h)
    fun m _ u m' h => ?_
  cases h
  exact ⟨rfl, fun _ => hcause⟩

theorem obeys_fromHeap (look : Heap → α) :
    Obeys strict scope isVariable before before (fromHeap look) := by
  refine obeys_of_still (isLocal_fromHeap look) (fun m a m' h => ?_) fun m u m' h => by cases h
  cases h
  exact ⟨rfl, rfl⟩

theorem obeys_find? (name : Text) :
    Obeys strict scope isVariable before before (find? scope name) := by
  refine obeys_of_still (isLocal_find? scope name) (fun m a m' h => ?_) fun m u m' h => by cases h
  cases h
  exact ⟨rfl, rfl⟩

theorem obeys_find (name : Text) (place : Position) :
    Obeys strict scope isVariable before before (find scope name place) := by
  refine (obeys_find? name).bind fun found => ?_
  cases found with
  | none => exact obeys_fail place (by simp [ErrorCause.name])
  | some v => exact obeys_pure v

theorem obeys_checkCalls (place : Position) :
    Obeys strict scope isVariable before before (checkCalls place) := by
  refine obeys_of_still (isLocal_checkCalls place) (fun m a m' h => ?_) fun m u m' h => ?_
  · simp only [checkCalls] at h
    split at h <;> cases h
    exact ⟨rfl, rfl⟩
  · simp only [checkCalls] at h
    split at h <;> cases h
    exact ⟨rfl, fun _ => by simp [Unwind.IsSyntaxError, ErrorCause.name]⟩

/-- An operation on the heap whose errors are no syntax errors. -/
def NoSyntaxError {α : Type} (operation : Heap → Outcome α) : Prop :=
  ∀ h cause h', operation h = .error (.error cause) h' → cause.name ≠ .syntaxError

theorem obeys_onHeap (place : Position) {operation : Heap → Outcome α}
    (hclosures : KeepsClosures operation) (hcause : NoSyntaxError operation) :
    Obeys strict scope isVariable before before (onHeap place operation) := by
  refine obeys_of_still (isLocal_onHeap place operation) (fun m a m' h => ?_) fun m u m' h => ?_
  · simp only [onHeap] at h
    cases hrun : operation m.heap with
    | ok b heap =>
      rw [hrun] at h
      cases h
      exact ⟨rfl, hclosures _ _ _ hrun⟩
    | error why heap =>
      rw [hrun] at h
      cases why <;> cases h
  · simp only [onHeap] at h
    cases hrun : operation m.heap with
    | ok b heap =>
      rw [hrun] at h
      cases h
    | error why heap =>
      rw [hrun] at h
      cases why with
      | conflict =>
        cases h
        exact ⟨rfl, fun _ => id⟩
      | error cause =>
        cases h
        exact ⟨rfl, fun _ => hcause _ _ _ hrun⟩

theorem obeys_readHeap (place : Position) {look : Heap → Except ErrorCause α}
    (hcause : ∀ h cause, look h = .error cause → cause.name ≠ .syntaxError) :
    Obeys strict scope isVariable before before (readHeap place look) := by
  refine obeys_of_still (isLocal_readHeap place look) (fun m a m' h => ?_) fun m u m' h => ?_
  · simp only [readHeap] at h
    split at h <;> cases h
    exact ⟨rfl, rfl⟩
  · simp only [readHeap] at h
    split at h
    · cases h
    · rename_i cause hlook
      cases h
      exact ⟨rfl, fun _ => hcause _ _ hlook⟩

theorem obeys_print (shown : Text) :
    Obeys strict scope isVariable before before (print shown) := by
  intro m hm hs hagrees
  have hprint (m : Machine) (hm : m.IsSound strict) :
      print shown m = .ok () { m with log := .print shown :: m.log } := by
    simp only [print, hm.uncancelled]
  refine ⟨fun {a m'} h => ?_, fun {u m'} h => ?_, fun {w} hw => ?_⟩
  · rw [hprint m hm] at h
    cases h
    exact ⟨⟨hm.uncancelled, hm.closures⟩, .refl _ _ _, hagrees⟩
  · rw [hprint m hm] at h
    cases h
  · rw [hprint m hm, hprint _ (hm.withWatchdog w)]
    exact .ok hw

theorem obeys_input (prompt : Text) :
    Obeys strict scope isVariable before before (input prompt) := by
  intro m hm hs hagrees
  refine ⟨fun {a m'} h => ?_, fun {u m'} h => ?_, fun {w} hw => ?_⟩
  · simp only [input] at h
    split at h <;> cases h
    exact ⟨⟨hm.uncancelled, hm.closures⟩, .refl _ _ _, hagrees⟩
  · simp only [input] at h
    split at h <;> cases h
    exact ⟨.refl _, fun _ => id⟩
  · simp only [input]
    cases m.answers with
    | nil => exact .error
    | cons answer answers => exact .ok hw.resume

/-! ## Operations on scopes -/

/-- Functions keep their scopes when the frames evolve. -/
theorem Machine.IsSound.of_evolves {m : Machine} {fs : Frames} (hm : m.IsSound strict)
    (h : m.frames.Evolves strict scope fs) :
    ∀ c ∈ m.heap.closures, c.IsSound strict ∧ fs.IsScope c.scope :=
  fun c hc => ⟨(hm.closures c hc).1, (hm.closures c hc).2.mono h.size_le⟩

theorem obeys_define {name : Text} (hname : isVariable name) (value : Value) :
    Obeys strict scope isVariable before before (define scope name value) := by
  refine obeys_of_local (isLocal_define scope name value) (fun m hm hs hagrees a m' h => ?_)
    fun m _ u m' h => by cases h
  cases h
  obtain ⟨hevolves, hagrees'⟩ := hagrees.define hs hname value
  exact ⟨hm.of_evolves hevolves, hevolves, hagrees'⟩

theorem obeys_declare {name : Text} (hname : ¬isVariable name) (hnew : name ∉ before) (b : Binding)
    (place : Position) :
    Obeys strict scope isVariable before (before ++ [name]) (declare scope name b place) := by
  -- first the declaration that goes well, then the one that meets a name in use
  refine obeys_of_local (isLocal_declare scope name b place) (fun m hm hs hagrees a m' h => ?_)
    fun m hagrees u m' h => ?_
  · simp only [Eval.declare] at h
    split at h
    · cases h
    · rename_i hnone
      cases h
      obtain ⟨hevolves, hagrees'⟩ := hagrees.declare hs hname hnone b
      exact ⟨hm.of_evolves hevolves, hevolves, hagrees'⟩
  · simp only [Eval.declare] at h
    split at h
    · rename_i fault hfault
      cases h
      refine ⟨rfl, fun hstrict => ?_⟩
      rw [hagrees.declareFault?_eq_none hstrict hname hnew] at hfault
      cases hfault
    · cases h

theorem obeys_assign (name : Text) (value : Value) (place : Position) :
    Obeys strict scope isVariable before before (assign scope name value place) := by
  refine obeys_of_local (isLocal_assign scope name value place) (fun m hm hs hagrees a m' h => ?_)
    fun m _ u m' h => ?_
  · simp only [Eval.assign] at h
    -- the name has a binding, it has none and gets one, or the binding is a constant
    split at h
    · rename_i hnone
      cases h
      obtain ⟨hevolves, hagrees'⟩ := hagrees.assign hs hnone value
      exact ⟨hm.of_evolves hevolves, hevolves, hagrees'⟩
    · rename_i hnone
      cases h
      obtain ⟨hevolves, hagrees'⟩ := hagrees.create hs hnone value
      exact ⟨hm.of_evolves hevolves, hevolves, hagrees'⟩
    · cases h
  · simp only [Eval.assign] at h
    split at h
    · cases h
    · cases h
    · cases h
      exact ⟨rfl, fun _ => by simp [Unwind.IsSyntaxError, ErrorCause.name]⟩

theorem obeys_newClosure {closure : Closure} (hclosure : closure.IsSound strict)
    (hscope : closure.scope = scope) :
    Obeys strict scope isVariable before before (newClosure closure) := by
  refine obeys_of_local (isLocal_newClosure closure) (fun m hm hs hagrees a m' h => ?_)
    fun m _ u m' h => by cases h
  cases h
  refine ⟨fun c hc => ?_, .refl _ _ _, hagrees⟩
  rcases Array.mem_push.1 hc with hc | rfl
  · exact hm.closures c hc
  · exact ⟨hclosure, hscope ▸ hs⟩

/-- What happens in a new scope inside of `inner`. -/
theorem ObeysAt.enter {m : Machine} (hm : m.IsSound strict) (hs : m.frames.IsScope scope)
    (hagrees : m.frames.Agrees strict scope isVariable before) (hinner : m.frames.IsScope inner)
    {f : Scope → Eval β} (isVariable' : Text → Prop) (inside : List Text)
    (hf : Obeys strict (m.frames.size :: inner) isVariable' [] inside (f (m.frames.size :: inner))) :
    ObeysAt strict scope isVariable before (openScope inner >>= f) m := by
  let opened : Machine := { m with frames := m.frames.push [] }
  have hopened : opened.IsSound strict :=
    ⟨hm.uncancelled, fun c hc => ⟨(hm.closures c hc).1, (hm.closures c hc).2.mono (by simp [opened])⟩⟩
  have hinside := hf opened hopened hinner.push (agrees_push hinner isVariable')
  refine ⟨fun {a m'} h => ?_, fun {u m'} h => ?_, fun hw => hinside.beside hw⟩
  · obtain ⟨hm', hevolves, -⟩ := hinside.ok h
    exact ⟨hm', hevolves.of_push scope, hagrees.of_push hs hevolves⟩
  · obtain ⟨hkeeps, hcause⟩ := hinside.error h
    refine ⟨fun id name b hb => hkeeps id name b ?_, hcause⟩
    rwa [HasConstant, frame_push]

/-- What happens in a new scope inside of the one that is there. -/
theorem obeys_openScope {f : Scope → Eval β} (isVariable' : Text → Prop) (inside : List Text)
    (hf : ∀ id, Obeys strict (id :: scope) isVariable' [] inside (f (id :: scope))) :
    Obeys strict scope isVariable before before (openScope scope >>= f) :=
  fun _ hm hs hagrees => .enter hm hs hagrees hs isVariable' inside (hf _)

/-- What happens with a function that is looked up. -/
theorem obeys_look (ref : Nat) {f : Option Closure → Eval β}
    (hnone : Obeys strict scope isVariable before before (f none))
    (hsome : ∀ closure : Closure, closure.IsSound strict → ∀ m : Machine, m.IsSound strict →
      m.frames.IsScope scope → m.frames.Agrees strict scope isVariable before →
        m.frames.IsScope closure.scope → ObeysAt strict scope isVariable before (f (some closure)) m) :
    Obeys strict scope isVariable before before
      (fromHeap (fun h => h.closures[ref]?) >>= f) := by
  intro m hm hs hagrees
  have hfound : ObeysAt strict scope isVariable before (f m.heap.closures[ref]?) m := by
    cases hclosure : m.heap.closures[ref]? with
    | none => exact hnone m hm hs hagrees
    | some closure =>
      obtain ⟨hsound, hscope⟩ := hm.closures closure (Array.mem_of_getElem? hclosure)
      exact hsome closure hsound m hm hs hagrees hscope
  exact ⟨hfound.ok, hfound.error, hfound.beside⟩

end

end Script

end Pseudocode
