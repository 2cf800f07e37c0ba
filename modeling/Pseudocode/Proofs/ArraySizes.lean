import Pseudocode.Proofs.ArrayElements
import Pseudocode.Proofs.Frames
import Pseudocode.Proofs.Visits

/-!
# How long arrays get

There is a limit on the length of an array, but not all that makes an array observes it: a literal,
the arguments of a constructor and the parts of a text are made into one without a look at how many
they are. Everything else that makes an array, or lets one grow, stays within the limit.

* `Heap.Makes`                  an array is made without a look at its length
* `Heap.IsOperation.fitsIn`     what an operation does to the length of arrays
* `Program.arraysFit_iff`       how long arrays get in a run
* `Program.not_arraysFit`       a run in which an array is longer than the limit
-/

namespace Pseudocode.Script

namespace Heap

/-! ## The length of arrays -/

/-- Every array has at most that many items. -/
def FitsIn (h : Heap) (bound : Nat) : Prop := ∀ items ∈ h.arrays, items.size ≤ bound

/-- An operation makes an array of `k` items without a look at how many they are. -/
inductive Makes (h : Heap) (k : Nat) : {α : Type} → (Heap → Outcome α) → Prop where
  | literal {items : Array Value} (hsize : items.size = k) : Makes h k (newArray · items)
  | construct {values : List Value} (hmany : ∀ n, values ≠ [.number n]) (hlength : values.length = k) :
    Makes h k (constructArray · values)
  | call {values : List Value} (hmany : ∀ n, values ≠ [.number n]) (hlength : values.length = k) :
    Makes h k (callNative · .array values)
  | split {t : Text} {values : List Value}
    (hlength : (h.splitParts t (argument values 0)).length = k) :
    Makes h k (callString · t .split values)

variable {h h' : Heap} {bound : Nat}

theorem FitsIn.items (hfits : h.FitsIn bound) (ref : Nat) : (h.items ref).size ≤ bound := by
  rw [Heap.items]
  cases hfound : h.arrays[ref]? with
  | none => exact Nat.zero_le _
  | some items => exact hfits items (Array.mem_of_getElem? hfound)

theorem FitsIn.modify (hfits : h.FitsIn bound) {ref : Nat} {f : Array Value → Array Value}
    (hf : (f (h.items ref)).size ≤ bound) : (h.modify ref f).FitsIn bound := by
  intro items hitems
  obtain ⟨i, hi⟩ := Array.getElem?_of_mem hitems
  simp only [Heap.modify, Array.getElem?_modify] at hi
  split at hi
  · rename_i hsame
    subst hsame
    obtain ⟨old, hold, rfl⟩ := Option.map_eq_some_iff.1 hi
    rwa [Heap.items, hold] at hf
  · exact hfits items (Array.mem_of_getElem? hi)

theorem FitsIn.push (hfits : h.FitsIn bound) {items : Array Value} (hitems : items.size ≤ bound) :
    ({ h with arrays := h.arrays.push items } : Heap).FitsIn bound := by
  intro other hother
  rcases Array.mem_push.1 hother with hold | rfl
  · exact hfits other hold
  · exact hitems

/-! ## What an operation does to the length of arrays -/

theorem toIndex_le (limit : Nat) (x : Float) : Double.toIndex limit x ≤ limit := by
  unfold Double.toIndex
  split
  · exact Nat.zero_le _
  · split <;> simp
  · split <;> simp

private theorem size_resize (length : Nat) (items : Array Value) :
    (resize length items).size = length := by
  unfold resize
  split
  · rw [Array.take_eq_extract, Array.size_extract]
    omega
  · simp only [Array.size_append, Array.size_replicate]
    omega

section

variable (hbound : maxArrayLength ≤ bound) (hfits : h.FitsIn bound)
include hfits

private theorem callString_fitsIn {t : Text} {method : StringMethod} {values : List Value} {v : Value}
    (hsplit : method = .split → (h.splitParts t (argument values 0)).length ≤ bound)
    (hrun : h.callString t method values = .ok v h') : h'.FitsIn bound := by
  cases method <;> simp only [callString, newArray, allocate] at hrun <;> cases hrun
  case split =>
    refine hfits.push ?_
    rw [List.size_toArray, List.length_map]
    exact hsplit rfl
  all_goals exact hfits

private theorem callNumber_fitsIn {x : Float} {method : NumberMethod} {values : List Value} {v : Value}
    (hrun : h.callNumber x method values = .ok v h') : h'.FitsIn bound := by
  cases method <;> simp only [callNumber] at hrun
  all_goals
    repeat' split at hrun
    all_goals
      cases hrun
      try exact hfits

include hbound

private theorem constructArray_fitsIn {values : List Value} {v : Value}
    (hmany : (∀ n, values ≠ [.number n]) → values.length ≤ bound)
    (hrun : h.constructArray values = .ok v h') : h'.FitsIn bound := by
  simp only [constructArray, newArray] at hrun
  split at hrun
  · split at hrun
    · cases hrun
    · cases hrun
      refine hfits.push ?_
      rw [Array.size_replicate]
      exact Nat.le_trans (toIndex_le _ _) hbound
  · rename_i hother
    cases hrun
    refine hfits.push ?_
    rw [List.size_toArray]
    exact hmany fun n hn => hother n hn

private theorem callArray_fitsIn {ref : Nat} {method : ArrayMethod} {values : List Value} {v : Value}
    (hrun : h.callArray ref method values = .ok v h') : h'.FitsIn bound := by
  have hitems := hfits.items ref
  cases method <;> simp only [callArray] at hrun
  -- only here an array grows, and the length that it would have is looked at first
  case push =>
    split at hrun
    · cases hrun
    · rename_i hle
      cases hrun
      refine hfits.modify ?_
      have hadded : values.toArray.size = values.length := List.size_toArray
      rw [Array.size_append, hadded]
      omega
  case pop =>
    cases hrun
    refine hfits.modify ?_
    rw [Array.size_pop]
    omega
  case fill =>
    split at hrun
    · cases hrun
    · cases hrun
      refine hfits.modify ?_
      rwa [Array.size_mapIdx]
  case slice =>
    cases hrun
    refine hfits.push ?_
    rw [Array.size_extract]
    omega
  case reverse =>
    cases hrun
    refine hfits.modify ?_
    rwa [Array.size_reverse]
  all_goals
    cases hrun
    exact hfits

private theorem method?_fitsIn {object : Value} {name : Text}
    {call : Heap → List Value → Outcome Value} (hmethod : method? object name = some call)
    {values : List Value} (hmakes : ∀ k, h.Makes k (call · values) → k ≤ bound) {v : Value}
    (hrun : call h values = .ok v h') : h'.FitsIn bound := by
  cases object <;> simp only [method?, Option.map_eq_some_iff, reduceCtorEq] at hmethod
  case array ref =>
    obtain ⟨method, -, rfl⟩ := hmethod
    exact callArray_fitsIn hbound hfits hrun
  case string t =>
    obtain ⟨method, -, rfl⟩ := hmethod
    refine callString_fitsIn hfits ?_ hrun
    -- of the methods of a string only `split` makes an array
    rintro rfl
    exact hmakes _ (.split rfl)
  case number x =>
    obtain ⟨method, -, rfl⟩ := hmethod
    exact callNumber_fitsIn hfits hrun
  case math =>
    obtain ⟨f, -, rfl⟩ := hmethod
    cases hrun
    exact hfits
  all_goals
    split at hmethod
    · simp only [Option.some.injEq] at hmethod
      subst hmethod
      cases hrun
      exact hfits
    · cases hmethod

private theorem callNative_fitsIn {function : Native} {values : List Value} {v : Value}
    (hmany : function = .array → (∀ n, values ≠ [.number n]) → values.length ≤ bound)
    (hrun : h.callNative function values = .ok v h') : h'.FitsIn bound := by
  cases function <;> simp only [callNative, reduceCtorEq] at hrun
  case array => exact constructArray_fitsIn hbound hfits (hmany rfl) hrun
  all_goals
    cases hrun
    exact hfits

private theorem setProperty_fitsIn {object : Value} {key : Text} {value : Value}
    (hrun : h.setProperty object key value = .ok () h') : h'.FitsIn bound := by
  cases object <;> simp only [setProperty, reduceCtorEq] at hrun
  -- a length that is set and an element that is added stay below the bound
  case array ref =>
    have hitems := hfits.items ref
    split at hrun
    · split at hrun
      · cases hrun
      · split at hrun
        · cases hrun
        · cases hrun
          refine hfits.modify ?_
          rw [size_resize]
          exact Nat.le_trans (toIndex_le _ _) hbound
    · split at hrun
      · cases hrun
        exact hfits
      · split at hrun
        · cases hrun
        · cases hrun
          refine hfits.modify ?_
          rw [size_setItem]
          omega
  all_goals
    cases hrun
    try exact hfits

/-- An operation makes no array longer than a bound above the limit, unless it makes one without a
    look at its length. -/
theorem IsOperation.fitsIn {α : Type} {operation : Heap → Outcome α}
    (hoperation : IsOperation operation) (hmakes : ∀ k, h.Makes k operation → k ≤ bound) {a : α}
    (hrun : operation h = .ok a h') : h'.FitsIn bound := by
  cases hoperation with
  | newArray items =>
    cases hrun
    exact hfits.push (hmakes _ (.literal rfl))
  | constructArray values =>
    exact constructArray_fitsIn hbound hfits (fun hmany => hmakes _ (.construct hmany rfl)) hrun
  | method hmethod values => exact method?_fitsIn hbound hfits hmethod hmakes hrun
  | callNative function values =>
    refine callNative_fitsIn hbound hfits ?_ hrun
    rintro rfl hmany
    exact hmakes _ (.call hmany rfl)
  | setProperty object key value => exact setProperty_fitsIn hbound hfits hrun

end

/-- An array that is made without a look at its length has that length. -/
theorem Makes.exists_size {α : Type} {operation : Heap → Outcome α} {k : Nat}
    (hmakes : h.Makes k operation) :
    ∃ a h', operation h = .ok a h' ∧ ∃ items ∈ h'.arrays, items.size = k := by
  have hconstruct {values : List Value} (hmany : ∀ n, values ≠ [.number n]) :
      h.constructArray values = h.newArray values.toArray := by
    unfold constructArray
    split
    · exact absurd rfl (hmany _)
    · rfl
  cases hmakes with
  | @literal items hsize => exact ⟨_, _, rfl, items, Array.mem_push_self, hsize⟩
  | @construct values hmany hlength =>
    exact ⟨_, _, hconstruct hmany, values.toArray, Array.mem_push_self, by simpa using hlength⟩
  | @call values hmany hlength =>
    exact ⟨_, _, hconstruct hmany, values.toArray, Array.mem_push_self, by simpa using hlength⟩
  | split hlength => exact ⟨_, _, rfl, _, Array.mem_push_self, by simpa using hlength⟩

end Heap

/-! ## Runs -/

/-- An operation makes an array of `k` items without a look at how many they are. -/
def Operation.Makes {α : Type} (h : Heap) (k : Nat) : Operation α → Prop
  | @Operation.onHeap _ _ operation _ => h.Makes k operation
  | _ => False

/-- The array is there when the operation has been performed. -/
theorem Operation.exists_size {α : Type} {o : Operation α} {m : Machine} {k : Nat}
    (hmakes : o.Makes m.heap k) :
    ∃ items ∈ (machineOf (o.perform m)).heap.arrays, items.size = k := by
  cases o with
  | onHeap place hoperation =>
    obtain ⟨a, h', hrun, hitems⟩ := Heap.Makes.exists_size hmakes
    simp only [perform, Eval.onHeap, hrun]
    exact hitems
  | _ => cases hmakes

theorem Operation.perform_fitsIn {α : Type} {bound : Nat} (hbound : maxArrayLength ≤ bound)
    (o : Operation α) {m : Machine} (hmakes : ∀ k, o.Makes m.heap k → k ≤ bound)
    (hfits : m.heap.FitsIn bound) : (machineOf (o.perform m)).heap.FitsIn bound := by
  cases o with
  -- all other operations leave the arrays as they are
  | onHeap place hoperation =>
    simp only [perform, Eval.onHeap]
    split
    · rename_i hrun
      exact hoperation.fitsIn hbound hfits hmakes hrun
    all_goals
      rename_i hrun
      exact hoperation.refusesWhole _ _ _ hrun ▸ hfits
  | newClosure closure => exact hfits
  | _ =>
    simp only [perform, Eval.tick, Eval.fail, Eval.fromHeap, Eval.readHeap, Eval.openScope,
      Eval.find?, Eval.define, Eval.declare, Eval.assign, Eval.checkCalls, Eval.print, Eval.input]
    repeat' split
    all_goals exact hfits

/-- No array ever has more items than that: in no state that the run visits, after nothing that it
    does, and not at its end. -/
structure Program.ArraysFit (program : Program) (fuel : Nat) (m : Machine) (bound : Nat) : Prop where
  visited : ∀ calls x m', program.Visits fuel m calls x m' →
    m'.heap.FitsIn bound ∧ (x.after m').heap.FitsIn bound
  atEnd : (machineOf (runProgram fuel program m)).heap.FitsIn bound

/-- On its way a run makes an array of `k` items without a look at how many they are. -/
def Program.Makes (program : Program) (fuel : Nat) (m : Machine) (k : Nat) : Prop :=
  ∃ (calls : List Call) (α : Type) (o : Operation α) (m' : Machine),
    program.Visits fuel m calls (.step o) m' ∧ o.Makes m'.heap k

/-! ## A text that is doubled and split -/

/-- The watchdog lets so many checks pass. -/
def Machine.Lasts (left : Nat) (m : Machine) : Prop :=
  ∃ spent, m.watchdog = .counting (spent + left) spent

theorem Machine.Lasts.tick {left : Nat} {m : Machine} (h : m.Lasts (left + 1)) (place : Position) :
    ∃ m', Eval.tick place m = .ok () m' ∧ m'.Lasts left ∧ m'.frames = m.frames := by
  obtain ⟨spent, hwatchdog⟩ := h
  have hgoes : m.watchdog.stop? = none := by
    rw [hwatchdog]
    simp [Watchdog.stop?, Watchdog.counting, Watchdog.delay]
  refine ⟨{ m with watchdog := m.watchdog.tick }, by simp only [Eval.tick, hgoes], ⟨spent + 1, ?_⟩, rfl⟩
  rw [hwatchdog]
  simp only [Watchdog.tick, Watchdog.counting, Watchdog.delay]
  simp
  omega

/-- The variable `s` of the outermost frame holds a text, and the watchdog lets so many checks
    pass. -/
structure Machine.Holds (t : Text) (left : Nat) (m : Machine) : Prop where
  bound : (m.frames.frame 0).lookup (text "s") = some ⟨.string t, true⟩
  lasts : m.Lasts left

namespace Machine.Holds

variable {t : Text} {left : Nat} {m : Machine}

theorem tick (h : m.Holds t (left + 1)) (place : Position) :
    ∃ m', Eval.tick place m = .ok () m' ∧ m'.Holds t left := by
  obtain ⟨m', htick, hlasts, hframes⟩ := h.lasts.tick place
  exact ⟨m', htick, hframes ▸ h.bound, hlasts⟩

theorem find? (h : m.Holds t left) :
    Eval.find? globalScope (text "s") m = .ok (some (.string t)) m := by
  simp [Eval.find?, Frames.get?, Frames.binding?, globalScope, h.bound]

theorem evaluate (h : m.Holds t left) (n : Nat) (place : Position) :
    Script.evaluate (n + 1) globalScope (.identifier place (text "s")) m = .ok (.string t) m := by
  simp only [Script.evaluate, Eval.find, Eval.bind_eq, h.find?]
  rfl

theorem assign (h : m.Holds t left) (u : Text) (place : Position) :
    ∃ m', Eval.assign globalScope (text "s") (.string u) place m = .ok () m' ∧ m'.Holds u left := by
  have hnone : m.frames.assignFault? (text "s") globalScope = none := by
    simp [Frames.assignFault?, Frames.binding?, globalScope, h.bound]
  have hsize : 0 < m.frames.size := by
    by_contra hempty
    have hbound := h.bound
    rw [Frames.frame_of_le (Nat.le_of_not_lt hempty)] at hbound
    cases hbound
  refine ⟨{ m with frames := m.frames.assign (text "s") (.string u) globalScope }, ?_, ?_, h.lasts⟩
  · simp only [Eval.assign, hnone]
  · simp [Frames.assign, globalScope, h.bound, Frames.lookup_modify hsize]

end Machine.Holds

/-- The statement `let s = t;`. -/
def Command.holding (place valuePlace : Position) (t : Text) : Command :=
  .declaration .let [⟨place, text "s", some (.string valuePlace t)⟩]

/-- The statement `s += s;`. -/
def Command.doubling (place target operand : Position) : Command :=
  .expression (.assign place .add (.identifier target (text "s")) (.identifier operand (text "s")))

/-- The statement `s.split('');`. -/
def Command.splitting (place member name separator : Position) : Command :=
  .expression (.call place (.member member (.identifier name (text "s")) (text "split"))
    [.string separator []])

/-- How often the text is doubled before it is split, if the statements do nothing else. -/
def doublings? : List Command → Option Nat
  | [.expression (.call _ (.member _ (.identifier _ name) method) [.string _ []])] =>
    if name = text "s" ∧ method = text "split" then some 0 else none
  | .expression (.assign _ .add (.identifier _ name) (.identifier _ other)) :: cs =>
    if name = text "s" ∧ other = text "s" then (doublings? cs).map (· + 1) else none
  | _ => none

/-- The length of the text that a program begins with, and how often it is doubled before it is
    split. -/
def Program.doubled? : Program → Option (Nat × Nat)
  | .declaration .let [⟨_, name, some (.string _ t)⟩] :: cs =>
    if name = text "s" then (doublings? cs).map fun k => (t.length, k) else none
  | _ => none

/-- The text is held in `s`. -/
theorem Machine.Lasts.run_holding {left : Nat} {m : Machine} (h : m.Lasts (left + 1))
    (hbound : (m.frames.frame 0).lookup (text "s") = none) (hsize : 0 < m.frames.size) (n : Nat)
    (place valuePlace : Position) (t : Text) :
    ∃ m', Script.run (n + 3) Machine.globalScope (.holding place valuePlace t) m = .ok .normal m' ∧
      m'.Holds t left := by
  obtain ⟨m₁, htick, hlasts, hframes⟩ := h.tick place
  have hnone : m₁.frames.declareFault? (text "s") Machine.globalScope = none := by
    simp [Frames.declareFault?, Machine.globalScope, hframes, hbound]
  refine ⟨{ m₁ with frames := m₁.frames.declare Machine.globalScope (text "s") ⟨.string t, true⟩ },
    ?_, ?_, hlasts⟩
  · simp only [Script.run, Command.holding, runDeclarators, Eval.bind_eq, htick, Script.evaluate,
      Eval.pure_eq, Eval.bindDeclared, Eval.declare, hnone]
  · simp only [Frames.declare, hnone, Option.isSome_none, Bool.false_eq_true, if_false]
    simp [Frames.bind, Machine.globalScope, hframes, Frames.lookup_modify hsize]

/-- It holds the text twice afterwards. -/
theorem Machine.Holds.run_doubling {t : Text} {left : Nat} {m : Machine} (h : m.Holds t (left + 1))
    (n : Nat) (place target operand : Position) :
    ∃ m', Script.run (n + 3) Machine.globalScope (.doubling place target operand) m = .ok .normal m' ∧
      m'.Holds (t ++ t) left := by
  obtain ⟨m₁, htick, h₁⟩ := h.tick place
  obtain ⟨m₂, hassign, h₂⟩ := h₁.assign (t ++ t) target
  refine ⟨m₂, ?_, h₂⟩
  have hsum : m₁.heap.binary .add (.string t) (.string t) = .string (t ++ t) := rfl
  simp only [Script.run, Command.doubling, Expression.position, Eval.bind_eq, htick, Script.evaluate,
    AssignmentOperator.binary?, Eval.find, h₁.find?, Eval.pure_eq, Eval.fromHeap, hsum, Script.store,
    hassign]

theorem Plan.callMethod_string {t name : Text} {call : Heap → List Value → Outcome Value}
    (hmethod : Heap.method? (.string t) name = some call) (values : List Value) (description : Text)
    (place : Position) :
    callMethod (.string t) name values description place =
      liftM (Operation.onHeap place (.method hmethod values)) := by
  simp only [callMethod]
  split
  · rename_i call' hmethod'
    obtain rfl := Option.some.inj (hmethod.symm.trans hmethod')
    rfl
  · rename_i hnone
    rw [hmethod] at hnone
    cases hnone

/-- The characters of a text are made into an array, however many they are. -/
theorem Machine.Holds.makes {t : Text} {left : Nat} {m : Machine} (h : m.Holds t (left + 2))
    (n : Nat) (place member name separator : Position) :
    ∃ m', ∃ o : Operation Value,
      (Task.runAll Machine.globalScope [.splitting place member name separator]).Visits (n + 6) m [] (.step o) m' ∧
        o.Makes m'.heap t.length := by
  -- the two checks that stand before the call
  obtain ⟨m₁, htick, h₁⟩ := h.tick place
  obtain ⟨m₂, htick', h₂⟩ := h₁.tick place
  have hsplit : Heap.method? (.string t) (text "split") =
      some fun h values => h.callString t .split values := rfl
  have hcall : (Task.evaluate Machine.globalScope (.call place
      (.member member (.identifier name (text "s")) (text "split")) [.string separator []])).Visits
        (n + 4) m₁ [] (.step (.onHeap place (.method hsplit [.string []]))) m₂ := by
    have harguments : Eval.inside none ((Task.evaluateAll Machine.globalScope
        [.string separator []]).perform (n + 3)) m₂ = .ok [.string []] m₂ := rfl
    refine Task.Visits.of_plan (.afterStep htick' (.afterTask (h₂.evaluate (n + 2) name)
      (.afterTask harguments ?_)))
    rw [Plan.bind, Plan.callMethod_string hsplit]
    exact .step
  have hrun : (Task.run Machine.globalScope (.splitting place member name separator)).Visits (n + 5) m []
      (.step (.onHeap place (.method hsplit [.string []]))) m₂ :=
    Task.Visits.of_plan (.afterStep htick (.nested hcall))
  exact ⟨m₂, _, Task.Visits.of_plan (.nested hrun), .split (List.length_map _)⟩

/-- The text is doubled some times and split. -/
theorem Machine.Holds.makes_doubled {cs : List Command} {k : Nat} (hcs : doublings? cs = some k)
    {t : Text} {left : Nat} {m : Machine} (h : m.Holds t (left + 2 + k)) (n : Nat) :
    ∃ m', ∃ o : Operation Value,
      (Task.runAll Machine.globalScope cs).Visits (n + 6 + k) m [] (.step o) m' ∧
        o.Makes m'.heap (2 ^ k * t.length) := by
  -- the doublings are taken from the front, and each doubles the text that is split in the end
  fun_induction doublings? cs generalizing k t m with
  | case1 place member name s method separator hnames =>
    obtain ⟨rfl, rfl⟩ := hnames
    cases hcs
    simpa [Command.splitting] using h.makes n place member name separator
  | case3 place target s operand s' cs hnames ih =>
    obtain ⟨rfl, rfl⟩ := hnames
    obtain ⟨k, hk, rfl⟩ := Option.map_eq_some_iff.1 hcs
    obtain ⟨m₁, hrun, h₁⟩ := h.run_doubling (n + 3 + k) place target operand
    obtain ⟨m', o, hvisits, hmakes⟩ := ih hk h₁
    have hfirst : Eval.inside none ((Task.run Machine.globalScope
        (.doubling place target operand)).perform (n + 6 + k)) m = .ok .normal m₁ := by
      rw [show n + 6 + k = n + 3 + k + 3 by omega]
      exact hrun
    have hlength : 2 ^ k * (t ++ t).length = 2 ^ (k + 1) * t.length := by
      rw [List.length_append, Nat.pow_succ]
      ring
    exact ⟨m', o, Task.Visits.of_plan (.afterTask hfirst hvisits), hlength ▸ hmakes⟩
  | case2 | case4 | case5 => cases hcs

/-- There are no functions among such statements. -/
private theorem hoist_of_doublings (scope : Scope) {cs : List Command} {k : Nat}
    (hcs : doublings? cs = some k) : Plan.hoist scope cs = pure () := by
  fun_induction doublings? cs generalizing k with
  | case1 => rfl
  | case3 place target s operand s' cs hnames ih =>
    obtain ⟨k, hk, rfl⟩ := Option.map_eq_some_iff.1 hcs
    exact ih hk
  | case2 | case4 | case5 => cases hcs

/-- A program that doubles a text makes an array of all its characters, however many they are. -/
theorem Program.makes_of_doubled {program : Program} {length k : Nat}
    (h : program.doubled? = some (length, k)) :
    program.Makes (k + 9) (Grant.start ⟨.counting (k + 3) 0, 5, [], none⟩) (2 ^ k * length) := by
  unfold doubled? at h
  split at h
  · rename_i place name valuePlace t cs
    split at h
    · rename_i hname
      subst hname
      obtain ⟨k, hk, hpair⟩ := Option.map_eq_some_iff.1 h
      cases hpair
      let m := Machine.enter (Grant.start ⟨.counting (k + 3) 0, 5, [], none⟩) (some ⟨topLevel, nowhere⟩)
      have hlasts : m.Lasts (k + 2 + 1) := ⟨0, by rw [Nat.zero_add]; rfl⟩
      obtain ⟨m₁, hrun, h₁⟩ := hlasts.run_holding (by with_unfolding_all rfl) Nat.one_pos (k + 4)
        place valuePlace t
      -- the doublings, and the split at the end of them
      obtain ⟨m', o, hvisits, hmakes⟩ := Machine.Holds.makes_doubled hk
        (show m₁.Holds t (0 + 2 + k) by rwa [Nat.zero_add, Nat.add_comm 2 k]) 1
      have hall : (Task.runAll Machine.globalScope (.holding place valuePlace t :: cs)).Visits (k + 8) m
          [] (.step o) m' := by
        rw [show 1 + 6 + k = k + 7 by omega] at hvisits
        exact Task.Visits.of_plan (.afterTask hrun hvisits)
      have hblock : (Task.runBlock Machine.globalScope (.holding place valuePlace t :: cs)).Visits
          (k + 9) m [] (.step o) m' := by
        refine Task.Visits.of_plan ?_
        change Plan.Visits _ (Plan.hoist _ cs >>= fun _ => _) _ _ _ _
        rw [hoist_of_doublings _ hk]
        exact .nested hall
      exact ⟨_, _, o, m', .inTask hblock, hmakes⟩
    · cases h
  · cases h

/-! ## Runs that keep to the limit -/

/-- Arrays are never longer than the limit, or a bound above it, exactly in those runs that make none
    longer than that by a literal, from the arguments of a constructor or from the parts of a text. -/
theorem Program.arraysFit_iff (program : Program) (fuel : Nat) (g : Grant) {bound : Nat}
    (hbound : maxArrayLength ≤ bound) :
    program.ArraysFit fuel g.start bound ↔ ∀ k, program.Makes fuel g.start k → k ≤ bound := by
  constructor
  · rintro hfits k ⟨calls, α, o, m, hvisits, hmakes⟩
    obtain ⟨items, hitems, rfl⟩ := Operation.exists_size hmakes
    exact (hfits.visited calls _ m hvisits).2 items hitems
  · intro hmakes
    have hdoes : program.plan.Does (fun m m' => m.heap.FitsIn bound → m'.heap.FitsIn bound) fuel
        g.start :=
      fun β o calls m hvisits => o.perform_fitsIn hbound fun k hk =>
        hmakes k ⟨calls, β, o, m, hvisits, hk⟩
    have hstart : g.start.heap.FitsIn bound := fun items hitems => absurd hitems (Array.not_mem_empty _)
    obtain ⟨hvisited, hend⟩ := Plan.invariant (fun _ _ hm => hm) hdoes hstart
    exact ⟨hvisited, by rwa [runProgram_eq_perform]⟩

/-- A script of less than two hundred characters that makes an array of more than a million items. -/
def doublingScript : Text :=
  text "let s = 'xxxxxxxxxxxxxxxxxxxxxxxxxxxxxxxxxxxxxxxxxxxxxxxxxxxxxxxxxxxxxxxx';\n" ++
    (List.replicate 14 (text "s += s; ")).flatten ++ text "\ns.split('');"

private theorem parse_doublingScript :
    ∃ program, Program.parse doublingScript = .ok program ∧ program.doubled? = some (64, 14) := by
  have hdoubled : (Program.parse doublingScript).toOption.bind Program.doubled? = some (64, 14) := by
    decide +kernel
  obtain ⟨program, hparse, hshape⟩ := Option.bind_eq_some_iff.1 hdoubled
  cases hresult : Program.parse doublingScript with
  | ok parsed =>
    rw [hresult] at hparse
    exact ⟨parsed, rfl, Option.some.inj hparse ▸ hshape⟩
  | error fault =>
    rw [hresult] at hparse
    cases hparse

/-- So that run does not keep to the limit. -/
theorem Program.arraysFit_iff_doubling :
    ∃ program, Program.parse doublingScript = .ok program ∧
      ¬program.ArraysFit 23 (Grant.start ⟨.counting 17 0, 5, [], none⟩) maxArrayLength := by
  obtain ⟨program, hparse, hdoubled⟩ := parse_doublingScript
  refine ⟨program, hparse, fun hfits => ?_⟩
  have hle := (Program.arraysFit_iff program 23 ⟨.counting 17 0, 5, [], none⟩
    (Nat.le_refl maxArrayLength)).1 hfits _ (Program.makes_of_doubled hdoubled)
  exact absurd hle (by decide)

/-- The parts of a text are made into an array that is longer than the limit. -/
theorem Program.not_arraysFit :
    ∃ program, Program.parse doublingScript = .ok program ∧
      ∃ calls x m, program.Visits 23 (Grant.start ⟨.counting 17 0, 5, [], none⟩) calls x m ∧
        ∃ items ∈ (x.after m).heap.arrays, maxArrayLength < items.size := by
  obtain ⟨program, hparse, hdoubled⟩ := parse_doublingScript
  obtain ⟨calls, α, o, m, hvisits, hmakes⟩ := Program.makes_of_doubled hdoubled
  obtain ⟨items, hitems, hsize⟩ := Operation.exists_size hmakes
  exact ⟨program, hparse, calls, _, m, hvisits, items, hitems, by rw [hsize]; decide⟩

end Pseudocode.Script
