import Pseudocode.Proofs.DisciplinedEvaluation
import Pseudocode.Report.Location

/-!
# Constants and redeclarations

What the checks before a run are worth while it runs.

* `Program.constants_never_change`   no run of a program changes a constant
* `Program.no_syntaxError`           a program without declarations in rounds of loops, or outside of
                                     functions and blocks, never declares a name again
-/

namespace Pseudocode.Script

open Eval Frames

/-! ## Fresh machines -/

section

variable {strict : Prop} (watchdog : Watchdog) (maxCalls : Nat) (answers : List Text)

theorem Machine.isSound_start : (Machine.start watchdog maxCalls answers none).IsSound strict :=
  ⟨rfl, fun _ hc => absurd hc (Array.not_mem_empty _)⟩

theorem Machine.isScope_start :
    (Machine.start watchdog maxCalls answers none).frames.IsScope Machine.globalScope where
  inside id hid := by
    obtain rfl := List.mem_singleton.1 hid
    exact Nat.zero_lt_one
  outermost := rfl

theorem lookup_map_mutable (bindings : List (Text × Value)) (name : Text) (b : Binding)
    (h : List.lookup name (bindings.map fun (name, value) => (name, (⟨value, true⟩ : Binding)))
      = some b) : b.isMutable = true := by
  induction bindings with
  | nil => cases h
  | cons first rest ih =>
    rw [List.map_cons, Frame.lookup_cons] at h
    split at h
    · rw [← Option.some.inj h]
    · exact ih h

/-- Nothing that every script knows is constant. -/
theorem Machine.agrees_start {isVariable : Text → Prop} (hall : strict → ∀ name, isVariable name) :
    (Machine.start watchdog maxCalls answers none).frames.Agrees strict Machine.globalScope
      isVariable [] where
  not_constant id hid name _ := by
    obtain rfl : 0 = id := Option.some.inj hid
    rintro ⟨b, hb, himmutable⟩
    rw [lookup_map_mutable _ _ b hb] at himmutable
    cases himmutable
  accounted hstrict _ _ name _ := .inl (hall hstrict name)
  outermost hstrict _ := hall hstrict

/-! ## Whole runs -/

/-- The machine at the end of a run. -/
def Program.finish (program : Program) (m : Machine) : Machine :=
  machineOf (runProgram (m.fuel program) program m)

theorem Program.finish_eq (program : Program) {watchdog : Watchdog}
    (hrunning : watchdog.running = true) (extra : Nat) :
    let m := Machine.start watchdog maxCalls answers none
    program.finish m = machineOf (runProgram (m.fuel program + extra) program m) := by
  intro m
  rcases runProgram_add program (m.fuel program) extra m with ⟨m', hout⟩ | hsame
  · exact absurd hout
      (runProgram_ne_outOfFuel program watchdog hrunning maxCalls answers none 0 m')
  · rw [Program.finish, hsame]

end

/-- No run changes a constant. What is constant when `k` checks of a run have passed is the same
    constant whenever the run ends, or is stopped, after these checks. -/
theorem Program.constants_never_change {t : Text} {program : Program}
    (hparse : Program.parse t = .ok program) (maxCalls : Nat) (answers : List Text) {w : Watchdog}
    (hrunning : w.running = true) {k : Nat} (hpasses : w.Passes k) :
    (program.finish (Machine.start (.counting k 0) maxCalls answers none)).frames.KeepsConstants
      (program.finish (Machine.start w maxCalls answers none)).frames := by
  obtain ⟨hnames, hsound⟩ := Program.isSound_of_parse False hparse
  let m := Machine.start (.counting k 0) maxCalls answers none
  let m' := Machine.start w maxCalls answers none
  -- both runs get the fuel of both, so that they can be compared
  have hobeys := obeys_runProgram (m.fuel program + m'.fuel program) (hsound False.elim) hnames.fits m
    (Machine.isSound_start _ _ _) (Machine.isScope_start _ _ _)
    (Machine.agrees_start _ _ _ False.elim)
  have hprecedes : m.watchdog.Precedes w :=
    ⟨k, 0, by rw [Nat.zero_add]; rfl, hpasses⟩
  have hbeside := hobeys.beside hprecedes
  rw [Program.finish_eq maxCalls answers program
      (show (Watchdog.counting k 0).running = true from rfl) (m'.fuel program),
    Program.finish_eq maxCalls answers program hrunning (m.fuel program),
    Nat.add_comm (m'.fuel program)]
  rw [show ({ m with watchdog := w } : Machine) = m' from rfl] at hbeside
  generalize runProgram (m.fuel program + m'.fuel program) program m = left at hbeside
  generalize runProgram (m.fuel program + m'.fuel program) program m' = right at hbeside
  cases hbeside with
  | ok => exact .refl _
  | error => exact .refl _
  | stopped hkeeps => exact hkeeps

/-- A constant that the program tries to assign to. -/
theorem Program.constants_never_change_assigned :
    ∃ program, Program.parse (text "const c = true; c = false;") = .ok program ∧
      (Watchdog.start 1000 .cumulative).Passes 1 ∧
      (program.finish (Machine.start (.counting 1 0) 5 [] none)).frames.HasConstant 0 (text "c")
        ⟨.bool true, false⟩ ∧
      (program.finish (Machine.start (.start 1000 .cumulative) 5 [] none)).frames.HasConstant 0
        (text "c") ⟨.bool true, false⟩ := by
  let program : Program := [.declaration .const [⟨⟨1, 7⟩, text "c", some (.bool ⟨1, 11⟩ true)⟩],
    .expression (.assign ⟨1, 17⟩ .plain (.identifier ⟨1, 17⟩ (text "c")) (.bool ⟨1, 21⟩ false))]
  have hparse : Program.parse (text "const c = true; c = false;") = .ok program := by
    with_unfolding_all rfl
  have hpasses : (Watchdog.start 1000 .cumulative).Passes 1 :=
    ⟨⟨by decide, trivial, trivial⟩, by decide, trivial, trivial⟩
  have hconstant : (program.finish (Machine.start (.counting 1 0) 5 [] none)).frames.HasConstant 0
      (text "c") ⟨.bool true, false⟩ := by
    with_unfolding_all exact ⟨rfl, rfl⟩
  exact ⟨program, hparse, hpasses, hconstant,
    Program.constants_never_change hparse 5 [] rfl hpasses 0 _ _ hconstant⟩

/-- A run ended with an error that should have been found before it started. -/
def Ending.IsSyntaxError : Ending → Prop
  | .unwound why => why.IsSyntaxError
  | .done => False

instance (e : Ending) : Decidable e.IsSyntaxError :=
  match e with
  | .unwound (.failed f) => inferInstanceAs (Decidable (f.cause.name = .syntaxError))
  | .unwound (.timedOut _) | .unwound .cancelled | .unwound .conflict | .unwound .outOfFuel
  | .done => isFalse id

/-- If no round of a loop declares a name with `let` or `const` outside of a block, and nothing is
    declared so outside of functions and blocks, then no run ends with an error that should have been
    found before it started. -/
theorem Program.no_syntaxError {t : Text} {program : Program} (hparse : Program.parse t = .ok program)
    (htop : lexicalsAll program = []) (hloops : Command.LoopsDeclareNothingAll program)
    (maxCalls : Nat) (answers : List Text) (w : Watchdog) :
    ¬(program.run (Machine.start w maxCalls answers none)).ending.IsSyntaxError := by
  obtain ⟨hnames, hsound⟩ := Program.isSound_of_parse True hparse
  let m := Machine.start w maxCalls answers none
  have hfits : Fits (fun _ => True) [] (varsAll program) (lexicalsAll program) := by
    rw [htop]
    exact ⟨fun _ _ => trivial, by simp, List.nodup_nil⟩
  have hobeys := obeys_runProgram (m.fuel program) (hsound fun _ => hloops) hfits m
    (Machine.isSound_start _ _ _) (Machine.isScope_start _ _ _)
    (Machine.agrees_start _ _ _ fun _ _ => trivial)
  rw [run_eq_ofEnd, show Machine.start w maxCalls answers none = m from rfl]
  cases hend : runProgram (m.fuel program) program m with
  | ok u m' => exact id
  | error u m' => exact (hobeys.error hend).2 trivial

/-- A script that declares a name again in another block. -/
theorem Program.no_syntaxError_shadowed :
    ∃ program, Program.parse (Translation.wrapped (text "let x; while (true) { let x; break; }"))
        = .ok program ∧ lexicalsAll program = [] ∧ Command.LoopsDeclareNothingAll program ∧
      ¬(program.run (Machine.start (.start 1000 .cumulative) 5 [] none)).ending.IsSyntaxError := by
  let program : Program := [.function ⟨1, 1⟩ (text "__program__") ⟨1, 16⟩
    [text "print", text "input"] true
    [.declaration .let [⟨⟨2, 5⟩, text "x", none⟩],
      .whileLoop (.bool ⟨2, 15⟩ true)
        (.block [.declaration .let [⟨⟨2, 27⟩, text "x", none⟩], .breaking ⟨2, 30⟩])]]
  have hparse : Program.parse
      (Translation.wrapped (text "let x; while (true) { let x; break; }")) = .ok program := by
    with_unfolding_all rfl
  have htop : lexicalsAll program = [] := by simp [program, lexicalsAll, Command.lexicals]
  have hloops : Command.LoopsDeclareNothingAll program := by
    simp [program, Command.LoopsDeclareNothingAll, Command.LoopsDeclareNothing, Command.lexicals]
  exact ⟨program, hparse, htop, hloops,
    Program.no_syntaxError hparse htop hloops 5 [] (.start 1000 .cumulative)⟩

/-- A loop whose body is a declaration makes the same declaration again in its second round. -/
theorem Program.syntaxError_of_declaration_in_loop :
    ∃ program, Program.parse (Translation.wrapped (text "while (true) let x;")) = .ok program ∧
      (program.run (Machine.start (.start 1000 .cumulative) 5 [] none)).ending.IsSyntaxError := by
  let program : Program := [.function ⟨1, 1⟩ (text "__program__") ⟨1, 16⟩
    [text "print", text "input"] true
    [.whileLoop (.bool ⟨2, 8⟩ true) (.declaration .let [⟨⟨2, 18⟩, text "x", none⟩])]]
  have hparse : Program.parse (Translation.wrapped (text "while (true) let x;")) = .ok program := by
    with_unfolding_all rfl
  exact ⟨program, hparse, by decide +kernel⟩

end Pseudocode.Script
