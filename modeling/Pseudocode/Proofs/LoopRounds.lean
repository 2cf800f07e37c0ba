import Mathlib.Logic.Relation
import Pseudocode.Proofs.EvaluationFuel

/-!
# The rounds of a loop

Evaluation is given fuel, and more of it changes nothing. So what happens *with enough fuel* is a
relation between machines and results, `EndsWith`, in which fuel no longer occurs: what a sequence of
steps yields is put together from what the steps yield, and two ways to go on agree on a machine if
they yield the same there.

A loop is run round by round. In a round it approaches its update, unless the loop ends before that,
and then it advances. Two loops whose rounds agree on every machine that they reach begin the same
rounds on the same machines, and end in the same way.

* `EndsWith.bind_iff`             what a sequence of two steps yields
* `Loop.reaches_iff_of_agree`   loops whose rounds agree reach the same machines
* `Loop.agree_of_rounds`        and they yield the same
* `Command.agree_of_rounds`     so do the commands that begin with the loop's start
-/

namespace Pseudocode.Script

open Eval

/-! ## Enough fuel -/

/-- How something that happens on the machine ends. -/
abbrev Ended (α : Type) := EStateM.Result Unwind Machine α

/-- The value that is yielded, if there is one. -/
def Ended.value? {α : Type} : Ended α → Option α
  | .ok a _ => some a
  | .error _ _ => none

/-- An end that is not due to the fuel. -/
def IsProper {α : Type} (r : Ended α) : Prop := ∀ m, r ≠ .error .outOfFuel m

theorem isProper_ok {α : Type} (a : α) (m : Machine) : IsProper (.ok a m) := fun _ h => by cases h

theorem IsProper.error {α β : Type} {u : Unwind} {m : Machine}
    (h : IsProper (.error u m : Ended α)) : IsProper (.error u m : Ended β) := by
  intro m' heq
  cases heq
  exact h m rfl

theorem bind_of_ok {α β : Type} {x : Eval α} {f : α → Eval β} {a : α} {m m' : Machine}
    (h : x m = .ok a m') : (x >>= f) m = f a m' := by
  simp only [bind, EStateM.bind, h]

theorem bind_of_error {α β : Type} {x : Eval α} {f : α → Eval β} {u : Unwind} {m m' : Machine}
    (h : x m = .error u m') : (x >>= f) m = .error u m' := by
  simp only [bind, EStateM.bind, h]

/-- A sequence of two steps is left in one of them or is done. -/
theorem bind_eq_iff {α β : Type} {x : Eval α} {f : α → Eval β} {m : Machine} {r : Ended β} :
    (x >>= f) m = r ↔ (∃ a m', x m = .ok a m' ∧ f a m' = r) ∨
      ∃ u m', x m = .error u m' ∧ .error u m' = r := by
  simp only [bind, EStateM.bind]
  cases x m with
  | ok a m' => simp only [EStateM.Result.ok.injEq, reduceCtorEq, false_and, exists_false, or_false,
      and_assoc, exists_eq_left', exists_and_left]
  | error u m' => simp only [EStateM.Result.error.injEq, reduceCtorEq, false_and, exists_false,
      false_or, and_assoc, exists_eq_left', exists_and_left]

section

variable {α β : Type} {x y : Nat → Eval α} {f g : α → Nat → Eval β} {m : Machine} {r : Ended α}

/-- More fuel changes nothing, unless fuel runs out. -/
def Stabilizes (x : Nat → Eval α) : Prop := ∀ n extra, ExhaustedOrSame α (x n) (x (n + extra))

/-- The machine ends with the result if there is enough fuel. -/
structure EndsWith (x : Nat → Eval α) (m : Machine) (r : Ended α) : Prop where
  proper : IsProper r
  reached : ∃ n, x n m = r

/-- Both end with the same results. -/
def Agree (x y : Nat → Eval α) (m : Machine) : Prop := ∀ r, EndsWith x m r ↔ EndsWith y m r

theorem Agree.refl (x : Nat → Eval α) (m : Machine) : Agree x x m := fun _ => Iff.rfl

theorem Agree.symm (h : Agree x y m) : Agree y x m := fun r => (h r).symm

theorem EndsWith.at_least (hx : Stabilizes x) (h : EndsWith x m r) : ∃ n, ∀ k, n ≤ k → x k m = r := by
  obtain ⟨n, hn⟩ := h.reached
  refine ⟨n, fun k hk => ?_⟩
  rcases hx n (k - n) m with ⟨m', hout⟩ | hsame
  · exact absurd (hn.symm.trans hout) (h.proper m')
  · rw [← hn, hsame, Nat.add_sub_cancel' hk]

/-- What is computed with some fuel is what the machine ends with. -/
theorem EndsWith.map_eq (hx : Stabilizes x) {a : α} {m' : Machine} (h : EndsWith x m (.ok a m'))
    {γ : Type} {g : α → γ} {n : Nat} {c : γ} (hn : (Ended.value? (x n m)).map g = some c) : g a = c := by
  obtain ⟨k, hk⟩ := h.at_least hx
  rcases hx n k m with ⟨m'', hout⟩ | hsame
  · rw [hout] at hn
    cases hn
  · rw [hsame, hk _ (Nat.le_add_left k n)] at hn
    exact Option.some.inj hn

/-- Nothing ends without fuel. -/
theorem endsWith_succ_iff (hzero : ∀ m, x 0 m = .error .outOfFuel m) :
    EndsWith x m r ↔ EndsWith (fun n => x (n + 1)) m r := by
  constructor
  · rintro ⟨hproper, n, hn⟩
    cases n with
    | zero => exact absurd (hn.symm.trans (hzero m)) (hproper m)
    | succ n => exact ⟨hproper, n, hn⟩
  · rintro ⟨hproper, n, hn⟩
    exact ⟨hproper, n + 1, hn⟩

theorem Agree.of_succ (hx : ∀ m, x 0 m = .error .outOfFuel m) (hy : ∀ m, y 0 m = .error .outOfFuel m)
    (h : Agree (fun n => x (n + 1)) (fun n => y (n + 1)) m) : Agree x y m := by
  intro r
  rw [endsWith_succ_iff hx, endsWith_succ_iff hy]
  exact h r

/-- Two ways to go on agree if they do the same with some fuel more. -/
theorem agree_of_shift (hx : Stabilizes x) (hy : Stabilizes y) (i j : Nat)
    (h : ∀ n, x (n + i) m = y (n + j) m) : Agree x y m := by
  have hhalf {x y : Nat → Eval α} {i j : Nat} (hx : Stabilizes x)
      (h : ∀ n, x (n + i) m = y (n + j) m) {r : Ended α} (hr : EndsWith x m r) : EndsWith y m r := by
    obtain ⟨n, hn⟩ := hr.at_least hx
    exact ⟨hr.proper, n + j, by rw [← h n, hn _ (Nat.le_add_right n i)]⟩
  exact fun r => ⟨hhalf hx h, hhalf hy fun n => (h n).symm⟩

theorem Stabilizes.bind (hx : Stabilizes x) (hf : ∀ a, Stabilizes (f a)) :
    Stabilizes fun n => x n >>= fun a => f a n :=
  fun n extra => exhaustedOrSame_isClosed.bind (hx n extra) fun a => hf a n extra

theorem stabilizes_const (action : Eval α) : Stabilizes fun _ => action := fun _ _ _ => .inr rfl

/-- What a sequence of two steps yields. -/
theorem EndsWith.bind_iff (hx : Stabilizes x) (hf : ∀ a, Stabilizes (f a)) {r : Ended β} :
    EndsWith (fun n => x n >>= fun a => f a n) m r ↔
      (∃ a m', EndsWith x m (.ok a m') ∧ EndsWith (f a) m' r) ∨
        ∃ u m', EndsWith x m (.error u m') ∧ .error u m' = r := by
  constructor
  · rintro ⟨hproper, n, hn⟩
    rcases bind_eq_iff.1 hn with ⟨a, m', hfirst, hrest⟩ | ⟨u, m', hfirst, rfl⟩
    · exact .inl ⟨a, m', ⟨isProper_ok a m', n, hfirst⟩, hproper, n, hrest⟩
    · exact .inr ⟨u, m', ⟨hproper.error, n, hfirst⟩, rfl⟩
  · rintro (⟨a, m', hfirst, hrest⟩ | ⟨u, m', hfirst, rfl⟩)
    · obtain ⟨n, hn⟩ := hfirst.at_least hx
      obtain ⟨k, hk⟩ := hrest.at_least (hf a)
      -- more fuel changes neither part, so the larger amount does for both
      refine ⟨hrest.proper, max n k, bind_eq_iff.2 (.inl ⟨a, m', ?_, ?_⟩)⟩
      · exact hn _ (Nat.le_max_left n k)
      · exact hk _ (Nat.le_max_right n k)
    · obtain ⟨n, hn⟩ := hfirst.reached
      exact ⟨hfirst.proper.error, n, bind_eq_iff.2 (.inr ⟨u, m', hn, rfl⟩)⟩

theorem EndsWith.bind (hx : Stabilizes x) (hf : ∀ a, Stabilizes (f a)) {a : α} {m' : Machine} {r : Ended β}
    (h : EndsWith x m (.ok a m')) (hrest : EndsWith (f a) m' r) :
    EndsWith (fun n => x n >>= fun a => f a n) m r :=
  (bind_iff hx hf).2 (.inl ⟨a, m', h, hrest⟩)

/-- Sequences agree if their first steps agree, and so do the second ones wherever they begin. -/
theorem Agree.bind (hx : Stabilizes x) (hy : Stabilizes y) (hf : ∀ a, Stabilizes (f a))
    (hg : ∀ a, Stabilizes (g a)) (h : Agree x y m)
    (hrest : ∀ a m', EndsWith x m (.ok a m') → Agree (f a) (g a) m') :
    Agree (fun n => x n >>= fun a => f a n) (fun n => y n >>= fun a => g a n) m := by
  intro r
  rw [EndsWith.bind_iff hx hf, EndsWith.bind_iff hy hg]
  refine or_congr ?_ ?_
  · refine exists_congr fun a => exists_congr fun m' => ⟨?_, ?_⟩
    · exact fun ⟨hfirst, hr⟩ => ⟨(h _).1 hfirst, (hrest a m' hfirst r).1 hr⟩
    · exact fun ⟨hfirst, hr⟩ => ⟨(h _).2 hfirst, (hrest a m' ((h _).2 hfirst) r).2 hr⟩
  · exact exists_congr fun u => exists_congr fun m' => and_congr (h _) Iff.rfl

end

/-- Evaluation stabilizes. -/
theorem respects_more (n extra : Nat) : Respects ExhaustedOrSame n (n + extra) :=
  respects_add exhaustedOrSame_isClosed (fun _ _ m => .inl ⟨m, rfl⟩) n extra

theorem stabilizes_evaluate (scope : Scope) (e : Expression) : Stabilizes fun n => evaluate n scope e :=
  fun n extra => (respects_more n extra).evaluate scope e

theorem stabilizes_run (scope : Scope) (c : Command) : Stabilizes fun n => run n scope c :=
  fun n extra => (respects_more n extra).run scope c

/-! ## Loops -/

/-- A loop in its scope. -/
structure Loop where
  scope : Scope
  place : Position
  test : Option Expression
  update : Option Expression
  body : Command

/-- How a loop ends after its body; after most bodies it does not. -/
def Flow.leaves? : Flow → Option Flow
  | .broken => some .normal
  | .returned value => some (.returned value)
  | .normal | .continued => none

namespace Loop

/-- What follows the test of a round. -/
def perform (l : Loop) (onward : Bool) (n : Nat) : Eval (Option Flow) :=
  if onward then run n l.scope l.body >>= fun flow => pure flow.leaves?
  else pure (some .normal)

/-- A round up to the update, or how the loop ends before that. -/
def approach (l : Loop) (n : Nat) : Eval (Option Flow) := do
  tick l.place
  let onward ← goesOn n l.scope l.test
  l.perform onward n

/-- The update of a round. -/
def advance (l : Loop) (n : Nat) : Eval Unit :=
  match l.update with
  | none => pure ()
  | some e => do let _ ← evaluate n l.scope e

/-- All rounds. -/
def rounds (l : Loop) (n : Nat) : Eval Flow := runLoop n l.scope l.place l.test l.update l.body

/-- What follows the approach of a round. -/
def resume (l : Loop) (ended : Option Flow) (n : Nat) : Eval Flow :=
  match ended with
  | some flow => pure flow
  | none => l.advance n >>= fun _ => l.rounds n

theorem rounds_succ (l : Loop) (n : Nat) :
    l.rounds (n + 1) = l.approach n >>= fun ended => l.resume ended n := by
  rw [rounds, runLoop_eq_rounds, approach]
  simp only [bind_assoc]
  apply bind_congr
  intro _
  apply bind_congr
  intro onward
  cases onward with
  | false => rfl
  | true =>
    simp only [if_true, perform, bind_assoc, pure_bind]
    apply bind_congr
    intro flow
    cases flow <;> simp only [nextRound, Flow.leaves?, resume, advance, rounds] <;> cases l.update <;>
      simp only [pure_bind, bind_assoc]

theorem stabilizes_goesOn (scope : Scope) (test : Option Expression) :
    Stabilizes fun n => goesOn n scope test := by
  cases test with
  | none => exact stabilizes_const (pure true)
  | some e => exact (stabilizes_evaluate scope e).bind fun v => stabilizes_const (pure v.isTruthy)

theorem stabilizes_perform (l : Loop) (onward : Bool) : Stabilizes (l.perform onward) := by
  cases onward with
  | false => exact stabilizes_const (pure (some Flow.normal))
  | true => exact (stabilizes_run l.scope l.body).bind fun flow => stabilizes_const (pure flow.leaves?)

theorem stabilizes_approach (l : Loop) : Stabilizes l.approach :=
  (stabilizes_const (tick l.place)).bind fun _ =>
    (stabilizes_goesOn l.scope l.test).bind fun onward => l.stabilizes_perform onward

theorem stabilizes_advance (l : Loop) : Stabilizes l.advance := by
  intro n extra
  have hclosed := exhaustedOrSame_isClosed
  unfold advance
  cases l.update with
  | none => exact hclosed.pure ()
  | some e => exact hclosed.bind (stabilizes_evaluate l.scope e n extra) fun _ => hclosed.pure ()

theorem stabilizes_rounds (l : Loop) : Stabilizes l.rounds :=
  fun n extra => (respects_more n extra).runLoop l.scope l.place l.test l.update l.body

theorem stabilizes_resume (l : Loop) (ended : Option Flow) : Stabilizes (l.resume ended) := by
  cases ended with
  | some flow => exact stabilizes_const (pure flow)
  | none => exact l.stabilizes_advance.bind fun _ => l.stabilizes_rounds

/-- The update is due on the machine, in a round that began on the other one. -/
def Approaches (l : Loop) (m m' : Machine) : Prop := EndsWith l.approach m (.ok none m')

/-- One round leads from one machine to the other, where the next one begins. -/
def Round (l : Loop) (m m' : Machine) : Prop :=
  ∃ due, l.Approaches m due ∧ EndsWith l.advance due (.ok () m')

/-- A round begins on the machine, in a loop that began on the other one. -/
def Reaches (l : Loop) : Machine → Machine → Prop := Relation.ReflTransGen l.Round

/-- Two loops do the same in a round that begins on the machine. -/
structure AgreeIn (l k : Loop) (m : Machine) : Prop where
  approach : Agree l.approach k.approach m
  advance : ∀ due, l.Approaches m due → Agree l.advance k.advance due

variable {l k : Loop} {m m' : Machine}

section

variable {scope : Scope} {place : Position} {test test' update update' : Expression} {body : Command}

/-- Loops with the same body approach their updates in the same way if their tests agree. -/
theorem agree_approach
    (h : ∀ m, Agree (fun n => evaluate n scope test) (fun n => evaluate n scope test') m) :
    Agree (approach ⟨scope, place, some test, some update, body⟩)
      (approach ⟨scope, place, some test', some update', body⟩) m := by
  have htick := stabilizes_const (tick place)
  have honward (m : Machine) :
      Agree (fun n => goesOn n scope (some test)) (fun n => goesOn n scope (some test')) m :=
    .bind (stabilizes_evaluate scope test) (stabilizes_evaluate scope test')
      (fun v => stabilizes_const (pure v.isTruthy)) (fun v => stabilizes_const (pure v.isTruthy)) (h m)
      fun _ m' _ => .refl _ m'
  refine .bind htick htick (fun _ => ?_) (fun _ => ?_) (.refl _ m) fun _ m' _ => ?_
  · exact (stabilizes_goesOn scope _).bind (stabilizes_perform _)
  · exact (stabilizes_goesOn scope _).bind (stabilizes_perform _)
  · exact .bind (stabilizes_goesOn scope _) (stabilizes_goesOn scope _) (stabilizes_perform _)
      (stabilizes_perform ⟨scope, place, some test', some update', body⟩) (honward m')
      fun _ m'' _ => .refl _ m''

/-- Loops advance in the same way if their updates agree. -/
theorem agree_advance
    (h : Agree (fun n => evaluate n scope update) (fun n => evaluate n scope update') m) :
    Agree (advance ⟨scope, place, some test, some update, body⟩)
      (advance ⟨scope, place, some test', some update', body⟩) m :=
  .bind (stabilizes_evaluate scope update) (stabilizes_evaluate scope update')
    (fun _ => stabilizes_const (pure ())) (fun _ => stabilizes_const (pure ())) h fun _ m' _ => .refl _ m'

end

theorem AgreeIn.symm (h : AgreeIn l k m) : AgreeIn k l m :=
  ⟨h.approach.symm, fun due hdue => (h.advance due ((h.approach _).2 hdue)).symm⟩

theorem AgreeIn.round (h : AgreeIn l k m) (hround : l.Round m m') : k.Round m m' := by
  obtain ⟨due, happroach, hadvance⟩ := hround
  exact ⟨due, (h.approach _).1 happroach, (h.advance due happroach _).1 hadvance⟩

/-- Loops whose rounds agree on the machines that one of them reaches reach the same machines. -/
theorem reaches_iff_of_agree (h : ∀ m', l.Reaches m m' → l.AgreeIn k m') :
    l.Reaches m m' ↔ k.Reaches m m' := by
  constructor
  · intro hreach
    induction hreach with
    | refl => exact .refl
    | tail hreach hround ih => exact ih.tail ((h _ hreach).round hround)
  · intro hreach
    induction hreach with
    | refl => exact .refl
    | tail _ hround ih => exact ih.tail ((h _ ih).symm.round hround)

theorem endsWith_rounds_iff {r : Ended Flow} :
    EndsWith l.rounds m r ↔ EndsWith (fun n => l.approach n >>= fun ended => l.resume ended n) m r := by
  rw [endsWith_succ_iff fun m => rfl]
  simp only [rounds_succ]

/-- What one loop ends with, the other one does. The induction is on the fuel of the first loop, and goes
    from one round to the next. -/
theorem AgreeIn.endsWith_rounds {r : Ended Flow} (hproper : IsProper r) (n : Nat) (m : Machine)
    (h : ∀ m', l.Reaches m m' → l.AgreeIn k m') (hn : l.rounds n m = r) : EndsWith k.rounds m r := by
  -- on the fuel of the loop that ran; the other one takes what it needs
  induction n generalizing m with
  | zero => exact absurd hn.symm (hproper m)
  | succ n ih =>
    have hround := h m .refl
    rw [rounds_succ, bind_eq_iff] at hn
    rw [endsWith_rounds_iff, EndsWith.bind_iff k.stabilizes_approach k.stabilizes_resume]
    rcases hn with ⟨ended, due, hfirst, hrest⟩ | ⟨u, m', hfirst, rfl⟩
    · have happroach : EndsWith l.approach m (.ok ended due) := ⟨isProper_ok ended due, n, hfirst⟩
      refine .inl ⟨ended, due, (hround.approach _).1 happroach, ?_⟩
      cases ended with
      | some flow => exact ⟨hproper, n, hrest⟩
      | none =>
        have hagree := hround.advance due happroach
        refine (EndsWith.bind_iff k.stabilizes_advance fun _ => k.stabilizes_rounds).2 ?_
        rcases bind_eq_iff.1 hrest with ⟨a, m', hsecond, hnext⟩ | ⟨u, m', hsecond, rfl⟩
        · have hadvance : EndsWith l.advance due (.ok a m') := ⟨isProper_ok a m', n, hsecond⟩
          refine .inl ⟨a, m', (hagree _).1 hadvance, ?_⟩
          exact ih m' (fun m'' hreach => h m'' (.head ⟨due, happroach, hadvance⟩ hreach)) hnext
        · exact .inr ⟨u, m', (hagree _).1 ⟨hproper.error, n, hsecond⟩, rfl⟩
    · exact .inr ⟨u, m', (hround.approach _).1 ⟨hproper.error, n, hfirst⟩, rfl⟩

/-- Loops whose rounds agree on the machines that one of them reaches end in the same way. -/
theorem agree_of_rounds (h : ∀ m', l.Reaches m m' → l.AgreeIn k m') : Agree l.rounds k.rounds m := by
  have hback : ∀ m', k.Reaches m m' → k.AgreeIn l m' :=
    fun m' hreach => (h m' ((reaches_iff_of_agree h).2 hreach)).symm
  refine fun r => ⟨fun hr => ?_, fun hr => ?_⟩
  · obtain ⟨n, hn⟩ := hr.reached
    exact AgreeIn.endsWith_rounds hr.proper n m h hn
  · obtain ⟨n, hn⟩ := hr.reached
    exact AgreeIn.endsWith_rounds hr.proper n m hback hn

end Loop

/-! ## Commands that loop -/

/-- The scope of a loop, where its start has been run. -/
def beginLoop (scope : Scope) (start : Option (LoopStart Expression Position)) (n : Nat) :
    Eval Scope := do
  let inner ← openScope scope
  match start with
  | some (.declaration kind declarators) => runDeclarators n inner kind declarators
  | some (.expression e) => let _ ← evaluate n inner e
  | none => pure ()
  return inner

theorem stabilizes_beginLoop (scope : Scope) (start : Option (LoopStart Expression Position)) :
    Stabilizes (beginLoop scope start) := by
  intro n extra
  have hclosed := exhaustedOrSame_isClosed
  refine hclosed.bind (hclosed.openScope scope) fun inner => ?_
  rcases start with - | ⟨kind, declarators⟩ | e
  · exact hclosed.pure inner
  · exact hclosed.bind ((respects_more n extra).runDeclarators inner kind declarators) fun _ =>
      hclosed.pure inner
  · exact hclosed.bind (stabilizes_evaluate inner e n extra) fun _ => hclosed.pure inner

namespace Command

variable {place : Position} {start : Option (LoopStart Expression Position)}
  {test test' update update' : Option Expression} {body : Command} {scope : Scope} {m : Machine}

/-- A round of the command begins in the inner scope on the other machine. -/
def AtRound (scope : Scope) (m : Machine) (inner : Scope) (m' : Machine) : Command → Prop
  | .forLoop place start test update body => ∃ first, EndsWith (beginLoop scope start) m (.ok inner first) ∧
      Loop.Reaches ⟨inner, place, test, update, body⟩ first m'
  | _ => False

/-- The update of a round is due on the other machine. -/
def AtUpdate (scope : Scope) (m : Machine) (inner : Scope) (due : Machine) : Command → Prop
  | .forLoop place start test update body =>
    ∃ m', AtRound scope m inner m' (.forLoop place start test update body) ∧
      Loop.Approaches ⟨inner, place, test, update, body⟩ m' due
  | _ => False

theorem run_forLoop (n : Nat) : run (n + 1) scope (.forLoop place start test update body) =
    beginLoop scope start n >>= fun inner => Loop.rounds ⟨inner, place, test, update, body⟩ n := by
  rw [run, beginLoop]
  simp only [bind_assoc]
  apply bind_congr
  intro inner
  rcases start with - | ⟨kind, declarators⟩ | e <;> simp [Loop.rounds]

/-- Counting loops that start alike and whose rounds agree begin the same rounds, and end in the same
    way. -/
theorem agree_of_rounds
    (h : ∀ inner m', AtRound scope m inner m' (.forLoop place start test update body) →
      Loop.AgreeIn ⟨inner, place, test, update, body⟩ ⟨inner, place, test', update', body⟩ m') :
    Agree (fun n => run n scope (.forLoop place start test update body))
        (fun n => run n scope (.forLoop place start test' update' body)) m ∧
      ∀ inner m', AtRound scope m inner m' (.forLoop place start test update body) ↔
        AtRound scope m inner m' (.forLoop place start test' update' body) := by
  -- both loops begin in the same way, and from there they agree round by round
  have hrounds (inner : Scope) (first : Machine)
      (hfirst : EndsWith (beginLoop scope start) m (.ok inner first)) (m' : Machine)
      (hreach : Loop.Reaches ⟨inner, place, test, update, body⟩ first m') :
      Loop.AgreeIn ⟨inner, place, test, update, body⟩ ⟨inner, place, test', update', body⟩ m' :=
    h inner m' ⟨first, hfirst, hreach⟩
  constructor
  · have hagree : Agree
        (fun n => beginLoop scope start n >>= fun inner => Loop.rounds ⟨inner, place, test, update, body⟩ n)
        (fun n => beginLoop scope start n >>= fun inner => Loop.rounds ⟨inner, place, test', update', body⟩ n)
        m := by
      have hbegin := stabilizes_beginLoop scope start
      refine .bind hbegin hbegin (fun _ => Loop.stabilizes_rounds _) (fun _ => Loop.stabilizes_rounds _)
        (.refl _ m) fun inner first hfirst => ?_
      exact Loop.agree_of_rounds (hrounds inner first hfirst)
    refine .of_succ (fun _ => rfl) (fun _ => rfl) ?_
    simp only [run_forLoop]
    exact hagree
  · refine fun inner m' => exists_congr fun first => and_congr_right fun hfirst => ?_
    exact Loop.reaches_iff_of_agree (hrounds inner first hfirst)

end Command

end Pseudocode.Script
