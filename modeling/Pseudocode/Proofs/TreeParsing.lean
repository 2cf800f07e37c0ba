import Pseudocode.Proofs.SentenceReading
import Pseudocode.Proofs.TreeReading

/-!
# Trees are parsed as they are written

What is nested in the text of a tree is shorter than the text, so with as much fuel as there are
characters every tree is read. A tree that stands by itself, with a semicolon behind it, is a program
of one statement, or is nested too deeply; and a text is not nested too deeply unless it is long.

* `Tree.readsInside`    trees are read, whatever their shape
* `Tree.parse_source`   the program of the text of a tree
-/

namespace Pseudocode.Script

open Reader Grammar

namespace Tree

/-- With as much depth as there are characters, the text of a tree is read. -/
theorem readsInside {fuel depth : Nat} (hfuel : depth ≤ fuel) (e : Tree)
    (hsound : e.expression.IsSound) (hlength : e.source.length ≤ depth) :
    ReadsInside (phrase fuel depth) e.source e.expression := by
  induction depth generalizing e with
  -- no text is empty
  | zero =>
    have hpos := e.starts.length_pos
    omega
  | succ depth ih =>
    refine ⟨e.starts, fun t ht => ?_⟩
    -- what is nested is shorter, so a depth of one less is enough for it
    have hself (e : Tree) (hsound : e.expression.IsSound) (hshorter : e.source.length < depth + 1) :=
      ih (by omega) e hsound (by omega)
    have hempty : ∀ c ∈ closers, ∀ t, Fails (phrase fuel depth) (c :: t) :=
      fun c hc t => fails_phrase hc t depth
    exact (readsLevel hself hempty hfuel e hsound hlength).reads_whole (by omega) ht

/-- A tree with a semicolon behind it is read as one sentence. -/
theorem read_source (e : Tree) (hsound : e.expression.IsSound) :
    ∃ p, read (e.source ++ [';']) = .ok [.expression p] ∧
      p.Means (12 * e.source.length) e.expression := by
  -- one more than the characters of the text
  obtain ⟨n, hn⟩ : ∃ n, (e.source ++ [';']).length = n := ⟨_, rfl⟩
  have hlength : e.source.length + 1 = n := by simpa using hn
  have hinside : ReadsInside (Grammar.expression (n + 1)) e.source e.expression :=
    readsInside (Nat.le_refl _) e hsound (by omega)
  have hsemicolon : ';' ∈ closers := by decide
  have hsign : ∀ c ∈ (e.source ++ [';']).head?, c ∉ ['\x7b', ';'] := by
    obtain ⟨c, r, hcons, -, hsign⟩ := e.starts.head
    rw [hcons]
    rintro _ ⟨⟩ hmem
    exact hsign (by fin_cases hmem <;> decide)
  have hsentence : Reads (statement (n + 1) (n + 1)) (e.source ++ [';'])
      (fun s => ∃ p, s = .expression p ∧ p.Means (12 * e.source.length) e.expression) [] :=
    reads_expression (hinside.reads_closer hsemicolon []) hsign
      (e.starts.word [';'] (endsWord_cons rfl []))
  -- the sentence is the only one: behind it the text has ended
  have hall : ReadsAll (statement (n + 1) (n + 1))
      (fun (_ : Unit) s => ∃ p, s = .expression p ∧ p.Means (12 * e.source.length) e.expression)
      (e.source ++ [';']) [()] [] := .cons hsentence (.nil (fails_statement_nil _))
  rw [← hn] at hall
  obtain ⟨ss, hread, hss⟩ := read_eq_ok (e.starts.skip_append [';']) hall (by simp)
  obtain ⟨s, rest, ⟨p, rfl, hp⟩, hrest, rfl⟩ := List.forall₂_cons_left_iff.1 hss
  obtain rfl := List.forall₂_nil_left_iff.1 hrest
  exact ⟨p, hread, hp⟩

/-- The text of a tree, with a semicolon behind it, is parsed as one statement: the expression that
    the tree means, at the positions of the text. It is rejected only as nested too deeply, and not
    if it is short. -/
theorem parse_source (e : Tree) (hsound : e.expression.IsSound) :
    (∃ e', Program.parse (e.source ++ [';']) = .ok [.expression e'] ∧
      e'.unplaced = e.expression) ∨
    ∃ position, Program.parse (e.source ++ [';']) = .error ⟨position, .tooDeep⟩ ∧
      Program.maxDepth < 12 * e.source.length := by
  obtain ⟨p, hread, hp⟩ := e.read_source hsound
  have hchecked := hp (LineIndex.ofText (e.source ++ [';'])) 0 0
  rw [Nat.zero_add] at hchecked
  -- what was read passes the check, or it is nested too deeply for it
  cases hcheck : p.check (LineIndex.ofText (e.source ++ [';'])) 0 0 with
  | ok found =>
    rw [hcheck] at hchecked
    refine .inl ⟨found.1, ?_, hchecked.1⟩
    rw [Program.parse_of_read hread]
    simp only [Statement.checkAll, Statement.check, Phrase.checkWhole, bind, Except.bind, hcheck]
    rfl
  | error fault =>
    rw [hcheck] at hchecked
    obtain ⟨position, cause⟩ := fault
    obtain ⟨rfl, hdeep⟩ := hchecked
    refine .inr ⟨position, ?_, hdeep⟩
    rw [Program.parse_of_read hread]
    simp only [Statement.checkAll, Statement.check, Phrase.checkWhole, bind, Except.bind, hcheck]
    rfl

/-- An assignment with parentheses of both kinds: around an operand that is looser than its operator,
    and around a number before a point. -/
def scaled : Tree :=
  let x : Identifier := ⟨['x'], ⟨⟨'x', [], rfl, rfl⟩, List.all_eq_true.1 rfl, by decide⟩⟩
  let y : MemberName := ⟨['y'], ⟨'y', [], rfl, rfl⟩, List.all_eq_true.1 rfl⟩
  let two : Literal := ⟨['2'], none, none, List.all_eq_true.1 rfl, List.cons_ne_nil _ _⟩
  assign .plain (identifier x)
    (binary .multiply (binary .subtract (identifier x) null) (member (number two) y))

theorem parse_source_scaled :
    scaled.expression.IsSound ∧ scaled.source = text "x = (x - null) * (2).y" ∧
      ∃ e', Program.parse (text "x = (x - null) * (2).y;") = .ok [.expression e'] ∧
        e'.unplaced = scaled.expression := by
  have hsound : scaled.expression.IsSound :=
    .assign .identifier rfl (.binary (.binary .identifier .null) (.member .number))
  have htext : scaled.source = text "x = (x - null) * (2).y" := rfl
  refine ⟨hsound, htext, ?_⟩
  rcases parse_source scaled hsound with h | ⟨position, -, hdeep⟩
  · rwa [htext] at h
  · exact absurd hdeep (by decide)

end Tree

end Pseudocode.Script
