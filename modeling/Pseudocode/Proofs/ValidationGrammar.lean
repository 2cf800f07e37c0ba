import Pseudocode.Proofs.BlockGrammar

/-!
# Validation accepts the structured programs

A validation state without errors shows one of three phases: nothing has been read, the header has
been read and some blocks are open, or the footer has been read. A line either takes the phase to
the next one, as the stack machine of the grammar does, or adds an error, and errors stay.

The main result, `hasErrors_validate_eq_false_iff`, says that the programs without errors are
exactly the ones that the grammar generates.
-/

namespace Pseudocode.Validation

/-- The statements of a program: what its lines say, blank lines and comments left out. -/
def statements (lines : List Line) : List Statement :=
  (lines.filter fun line => !line.isTrivial).map fun line => Statement.classify line.trimmed

/-! ## States without errors -/

/-- Nothing that was found keeps the program from being run. -/
def State.IsClean (s : State) : Prop := ∀ f ∈ s.findings, f.isError = false

@[simp] theorem State.isClean_report {s : State} {line : Line} {cause : Finding.Cause} :
    (s.report line cause).IsClean ↔ cause.isError = false ∧ s.IsClean := by
  simp [State.IsClean, State.report, Finding.isError]

@[simp] theorem State.isClean_reportAt {s : State} {lines : List Line} {number : Nat}
    {cause : Finding.Cause} :
    (s.reportAt lines number cause).IsClean ↔ cause.isError = false ∧ s.IsClean := by
  simp [State.IsClean, State.reportAt, Finding.isError]

/-- The frames are the blocks of a stack, with the lines they were opened at. -/
inductive Mirrors : List Frame → List OpenBlock → Prop where
  | nil : Mirrors [] []
  | cons {f : Frame} {b : OpenBlock} {frames : List Frame} {stack : List OpenBlock}
      (kind : f.kind = b.block.kind) (loopVariable : f.loopVariable = b.block.loopVariable)
      (hasElse : f.hasElse = b.hasElse) (below : Mirrors frames stack) :
      Mirrors (f :: frames) (b :: stack)

theorem Mirrors.eq_nil_iff {frames : List Frame} {stack : List OpenBlock}
    (h : Mirrors frames stack) : frames = [] ↔ stack = [] := by
  cases h <;> simp

/-- The state has no errors, and its open blocks are the ones of `stack`. -/
structure State.Shows (s : State) (stack : List OpenBlock) : Prop where
  clean : s.IsClean
  blocks : Mirrors s.stack stack

/-! ## Places -/

theorem Mirrors.any_function {frames : List Frame} {stack : List OpenBlock}
    (h : Mirrors frames stack) :
    (frames.any fun f => f.kind = .function) = true ↔ InFunction (enclosing stack) := by
  induction h with
  | nil => simp [InFunction]
  | cons kind _ _ _ ih => simp_all [InFunction]

theorem Mirrors.find?_loop {frames : List Frame} {stack : List OpenBlock}
    (h : Mirrors frames stack) :
    ((frames.find? fun f => f.kind.isLoop || f.kind = .function).any fun f => f.kind.isLoop) =
      true ↔ InLoop (enclosing stack) := by
  induction h with
  | nil => simp [not_inLoop_nil]
  | @cons f b _ _ kind _ _ _ ih =>
    simp only [enclosing, List.map_cons, inLoop_cons] at ih ⊢
    rw [← ih, ← kind, List.find?_cons]
    cases hk : f.kind <;> simp [BlockKind.isLoop, hk]

theorem Mirrors.find?_variable {frames : List Frame} {stack : List OpenBlock}
    (h : Mirrors frames stack) (name : Text) :
    (frames.reverse.find? fun f => f.loopVariable = some name) = none ↔
      IsFresh name (enclosing stack) := by
  induction h with
  | nil => simp [IsFresh]
  | cons _ loopVariable _ _ ih => simp_all [IsFresh, and_comm]

/-! ## One statement -/

private theorem kind_eq_branch {e : Enclosing} : e.kind = .branch ↔ e = .branch := by
  cases e <;> simp

/-- A jump out of a loop is reported unless there is one. -/
theorem State.isClean_checkLoopControl {s : State} {stack : List OpenBlock} {line : Line}
    {control : LoopControl} (h : s.Shows stack) :
    (s.checkLoopControl line control).IsClean ↔ InLoop (enclosing stack) := by
  rw [← h.blocks.find?_loop, State.checkLoopControl]
  cases s.stack.find? fun f => f.kind.isLoop || f.kind = .function with
  | none => simp [Finding.Cause.isError]
  | some frame =>
    by_cases hloop : frame.kind.isLoop
    · simp [hloop, h.clean]
    · simp [hloop, Finding.Cause.isError]

theorem State.stack_checkLoopControl (s : State) (line : Line) (control : LoopControl) :
    (s.checkLoopControl line control).stack = s.stack := by
  rw [State.checkLoopControl]
  split
  · split <;> rfl
  · rfl

/-- Entering a block puts it on both stacks. -/
theorem State.Shows.enter {s : State} {stack : List OpenBlock} (h : s.Shows stack) (line : Line)
    (block : Enclosing) :
    (s.enter line block.kind block.loopVariable).Shows (⟨block, false⟩ :: stack) :=
  ⟨h.clean, .cons rfl rfl rfl h.blocks⟩

/-- A check that only reports keeps what is open, and a state stays as it is or gets an error. -/
private theorem shows_iff {s s' : State} {stack : List OpenBlock} (h : s.Shows stack)
    (hstack : s'.stack = s.stack) : s'.Shows stack ↔ s'.IsClean :=
  ⟨fun h' => h'.clean, fun hclean => ⟨hclean, hstack ▸ h.blocks⟩⟩

/-- The ending of a block closes the block on top, if that block is of its kind. -/
theorem State.leave_of_advance {s : State} {stack : List OpenBlock} {line : Line}
    {kind : BlockKind} (h : s.Shows stack) :
    match advance? stack (.ending kind) with
    | some stack' => (s.leave line kind).Shows stack'
    | none => ¬ (s.leave line kind).IsClean := by
  obtain ⟨hclean, hblocks⟩ := h
  rw [State.leave]
  generalize hframes : s.stack = frames at hblocks
  cases hblocks with
  | nil => simp [advance?, MayStand, Finding.Cause.isError]
  | @cons f b frames stack hkind _ _ hbelow =>
    by_cases htop : b.block.kind = kind
    · simp only [advance?, hkind, htop, if_true]
      exact ⟨hclean, hbelow⟩
    · simp [advance?, hkind, htop, Finding.Cause.isError]

/-- An alternative needs an `if` block on top that has no `else` yet. -/
theorem State.elseIf_of_advance {s : State} {stack : List OpenBlock} {line : Line}
    {condition : Text} (h : s.Shows stack) :
    match advance? stack (.elseIf condition) with
    | some stack' => (s.step line (.elseIf condition)).Shows stack'
    | none => ¬ (s.step line (.elseIf condition)).IsClean := by
  have hs := h
  obtain ⟨hclean, hblocks⟩ := h
  rw [State.step]
  generalize hframes : s.stack = frames at hblocks
  cases hblocks with
  | nil => simp [advance?, MayStand, Finding.Cause.isError]
  | @cons f b frames stack hkind _ helse hbelow =>
    by_cases htop : b.block = .branch
    · cases hseen : b.hasElse <;>
        simp [advance?, hkind, helse, htop, hseen, Finding.Cause.isError, hs]
    · simp [advance?, hkind, kind_eq_branch, htop, Finding.Cause.isError]

/-- The `else` of an `if` block is noted on both stacks. -/
theorem State.otherwise_of_advance {s : State} {stack : List OpenBlock} {line : Line}
    (h : s.Shows stack) :
    match advance? stack .otherwise with
    | some stack' => (s.step line .otherwise).Shows stack'
    | none => ¬ (s.step line .otherwise).IsClean := by
  obtain ⟨hclean, hblocks⟩ := h
  rw [State.step]
  generalize hframes : s.stack = frames at hblocks
  cases hblocks with
  | nil => simp [advance?, MayStand, Finding.Cause.isError]
  | @cons f b frames stack hkind hvariable helse hbelow =>
    by_cases htop : b.block = .branch
    -- a branch takes one `else` only
    · cases hseen : b.hasElse
      · simp only [advance?, hkind, helse, htop, hseen]
        exact ⟨hclean, .cons rfl (by rw [hvariable, htop]) rfl hbelow⟩
      · simp [advance?, hkind, helse, htop, hseen, Finding.Cause.isError]
    · simp [advance?, hkind, kind_eq_branch, htop, Finding.Cause.isError]

/-- A statement other than the header and the footer moves the open blocks as the grammar's
    machine does, and is reported where the machine stops. -/
theorem State.Shows.step_of_advance {s : State} {stack : List OpenBlock} (h : s.Shows stack)
    (line : Line) {statement : Statement} (hheader : ¬ isHeader statement)
    (hfooter : statement ≠ .footer) :
    match advance? stack statement with
    | some stack' => (s.step line statement).Shows stack'
    | none => ¬ (s.step line statement).IsClean := by
  -- a statement that leaves the blocks alone: all that counts is whether it is reported
  have simple (hadvance : advance? stack statement =
        if MayStand (enclosing stack) statement then some stack else none)
      (hstack : (s.step line statement).stack = s.stack)
      (hclean : (s.step line statement).IsClean ↔ MayStand (enclosing stack) statement) :
      match advance? stack statement with
      | some stack' => (s.step line statement).Shows stack'
      | none => ¬ (s.step line statement).IsClean := by
    rw [hadvance]
    by_cases hplaced : MayStand (enclosing stack) statement
    · simpa [hplaced] using (shows_iff h hstack).2 (hclean.2 hplaced)
    · simpa [hplaced] using fun hc => hplaced (hclean.1 hc)
  cases statement with
  | header name => exact absurd rfl hheader
  | footer => exact absurd rfl hfooter
  | whileLoop _ => exact h.enter line .whileLoop
  | branch _ => exact h.enter line .branch
  | function _ _ => exact h.enter line .function
  | forLoop name start stop step =>
    by_cases hfresh : IsFresh name (enclosing stack)
    · simp only [advance?, hfresh, if_true, State.step, (h.blocks.find?_variable name).2 hfresh]
      exact h.enter line (.forLoop name)
    · simp only [advance?, hfresh, if_false, State.step]
      cases hfound : s.stack.reverse.find? fun f => f.loopVariable = some name with
      | none => exact absurd ((h.blocks.find?_variable name).1 hfound) hfresh
      | some outer => simp [State.enter, State.IsClean, State.report, Finding.isError,
          Finding.Cause.isError]
  | elseIf _ => exact State.elseIf_of_advance h
  | otherwise => exact State.otherwise_of_advance h
  | ending _ => exact State.leave_of_advance h
  | returning value =>
    refine simple rfl ?_ ?_
    · rw [State.step]
      split <;> rfl
    · rw [MayStand, ← h.blocks.any_function, State.step]
      split <;> simp_all [h.clean, Finding.Cause.isError]
  | breaking => exact simple rfl (State.stack_checkLoopControl s line _) (State.isClean_checkLoopControl h)
  | continuing => exact simple rfl (State.stack_checkLoopControl s line _) (State.isClean_checkLoopControl h)
  | declaration kind name size init =>
    refine simple rfl ?_ ?_
    · rw [State.step]
      split <;> rfl
    · rw [MayStand, State.step]
      cases kind.isMutable <;> cases init <;> simp [h.clean, Finding.Cause.isError]
  | malformed form fault => exact simple rfl rfl (by simp [State.step, MayStand, Finding.Cause.isError])
  | raw t => exact simple rfl rfl (by simp [State.step, MayStand, Finding.Cause.isError])
  | _ => exact simple rfl rfl (by simp [State.step, MayStand, h.clean])

/-! ## Findings stay -/

theorem State.isClean_of_checkLoopControl {s : State} {line : Line} {control : LoopControl}
    (h : (s.checkLoopControl line control).IsClean) : s.IsClean := by
  rw [State.checkLoopControl] at h
  split at h
  · split at h
    · exact h
    · exact (State.isClean_report.1 h).2
  · exact (State.isClean_report.1 h).2

theorem State.isClean_of_leave {s : State} {line : Line} {kind : BlockKind}
    (h : (s.leave line kind).IsClean) : s.IsClean := by
  rw [State.leave] at h
  split at h
  · exact (State.isClean_report.1 h).2
  · split at h
    · exact h
    · exact (State.isClean_report.1 h).2

theorem State.isClean_of_step {s : State} {line : Line} {statement : Statement}
    (h : (s.step line statement).IsClean) : s.IsClean := by
  -- a step only adds findings, so what is clean after it was clean before
  cases statement with
  | forLoop name start stop step =>
    simp only [State.step, State.enter] at h
    split at h
    · exact (State.isClean_report.1 h).2
    · exact h
  | elseIf condition =>
    simp only [State.step] at h
    split at h
    · split at h
      · split at h
        · exact (State.isClean_report.1 h).2
        · exact h
      · exact (State.isClean_report.1 h).2
    · exact (State.isClean_report.1 h).2
  | otherwise =>
    simp only [State.step] at h
    split at h
    · split at h
      · split at h
        · exact (State.isClean_report.1 h).2
        · exact h
      · exact (State.isClean_report.1 h).2
    · exact (State.isClean_report.1 h).2
  | returning value =>
    simp only [State.step] at h
    split at h
    · exact h
    · exact (State.isClean_report.1 h).2
  | declaration kind name size init =>
    simp only [State.step] at h
    split at h
    · exact (State.isClean_report.1 h).2
    · exact h
  | breaking => exact State.isClean_of_checkLoopControl h
  | continuing => exact State.isClean_of_checkLoopControl h
  | ending kind => exact State.isClean_of_leave h
  | malformed form fault => exact (State.isClean_report.1 h).2
  | raw t => exact (State.isClean_report.1 h).2
  | _ => exact h

/-- Indentation is only advice. -/
@[simp] theorem State.isClean_checkIndentation {s : State} {line : Line} {statement : Statement} :
    (s.checkIndentation line statement).IsClean ↔ s.IsClean := by
  rw [State.checkIndentation]
  split
  · rfl
  · split
    · rfl
    · split
      · simp [Finding.Cause.isError]
      · rfl

theorem State.isClean_of_checkEnvelope {s : State} {lines : List Line} {line : Line}
    {statement : Statement} (h : (s.checkEnvelope lines line statement).IsClean) : s.IsClean := by
  simp only [State.checkEnvelope] at h
  -- the header is checked first and the footer noted last, so the splits go from the outside in
  split at h
  · split at h <;> exact (State.isClean_report.1 h).2
  · suffices hinner : ∀ s' : State, (if statement = .footer then
        { s' with footer := some line.number } else s').IsClean → s'.IsClean by
      have h := hinner _ h
      split at h
      · split at h
        · exact (State.isClean_report.1 h).2
        · split at h
          · exact h
          · exact (State.isClean_report.1 h).2
      · split at h
        · exact (State.isClean_reportAt.1 h).2
        · exact h
    intro s' h
    split at h <;> exact h

theorem State.isClean_of_visit {s : State} {lines : List Line} {line : Line}
    (h : (s.visit lines line).IsClean) : s.IsClean := by
  rw [State.visit] at h
  split at h
  · exact h
  · exact State.isClean_of_checkEnvelope (State.isClean_checkIndentation.1 (State.isClean_of_step h))

theorem State.isClean_of_foldl_visit {lines : List Line} (read : List Line) {s : State}
    (h : (read.foldl (State.visit lines) s).IsClean) : s.IsClean := by
  induction read generalizing s with
  | nil => exact h
  | cons line read ih => exact State.isClean_of_visit (ih h)

/-! ## The envelope -/

/-- How far a program without errors has been read. -/
inductive Phase where
  | before
  | inside (stack : List OpenBlock)
  | after (stack : List OpenBlock)

/-- The phase after a statement, unless the statement is wrong there. -/
def Phase.next? : Phase → Statement → Option Phase
  | .before, .header _ => some (.inside [])
  | .before, _ => none
  | .inside stack, .footer => some (.after stack)
  | .inside stack, statement => (advance? stack statement).map .inside
  | .after _, _ => none

/-- The state has no errors, and what it knows is that the phase has been reached. -/
inductive State.Tracks (s : State) : Phase → Prop where
  | before (shows : s.Shows []) (started : s.started = false) (header : s.header = none)
      (footer : s.footer = none) : s.Tracks .before
  | inside {stack : List OpenBlock} (shows : s.Shows stack) (started : s.started = true)
      (header : s.header.isSome) (footer : s.footer = none) : s.Tracks (.inside stack)
  | after {stack : List OpenBlock} (shows : s.Shows stack) (started : s.started = true)
      (footer : s.footer.isSome) : s.Tracks (.after stack)

/-- What is known about the header and the footer. -/
def State.envelope (s : State) : Bool × Option Nat × Option Nat := (s.started, s.header, s.footer)

theorem State.envelope_checkIndentation (s : State) (line : Line) (statement : Statement) :
    (s.checkIndentation line statement).envelope = s.envelope := by
  rw [State.checkIndentation]
  split
  · rfl
  · split
    · rfl
    · split <;> rfl

theorem State.stack_checkIndentation (s : State) (line : Line) (statement : Statement) :
    (s.checkIndentation line statement).stack = s.stack := by
  rw [State.checkIndentation]
  split
  · rfl
  · split
    · rfl
    · split <;> rfl

theorem State.envelope_step (s : State) (line : Line) (statement : Statement) :
    (s.step line statement).envelope = s.envelope := by
  cases statement <;> simp only [State.step, State.checkLoopControl, State.leave, State.enter] <;>
    repeat' split
  all_goals rfl

theorem State.Shows.checkIndentation {s : State} {stack : List OpenBlock} (h : s.Shows stack)
    (line : Line) (statement : Statement) : (s.checkIndentation line statement).Shows stack :=
  (shows_iff h (s.stack_checkIndentation line statement)).2 (State.isClean_checkIndentation.2 h.clean)

/-- Only the first statement of a program may be the header, and it has to be. -/
theorem State.tracks_before {s : State} {lines : List Line} {line : Line} {statement : Statement}
    (h : s.Tracks .before) :
    match Phase.before.next? statement with
    | some phase => (((s.checkEnvelope lines line statement).checkIndentation line
        statement).step line statement).Tracks phase
    | none => ¬ (((s.checkEnvelope lines line statement).checkIndentation line
        statement).step line statement).IsClean := by
  obtain ⟨hshows, hstarted, hheader, hfooter⟩ := h
  -- before the header nothing else may stand
  by_cases hname : ∃ name, statement = .header name
  · obtain ⟨name, rfl⟩ := hname
    have henvelope : s.checkEnvelope lines line (.header name) =
        { s with started := true, header := some line.number } := by
      simp [State.checkEnvelope, hstarted, hheader, hfooter, isHeader]
    have hkept := State.envelope_checkIndentation
      { s with started := true, header := some line.number } line (.header name)
    have hshows' : State.Shows { s with started := true, header := some line.number } [] :=
      ⟨hshows.clean, hshows.blocks⟩
    simp only [State.envelope, Prod.mk.injEq] at hkept
    simp only [Phase.next?, henvelope]
    exact .inside (hshows'.checkIndentation line _) hkept.1 (by simp [State.step, hkept.2.1])
      (hkept.2.2.trans hfooter)
  · have hnext : Phase.before.next? statement = none := by
      cases statement <;> first | rfl | exact absurd ⟨_, rfl⟩ hname
    rw [hnext]
    intro hclean
    by_cases hmalformed : isHeader statement
    · -- a malformed header counts as the header, but is an error in itself
      obtain ⟨fault, rfl⟩ : ∃ fault, statement = .malformed .header fault := by
        unfold isHeader at hmalformed
        split at hmalformed
        · exact absurd ⟨_, rfl⟩ hname
        · exact ⟨_, rfl⟩
        · cases hmalformed
      have := (State.isClean_report.1 hclean).1
      cases this
    · have hclean := State.isClean_checkIndentation.1 (State.isClean_of_step hclean)
      simp only [State.checkEnvelope, hstarted, hfooter, hmalformed] at hclean
      split at hclean <;> exact absurd (State.isClean_reportAt.1 hclean).1 (by simp [Finding.Cause.isError])

/-- Inside the program the open blocks follow the grammar, up to the first footer. -/
theorem State.tracks_inside {s : State} {lines : List Line} {line : Line} {statement : Statement}
    {stack : List OpenBlock} (h : s.Tracks (.inside stack)) :
    match (Phase.inside stack).next? statement with
    | some phase => (((s.checkEnvelope lines line statement).checkIndentation line
        statement).step line statement).Tracks phase
    | none => ¬ (((s.checkEnvelope lines line statement).checkIndentation line
        statement).step line statement).IsClean := by
  cases h with | inside hshows hstarted hheader hfooter
  obtain ⟨header, hheader⟩ := Option.isSome_iff_exists.1 hheader
  by_cases hrepeated : isHeader statement
  · have hnext : (Phase.inside stack).next? statement = none := by
      unfold isHeader at hrepeated
      split at hrepeated <;> simp_all [Phase.next?, advance?, MayStand]
    rw [hnext]
    intro hclean
    have hclean := State.isClean_checkIndentation.1 (State.isClean_of_step hclean)
    simp only [State.checkEnvelope, hfooter, hrepeated, hheader, if_true] at hclean
    split at hclean <;>
      exact absurd (State.isClean_report.1 hclean).1 (by simp [Finding.Cause.isError])
  -- the footer leads out of the program, any other statement is a step of the machine
  by_cases hlast : statement = .footer
  · subst hlast
    have henvelope : s.checkEnvelope lines line .footer = { s with footer := some line.number } := by
      simp [State.checkEnvelope, hstarted, hfooter, isHeader]
    have hkept := State.envelope_checkIndentation { s with footer := some line.number } line .footer
    have hshows' : State.Shows { s with footer := some line.number } stack :=
      ⟨hshows.clean, hshows.blocks⟩
    simp only [State.envelope, Prod.mk.injEq] at hkept
    simp only [Phase.next?, henvelope]
    exact .after (hshows'.checkIndentation line _) (hkept.1.trans hstarted)
      (by simp [State.step, hkept.2.2])
  · have henvelope : s.checkEnvelope lines line statement = s := by
      have hs : { s with started := true } = s := by
        rw [← hstarted]
      simpa [State.checkEnvelope, hstarted, hfooter, hrepeated, hlast] using hs
    have hnext : (Phase.inside stack).next? statement =
        (advance? stack statement).map .inside := by
      cases statement <;> first | rfl | exact absurd rfl hlast
    have hstep := (hshows.checkIndentation line statement).step_of_advance line hrepeated hlast
    rw [hnext, henvelope]
    have hkept := State.envelope_step (s.checkIndentation line statement) line statement
    rw [s.envelope_checkIndentation] at hkept
    simp only [State.envelope, Prod.mk.injEq] at hkept
    cases hadvance : advance? stack statement with
    | none => simpa [hadvance] using hstep
    | some stack' =>
      simp only [hadvance] at hstep
      exact .inside hstep (hkept.1.trans hstarted) (by simp [hkept.2.1, hheader])
        (hkept.2.2.trans hfooter)

/-- Nothing may follow the footer. -/
theorem State.tracks_after {s : State} {lines : List Line} {line : Line} {statement : Statement}
    {stack : List OpenBlock} (h : s.Tracks (.after stack)) :
    ¬ (((s.checkEnvelope lines line statement).checkIndentation line
        statement).step line statement).IsClean := by
  cases h with | after hshows hstarted hfooter
  obtain ⟨footer, hfooter⟩ := Option.isSome_iff_exists.1 hfooter
  intro hclean
  have hclean := State.isClean_checkIndentation.1 (State.isClean_of_step hclean)
  simp only [State.checkEnvelope, hfooter] at hclean
  split at hclean <;>
    exact absurd (State.isClean_report.1 hclean).1 (by simp [Finding.Cause.isError])

/-- A line takes the phase to the next one, or there is an error. -/
theorem State.Tracks.visit {s : State} {phase : Phase} (h : s.Tracks phase) (lines : List Line)
    {line : Line} (hline : line.isTrivial = false) :
    match phase.next? (Statement.classify line.trimmed) with
    | some phase' => (s.visit lines line).Tracks phase'
    | none => ¬ (s.visit lines line).IsClean := by
  simp only [State.visit, hline]
  cases phase with
  | before => exact State.tracks_before h
  | inside stack => exact State.tracks_inside h
  | after stack => exact State.tracks_after h

/-- After any lines, a state without errors shows the phase that their statements lead to. -/
theorem State.Tracks.foldl_visit {s : State} {phase : Phase} (h : s.Tracks phase)
    (lines read : List Line) :
    match (statements read).foldlM Phase.next? phase with
    | some phase' => (read.foldl (State.visit lines) s).Tracks phase'
    | none => ¬ (read.foldl (State.visit lines) s).IsClean := by
  -- line by line; once the grammar has failed, the state stays unclean
  induction read generalizing s phase with
  | nil => exact h
  | cons line read ih =>
    cases hline : line.isTrivial with
    | true =>
      have hvisit : s.visit lines line = s := by simp [State.visit, hline]
      have hskip : statements (line :: read) = statements read := by simp [statements, hline]
      rw [hskip, List.foldl_cons, hvisit]
      exact ih h
    | false =>
      have hread : statements (line :: read) =
          Statement.classify line.trimmed :: statements read := by simp [statements, hline]
      have hvisit := h.visit lines hline
      rw [hread, List.foldl_cons, List.foldlM_cons]
      cases hnext : phase.next? (Statement.classify line.trimmed) with
      | some phase' =>
        simp only [hnext] at hvisit
        exact ih hvisit
      | none =>
        simp only [hnext] at hvisit
        exact fun hclean => hvisit (State.isClean_of_foldl_visit read hclean)

/-! ## The end of the program -/

theorem isClean_foldr_unclosed (lines : List Line) (frames : List Frame) (s : State) :
    (frames.foldr (fun f s => s.reportAt lines f.line (.unclosed f.kind)) s).IsClean ↔
      frames = [] ∧ s.IsClean := by
  cases frames <;> simp [Finding.Cause.isError]

theorem footer_foldr_unclosed (lines : List Line) (frames : List Frame) (s : State) :
    (frames.foldr (fun f s => s.reportAt lines f.line (.unclosed f.kind)) s).footer = s.footer := by
  induction frames with
  | nil => rfl
  | cons f frames ih => exact ih

/-- At the end the header and the footer have to be there, and no block may be open. -/
theorem State.isClean_finish {s : State} {lines : List Line} :
    (s.finish lines).IsClean ↔
      s.IsClean ∧ s.started = true ∧ s.stack = [] ∧ s.footer.isSome := by
  have hreported : (s.reportAt lines 1 .missingHeader).footer = s.footer := rfl
  rw [State.finish]
  by_cases hstarted : s.started <;> cases hfooter : s.footer <;>
    simp [hstarted, hreported, hfooter, footer_foldr_unclosed, isClean_foldr_unclosed,
      Finding.Cause.isError, and_comm]

/-- The phases lead from the beginning to the end of a program. -/
theorem foldlM_next?_inside {S : List Statement} {stack : List OpenBlock} :
    S.foldlM Phase.next? (.inside stack) = some (.after []) ↔
      ∃ body, S = body ++ [.footer] ∧ run? stack body = some [] := by
  induction S generalizing stack with
  | nil => simp
  | cons s rest ih =>
    by_cases hlast : s = .footer
    · subst hlast
      rw [List.foldlM_cons]
      constructor
      · intro h
        cases rest with
        | nil => exact ⟨[], rfl, by simpa [Phase.next?] using h⟩
        | cons _ _ => simp [Phase.next?] at h
      · rintro ⟨body, hbody, hrun⟩
        cases body with
        | nil =>
          obtain rfl : rest = [] := by simpa using hbody
          obtain rfl : stack = [] := by simpa using hrun
          rfl
        | cons first body =>
          -- the machine knows no footer
          obtain ⟨rfl, rfl⟩ := List.cons.inj hbody
          simp [advance?, MayStand] at hrun
    · have hnext : (Phase.inside stack).next? s = (advance? stack s).map .inside := by
        cases s <;> first | rfl | exact absurd rfl hlast
      rw [List.foldlM_cons, hnext]
      constructor
      · intro h
        cases hadvance : advance? stack s with
        | none => simp [hadvance] at h
        | some stack' =>
          obtain ⟨body, rfl, hrun⟩ := ih.1 (by simpa [hadvance] using h)
          exact ⟨s :: body, rfl, by simpa [hadvance] using hrun⟩
      · rintro ⟨body, hbody, hrun⟩
        cases body with
        | nil => exact absurd (List.cons.inj hbody).1 hlast
        | cons first body =>
          obtain ⟨rfl, rfl⟩ := List.cons.inj hbody
          cases hadvance : advance? stack s with
          | none => simp [hadvance] at hrun
          | some stack' =>
            simpa using ih.2 ⟨body, rfl, by simpa [hadvance] using hrun⟩

/-- The phases accept what the grammar generates. -/
theorem foldlM_next?_before {S : List Statement} :
    S.foldlM Phase.next? .before = some (.after []) ↔ IsProgram S := by
  cases S with
  | nil => simp [IsProgram]
  | cons first rest =>
    cases first with
    | header name =>
      simp [IsProgram, Phase.next?, foldlM_next?_inside, isBody_iff_run, and_assoc]
    | _ => simp [IsProgram, Phase.next?]

/-- What validation finds is an error unless nothing it knows of keeps the program from running. -/
theorem hasErrors_findings {lines : List Line} :
    hasErrors (findings lines) = false ↔
      ((lines.foldl (State.visit lines) State.initial).finish lines).IsClean := by
  simp [hasErrors, findings, State.IsClean, List.mem_mergeSort]

/-- Lines have no errors exactly if their statements are a program. -/
theorem hasErrors_findings_eq_false_iff (lines : List Line) :
    hasErrors (findings lines) = false ↔ IsProgram (statements lines) := by
  rw [hasErrors_findings, ← foldlM_next?_before, State.isClean_finish]
  -- state and phase go side by side from the first line on
  have hinitial : State.initial.Tracks .before :=
    .before ⟨by simp [State.IsClean, State.initial], .nil⟩ rfl rfl rfl
  have h := hinitial.foldl_visit lines lines
  cases hphase : (statements lines).foldlM Phase.next? .before with
  | none =>
    simp only [hphase] at h
    simp [h]
  | some phase =>
    simp only [hphase] at h
    cases h with
    | before hshows hstarted hheader hfooter => simp [hstarted]
    | inside hshows hstarted hheader hfooter => simp [hfooter]
    | @after stack hshows hstarted hfooter =>
      simp [hshows.clean, hstarted, hfooter, hshows.blocks.eq_nil_iff]

/-- What has no errors has at least a header. -/
theorem lines_ne_nil_of_hasErrors_findings {lines : List Line}
    (h : hasErrors (findings lines) = false) : lines ≠ [] := by
  rintro rfl
  obtain ⟨_, _, hstatements, -⟩ := (hasErrors_findings_eq_false_iff []).1 h
  cases hstatements

/-- A program has no errors exactly if its statements are a header, a body of the grammar and a
    footer. -/
theorem hasErrors_validate_eq_false_iff (source : Text) :
    hasErrors (validate source) = false ↔ IsProgram (statements (Source.lines source)) := by
  rw [validate]
  exact hasErrors_findings_eq_false_iff (Source.lines source)

end Pseudocode.Validation
