import Pseudocode.Source.Line
import Pseudocode.Source.Classify

/-! # Validation

A program is a header, a body of properly nested blocks, and a footer. Validation reads the lines
once, with the stack of open blocks, and collects everything that is wrong instead of stopping at
the first finding. The statement after a finding is read as if the finding were mended: a second
header is no header, an end that does not fit leaves the block open.
-/

namespace Pseudocode

/-- The statements that need a loop around them. -/
inductive LoopControl where
  | breaking
  | continuing
  deriving DecidableEq, Repr

/-- The keyword of a loop control statement. -/
def LoopControl.word : LoopControl → Text
  | breaking => text "break"
  | continuing => text "continue"

/-- What can be wrong with a program. Line numbers refer to other lines than the one found. -/
inductive Finding.Cause where
  | missingHeader
  | duplicateHeader (first : Nat)
  | lateHeader
  | missingFooter
  | duplicateFooter (first : Nat)
  | afterFooter (footer : Nat)
  | loopVariableReused (name : Text) (line : Nat)
  | elseIfAfterElse
  | elseIfWithoutIf
  | duplicateElse
  | elseWithoutIf
  | returnOutsideFunction
  | outsideLoop (control : LoopControl)
  | unclosed (kind : BlockKind)
  | unexpectedEnd (kind : BlockKind)
  | mismatchedEnd (expected found : BlockKind)
  | uninitializedConstant (name : Text)
  | malformed (form : Form) (fault : Fault)
  | unrecognized
  /-- Advice only: the line stands no deeper than the line that opened its block. -/
  | indentation (kind : BlockKind) (line : Nat)
  deriving DecidableEq, Repr

namespace Finding.Cause

/-- Whether the program cannot be run. -/
def isError : Cause → Bool
  | indentation _ _ => false
  | _ => true

/-- The wording of a finding. -/
def message : Cause → Text
  | missingHeader => text "Program must begin with 'Algorithm <name>'"
  | duplicateHeader first =>
    text "Duplicate Algorithm header (first at line " ++ Text.ofNat first ++ text ")"
  | lateHeader => text "Algorithm header must be the first statement"
  | missingFooter => text "Program must end with 'EndAlgorithm'"
  | duplicateFooter first =>
    text "Duplicate EndAlgorithm (first at line " ++ Text.ofNat first ++ text ")"
  | afterFooter footer =>
    text "Statement after EndAlgorithm (line " ++ Text.ofNat footer ++ text ")"
  | loopVariableReused name line =>
    text "Loop variable '" ++ name ++ text "' is already used by the enclosing for loop at line " ++
      Text.ofNat line
  | elseIfAfterElse => text "elseif cannot follow else in the same if block"
  | elseIfWithoutIf => text "elseif without matching if"
  | duplicateElse => text "Duplicate else in the same if block"
  | elseWithoutIf => text "else without matching if"
  | returnOutsideFunction => text "return outside of a function"
  | outsideLoop control => control.word ++ text " outside of a loop"
  | unclosed kind => text "Unclosed " ++ kind.word ++ text " block"
  | unexpectedEnd kind => text "Unexpected end" ++ kind.word
  | mismatchedEnd expected found =>
    text "Expected end" ++ expected.word ++ text " but found end" ++ found.word
  | uninitializedConstant name => text "Constant '" ++ name ++ text "' must be initialized"
  | malformed form fault =>
    text "Malformed " ++ form.word ++ text " statement: " ++ fault.message form
  | unrecognized => text "Unrecognized statement"
  | indentation kind line =>
    text "Line should be indented inside the " ++ kind.word ++ text " block opened at line " ++
      Text.ofNat line

end Finding.Cause

/-- Something wrong with a line of a program. -/
structure Finding where
  line : Nat
  /-- The raw text of the line. -/
  text : Text
  cause : Finding.Cause
  deriving DecidableEq, Repr

/-- Whether the program cannot be run. -/
def Finding.isError (f : Finding) : Bool := f.cause.isError

namespace Validation

/-- An open block. -/
structure Frame where
  kind : BlockKind
  /-- The line that opened the block. -/
  line : Nat
  /-- The variable of a counting loop. -/
  loopVariable : Option Text
  /-- How deep the opening line stands. -/
  indent : Nat
  /-- Whether an `else` has been seen in an `if` block. -/
  hasElse : Bool
  deriving DecidableEq, Repr

/-- What is known after some of the lines. -/
structure State where
  /-- The open blocks, innermost first. -/
  stack : List Frame
  /-- The findings, last first. -/
  findings : List Finding
  /-- Whether any statement has been read. -/
  started : Bool
  /-- The line of the header. -/
  header : Option Nat
  /-- The line of the footer. -/
  footer : Option Nat

/-- Before the first line. -/
def State.initial : State := ⟨[], [], false, none, none⟩

/-- A finding at a line. -/
def State.report (s : State) (line : Line) (cause : Finding.Cause) : State :=
  { s with findings := ⟨line.number, line.raw, cause⟩ :: s.findings }

/-- The raw text of the line with a number; empty if there is none. -/
def textOf (lines : List Line) (number : Nat) : Text :=
  match number with
  | 0 => []
  | i + 1 => (lines[i]?.map Line.raw).getD []

/-- A finding at the line with a number. -/
def State.reportAt (s : State) (lines : List Line) (number : Nat) (cause : Finding.Cause) : State :=
  { s with findings := ⟨number, textOf lines number, cause⟩ :: s.findings }

/-- A statement that stands for the header, even if it is malformed. -/
def isHeader : Statement → Bool
  | .header _ | .malformed .header _ => true
  | _ => false

/-- The header comes first and the footer last, once each. -/
def State.checkEnvelope (s : State) (lines : List Line) (line : Line) (statement : Statement) :
    State :=
  let first := !s.started
  let s := { s with started := true }
  match s.footer with
  | some footer =>
    if statement = .footer then s.report line (.duplicateFooter footer)
    else s.report line (.afterFooter footer)
  | none =>
    let s :=
      if isHeader statement then
        match s.header with
        | some header => s.report line (.duplicateHeader header)
        | none =>
          let s := { s with header := some line.number }
          if first then s else s.report line .lateHeader
      else if first then s.reportAt lines 1 .missingHeader
      else s
    if statement = .footer then { s with footer := some line.number } else s

/-- Lines inside a block stand deeper than the line that opened it. -/
def State.checkIndentation (s : State) (line : Line) (statement : Statement) : State :=
  if statement.continuesBlock then s
  else match s.stack with
    | [] => s
    | top :: _ =>
      if line.indent ≤ top.indent then s.report line (.indentation top.kind top.line) else s

/-- `break` and `continue` need a loop around them within their function. -/
def State.checkLoopControl (s : State) (line : Line) (control : LoopControl) : State :=
  match s.stack.find? fun f => f.kind.isLoop || f.kind = .function with
  | some frame => if frame.kind.isLoop then s else s.report line (.outsideLoop control)
  | none => s.report line (.outsideLoop control)

/-- Opens a block at a line. -/
def State.enter (s : State) (line : Line) (kind : BlockKind) (loopVariable : Option Text) : State :=
  { s with stack := ⟨kind, line.number, loopVariable, line.indent, false⟩ :: s.stack }

/-- Closes the innermost block, which has to be of the given kind. -/
def State.leave (s : State) (line : Line) (kind : BlockKind) : State :=
  match s.stack with
  | [] => s.report line (.unexpectedEnd kind)
  | top :: below =>
    if top.kind = kind then { s with stack := below }
    else s.report line (.mismatchedEnd top.kind kind)

/-- What a statement does to the open blocks, and whether it may stand there. -/
def State.step (s : State) (line : Line) : Statement → State
  | .forLoop name _ _ _ =>
    let s := match s.stack.reverse.find? fun f => f.loopVariable = some name with
      | some outer => s.report line (.loopVariableReused name outer.line)
      | none => s
    s.enter line .forLoop (some name)
  | .whileLoop _ => s.enter line .whileLoop none
  | .branch _ => s.enter line .branch none
  | .function _ _ => s.enter line .function none
  | .elseIf _ =>
    match s.stack with
    | top :: _ =>
      if top.kind = .branch then
        if top.hasElse then s.report line .elseIfAfterElse else s
      else s.report line .elseIfWithoutIf
    | [] => s.report line .elseIfWithoutIf
  | .otherwise =>
    match s.stack with
    | top :: below =>
      if top.kind = .branch then
        if top.hasElse then s.report line .duplicateElse
        else { s with stack := { top with hasElse := true } :: below }
      else s.report line .elseWithoutIf
    | [] => s.report line .elseWithoutIf
  | .returning _ =>
    if s.stack.any fun f => f.kind = .function then s else s.report line .returnOutsideFunction
  | .breaking => s.checkLoopControl line .breaking
  | .continuing => s.checkLoopControl line .continuing
  | .ending kind => s.leave line kind
  | .declaration kind name _ init =>
    if !kind.isMutable && init.isNone then s.report line (.uninitializedConstant name) else s
  | .malformed form fault => s.report line (.malformed form fault)
  | .raw _ => s.report line .unrecognized
  | .blank | .comment _ | .header _ | .footer | .set _ _ | .declare _ _ | .print _ | .input _ _
  | .assignment _ _ _ | .call _ => s

/-- Reads one line. Blank lines and comments say nothing. -/
def State.visit (lines : List Line) (s : State) (line : Line) : State :=
  if line.isTrivial then s
  else
    let statement := Statement.classify line.trimmed
    let s := s.checkEnvelope lines line statement
    let s := s.checkIndentation line statement
    s.step line statement

/-- What the end of the program shows: no statement at all, open blocks, no footer. -/
def State.finish (s : State) (lines : List Line) : State :=
  let s := if s.started then s else s.reportAt lines 1 .missingHeader
  let s := s.stack.foldr (fun f s => s.reportAt lines f.line (.unclosed f.kind)) s
  if s.footer.isNone then s.reportAt lines (max lines.length 1) .missingFooter else s

/-- The findings of a list of lines, in the order of their lines. -/
def findings (lines : List Line) : List Finding :=
  let s := (lines.foldl (State.visit lines) State.initial).finish lines
  s.findings.reverse.mergeSort fun a b => a.line ≤ b.line

end Validation

/-- Everything that is wrong with a program, in the order of its lines. -/
def validate (source : Text) : List Finding := Validation.findings (Source.lines source)

/-- Whether one of the findings keeps the program from being run. -/
def hasErrors (findings : List Finding) : Bool := findings.any Finding.isError

end Pseudocode
