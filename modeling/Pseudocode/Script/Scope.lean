import Pseudocode.Script.Value

/-! # Scopes

Names are bound in frames. A scope is a chain of frames; a block or a call puts a new frame in front
of the scope it stands in, and a function keeps the scope it was declared in. All frames live in one
store, so a binding that is changed through one scope is changed for every scope that shares the
frame.
-/

namespace Pseudocode.Script

/-- A value under a name. -/
structure Binding where
  value : Value
  isMutable : Bool
  deriving Inhabited

/-- The bindings of one block or call. -/
abbrev Frame := List (Text × Binding)

/-- The binding of a name is replaced, or added if there is none. -/
def Frame.set (name : Text) (binding : Binding) : Frame → Frame
  | [] => [(name, binding)]
  | (other, old) :: rest =>
    if other = name then (name, binding) :: rest else (other, old) :: set name binding rest

/-- Why a binding cannot be made or changed. -/
inductive ScopeFault where
  | alreadyDeclared
  | constant
  | notFound
  deriving DecidableEq, Repr

/-- All frames. -/
abbrev Frames := Array Frame

namespace Frames

/-- The bindings of a frame. -/
def frame (fs : Frames) (id : Nat) : Frame := fs[id]?.getD []

/-- A scope with a new frame in front. -/
def child (fs : Frames) (scope : Scope) : Scope × Frames := (fs.size :: scope, fs.push [])

/-- The binding of a name in the nearest frame that has one. -/
def binding? (fs : Frames) (name : Text) : Scope → Option Binding
  | [] => none
  | id :: outer =>
    match (fs.frame id).lookup name with
    | some b => some b
    | none => fs.binding? name outer

/-- The value of a name. -/
def get? (fs : Frames) (scope : Scope) (name : Text) : Option Value :=
  (fs.binding? name scope).map Binding.value

/-- Binds a name in the innermost frame, whether it is bound there or not. -/
def bind (fs : Frames) (scope : Scope) (name : Text) (b : Binding) : Frames :=
  match scope with
  | [] => fs
  | id :: _ => fs.modify id (Frame.set name b)

/-- What keeps a name from being declared in the innermost frame: it is bound there already. -/
def declareFault? (fs : Frames) (name : Text) : Scope → Option ScopeFault
  | [] => none
  | id :: _ => if ((fs.frame id).lookup name).isSome then some .alreadyDeclared else none

/-- Declares a name in the innermost frame, unless it is bound there already. -/
def declare (fs : Frames) (scope : Scope) (name : Text) (b : Binding) : Frames :=
  if (fs.declareFault? name scope).isSome then fs else fs.bind scope name b

/-- Functions, parameters and variables may be declared again. -/
def define (fs : Frames) (scope : Scope) (name : Text) (value : Value) : Frames :=
  fs.bind scope name ⟨value, true⟩

/-- What keeps the nearest binding of a name from being changed: it is constant, or there is none. -/
def assignFault? (fs : Frames) (name : Text) (scope : Scope) : Option ScopeFault :=
  match fs.binding? name scope with
  | some b => if b.isMutable then none else some .constant
  | none => some .notFound

/-- Changes the nearest binding of a name, unless it is constant. -/
def assign (fs : Frames) (name : Text) (value : Value) : Scope → Frames
  | [] => fs
  | id :: outer =>
    match (fs.frame id).lookup name with
    | some b => if b.isMutable then fs.modify id (Frame.set name ⟨value, true⟩) else fs
    | none => fs.assign name value outer

/-- Drops the bindings of the innermost frame. -/
def clear (fs : Frames) (scope : Scope) : Frames :=
  match scope with
  | [] => fs
  | id :: _ => fs.modify id fun _ => []

end Frames

end Pseudocode.Script
