import LarkPhp.Diagnostic.Basic
import LarkPhp.SpecialForm

/-!
Compile errors.

A fault says what is wrong with a program; its kind and its wording follow from it.  A compile
error is a fault with the place where it was found and the chain of messages that caused it.
-/

namespace LarkPhp

/-- The kinds of faults. -/
inductive FaultKind where
  /-- A form has the wrong number of elements. -/
  | arity
  /-- An element is of the wrong kind. -/
  | shape
  /-- A head or symbol stands for nothing usable. -/
  | unknownForm
  /-- A macro failed. -/
  | expansion
deriving DecidableEq, Inhabited

namespace FaultKind

def code : FaultKind → Code
  | .arity => .arity
  | .shape => .shape
  | .unknownForm => .unknownForm
  | .expansion => .expansion

def text : FaultKind → String
  | .arity => "arity error"
  | .shape => "shape error"
  | .unknownForm => "unknown form"
  | .expansion => "macro expansion error"

end FaultKind

/-- What is wrong with a program. -/
inductive Fault where
  /-- A special form has the wrong number of arguments. -/
  | argumentCount (form : SpecialForm)
  /-- An operator of the host has no operand. -/
  | noOperand (operator : String)
  /-- The name of a definition is not an unqualified symbol. -/
  | definedName
  /-- The bindings of a `let` are not a tuple. -/
  | bindingList
  /-- A `let` has a name without a value. -/
  | unpairedBinding
  /-- The parameters of a function are not a tuple. -/
  | parameterList
  /-- A rest marker is not followed by exactly one parameter. -/
  | restParameter
  /-- The head of a loop is not a tuple. -/
  | loopHead
  /-- The head of a loop has too few or too many elements. -/
  | loopHeadSize
  /-- A called method has no name. -/
  | methodName (form : SpecialForm)
  /-- A member is neither a method call nor a name. -/
  | memberShape (form : SpecialForm)
  /-- A pattern holds a rest marker. -/
  | restPattern
  /-- A pattern holds something that binds nothing. -/
  | pattern (kind : String)
  /-- The head of a call cannot be called. -/
  | notCallable (kind : String)
  /-- A macro is used as a value. -/
  | macroValue (name : Symbol)
  /-- A symbol stands for nothing. -/
  | unresolved (symbol : Symbol)
  /-- A macro failed. -/
  | expansion (name : Symbol)
  /-- What an expander has to complain about. -/
  | custom (kind : FaultKind) (message : String)
deriving DecidableEq, Inhabited

namespace Fault

def kind : Fault → FaultKind
  | argumentCount _ | noOperand _ => .arity
  | definedName | bindingList | unpairedBinding | parameterList | restParameter | loopHead
  | loopHeadSize | methodName _ | memberShape _ | restPattern | pattern _ => .shape
  | notCallable _ | macroValue _ | unresolved _ => .unknownForm
  | expansion _ => .expansion
  | custom kind _ => kind

/-- What a special form expects.  A block takes any number of forms. -/
def countMessage : SpecialForm → String
  | .quote => "Exactly one argument is required for 'quote"
  | .block => "Any number of arguments is accepted for 'do"
  | .branch => "'if requires two or three arguments"
  | .bindings => "At least one argument is required for 'let"
  | .function => "'fn requires at least one argument"
  | .definition => "Two arguments are required for 'def"
  | .loop => "At least two arguments are required for 'foreach"
  | .throw => "Exactly one argument is required for 'throw"
  | .new => "At least one argument is required for 'php/new"
  | .member => "Exactly two arguments are expected for 'php/->"
  | .staticMember => "Exactly two arguments are expected for 'php/::"
  | .arrayGet => "Exactly two arguments are required for 'php/aget"
  | .arraySet => "Exactly three arguments are required for 'php/aset"

/-- The fault in words. -/
def message : Fault → String
  | argumentCount form => countMessage form
  | noOperand operator => "At least one operand is required for 'php/" ++ operator
  | definedName => "First argument of 'def must be a Symbol."
  | bindingList => "Binding parameter must be a tuple"
  | unpairedBinding => "Bindings must be an even number of parameters"
  | parameterList => "Parameter list of 'fn must be a tuple"
  | restParameter => "Exactly one parameter must follow '& in 'fn"
  | loopHead => "First argument of 'foreach must be a tuple."
  | loopHeadSize => "Tuple of 'foreach must have exactly two or three elements."
  | methodName form => "Method name in '" ++ form.name ++ " must be a Symbol"
  | memberShape form => "Second argument of '" ++ form.name ++ " must be a Tuple or a Symbol"
  | restPattern => "rest patterns ('&') are not supported in destructuring"
  | pattern kind => "cannot destructure " ++ kind
  | notCallable kind => kind ++ " is not callable"
  | macroValue name => "cannot take the value of macro '" ++ name.text ++ "'"
  | unresolved symbol => "cannot resolve symbol '" ++ symbol.text ++ "'"
  | expansion name => "error in expanding macro '" ++ name.text ++ "'"
  | custom _ message => message

end Fault

/-- A fault, where it was found, and what caused it, the nearest cause first. -/
structure CompileError where
  fault : Fault
  start : Option Location
  stop : Option Location
  causes : List String
deriving DecidableEq, Inhabited

namespace CompileError

/-- A fault that has no place yet. -/
def ofFault (fault : Fault) : CompileError := ⟨fault, none, none, []⟩

/-- Places the error at `span`, unless it has a place.  An error from deep inside a form keeps its
place on the way out. -/
def locate (span : Option Span) (e : CompileError) : CompileError :=
  match e.start, span with
  | none, some s => { e with start := some s.start, stop := some s.stop }
  | _, _ => e

/-- The error with another place. -/
def relocate (start stop : Option Location) (e : CompileError) : CompileError :=
  { e with start, stop }

def kind (e : CompileError) : FaultKind := e.fault.kind

def code (e : CompileError) : Code := e.kind.code

def message (e : CompileError) : String := e.fault.message

/-- The error, caused by another one. -/
def causedBy (e cause : CompileError) : CompileError :=
  { e with causes := cause.message :: cause.causes }

/-- The error, caused by something that is known by its message only. -/
def causedByMessage (e : CompileError) (message : String) : CompileError :=
  { e with causes := [message] }

/-- The error as a user is shown it, with a note for each cause. -/
def toDiagnostic (e : CompileError) : Diagnostic :=
  ⟨e.code, .error, e.message, e.start, e.stop, e.causes.map ("caused by: " ++ ·)⟩

end CompileError

end LarkPhp
