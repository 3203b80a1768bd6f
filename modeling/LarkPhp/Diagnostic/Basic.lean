import LarkPhp.Location

/-!
Diagnostics: what a user is shown about a program.

A diagnostic has a code, a severity, a message, the place it is about and any number of notes.
-/

namespace LarkPhp

/-- What a diagnostic is about. -/
inductive Code where
  | arity
  | shape
  | unknownForm
  | expansion
  | redefinition
  | discarded
deriving DecidableEq, Inhabited

namespace Code

/-- All codes, errors before warnings. -/
def all : List Code := [.arity, .shape, .unknownForm, .expansion, .redefinition, .discarded]

/-- The code as it is written: a letter for the severity and a number. -/
def text : Code → String
  | .arity => "E1001"
  | .shape => "E1002"
  | .unknownForm => "E1003"
  | .expansion => "E1004"
  | .redefinition => "W2001"
  | .discarded => "W2002"

/-- One line on what the code stands for. -/
def description : Code → String
  | .arity => "wrong number of arguments to a special form"
  | .shape => "argument of the wrong kind in a special form"
  | .unknownForm => "unknown form or unresolvable symbol"
  | .expansion => "macro expansion failed"
  | .redefinition => "global redefined"
  | .discarded => "value discarded without effect"

def isWarning : Code → Bool
  | .redefinition | .discarded => true
  | _ => false

/-- The code that a text spells, in capitals or not. -/
def ofText? (s : String) : Option Code := all.find? fun c => c.text == s.toUpper

end Code

/-- How grave a diagnostic is. -/
inductive Severity where
  | error
  | warning
deriving DecidableEq, Inhabited

def Severity.text : Severity → String
  | .error => "error"
  | .warning => "warning"

/-- What a user is shown. -/
structure Diagnostic where
  code : Code
  severity : Severity
  message : String
  start : Option Location
  stop : Option Location
  notes : List String
deriving DecidableEq, Inhabited

namespace Diagnostic

/-- A warning about the stretch of source `span`. -/
def warning (code : Code) (message : String) (span : Option Span) : Diagnostic :=
  ⟨code, .warning, message, span.map Span.start, span.map Span.stop, []⟩

def isError (d : Diagnostic) : Bool := d.severity == .error

/-- The diagnostic in one line. -/
def text (d : Diagnostic) : String :=
  let line := d.severity.text ++ "[" ++ d.code.text ++ "]: " ++ d.message
  match d.start with
  | some l => line ++ " at " ++ l.text
  | none => line

end Diagnostic

end LarkPhp
