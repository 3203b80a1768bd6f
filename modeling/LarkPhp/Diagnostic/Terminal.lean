import LarkPhp.Diagnostic.Basic

/-!
Diagnostics as a terminal shows them, in colour or not.
-/

namespace LarkPhp.Terminal

/-- When to use colour. -/
inductive ColorMode where
  /-- If the output goes to a terminal. -/
  | auto
  | always
  | never
deriving DecidableEq, Inhabited

/-- Whether to use colour. -/
def ColorMode.enabled (mode : ColorMode) (tty : Bool) : Bool :=
  match mode with
  | .auto => tty
  | .always => true
  | .never => false

/-- The rendition of a piece of text. -/
inductive Ink where
  | error
  | warning
  | note
  | bold
  | location

/-- The parameters of the escape sequence that selects the rendition. -/
def Ink.parameters : Ink → String
  | .error => "1;31"
  | .warning => "1;33"
  | .note => "1;36"
  | .bold => "1"
  | .location => "1;34"

def Ink.ofSeverity : Severity → Ink
  | .error => .error
  | .warning => .warning

/-- A text in a rendition, if colour is used. -/
def paint (color : Bool) (ink : Ink) (text : String) : String :=
  if color then "\x1b[" ++ ink.parameters ++ "m" ++ text ++ "\x1b[0m" else text

/-- A diagnostic with its place and its notes, and an empty line. -/
def diagnostic (color : Bool) (d : Diagnostic) : String :=
  let head := paint color (.ofSeverity d.severity) d.severity.text
    ++ paint color .bold ("[" ++ d.code.text ++ "]") ++ ": " ++ d.message ++ "\n"
  let place := match d.start with
    | some l => "  " ++ paint color .location "-->" ++ " " ++ l.text ++ "\n"
    | none => ""
  let notes := d.notes.map fun note => "  = " ++ paint color .note "note" ++ ": " ++ note ++ "\n"
  head ++ place ++ String.join notes ++ "\n"

/-- Diagnostics one after the other. -/
def diagnostics (color : Bool) (ds : List Diagnostic) : String :=
  String.join (ds.map (diagnostic color))

/-- How many warnings there were. -/
def warningTally (warnings : Nat) : String :=
  toString warnings ++ " warning" ++ (if warnings = 1 then "" else "s") ++ " emitted"

/-- The line that ends a report; nothing if there is nothing to report. -/
def summary (color : Bool) (errors warnings : Nat) : String :=
  if errors > 0 then
    let previous :=
      if errors = 1 then "previous error" else toString errors ++ " previous errors"
    let rest := if warnings > 0 then "; " ++ warningTally warnings else ""
    paint color .error "error" ++ ": aborting due to " ++ previous ++ rest ++ "\n"
  else if warnings > 0 then
    paint color .warning "warning" ++ ": " ++ warningTally warnings ++ "\n"
  else ""

end LarkPhp.Terminal
