/-!
Text that is written line by line at a depth of indentation.
-/

namespace LarkPhp.Php

/-- What has been written, and how deep the next line is indented. -/
structure Writer where
  unit : String
  depth : Nat
  output : String

/-- `depth` levels of indentation. -/
def indentation (unit : String) (depth : Nat) : String := String.join (List.replicate depth unit)

namespace Writer

def start (unit : String) : Writer := ⟨unit, 0, ""⟩

def indent (w : Writer) : Writer := { w with depth := w.depth + 1 }

/-- One level less, if there is one. -/
def dedent? (w : Writer) : Option Writer :=
  match w.depth with
  | 0 => none
  | depth + 1 => some { w with depth }

def write (w : Writer) (s : String) : Writer := { w with output := w.output ++ s }

/-- Writes the indentation of a line. -/
def writeIndent (w : Writer) : Writer := w.write (indentation w.unit w.depth)

def newline (w : Writer) : Writer := w.write "\n"

/-- Writes a whole line. -/
def writeLine (w : Writer) (s : String) : Writer := (w.writeIndent.write s).newline

/-- What has been written, and the writer after it was taken. -/
def take (w : Writer) : String × Writer := (w.output, { w with output := "" })

end Writer

end LarkPhp.Php
