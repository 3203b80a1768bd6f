/-!
Positions in source text.  A form remembers the span it was read from, so that nodes and errors
can point back at it.  A span is never part of what a form means.
-/

namespace LarkPhp

/-- A position in a source file, counted from line 1 and column 1. -/
structure Location where
  file : String
  line : UInt32
  column : UInt32
deriving DecidableEq, Inhabited

/-- A stretch of source text, from `start` to `stop`. -/
structure Span where
  start : Location
  stop : Location
deriving DecidableEq, Inhabited

namespace Location

/-- The position as messages show it, `file:line:column`. -/
def text (l : Location) : String :=
  l.file ++ ":" ++ toString l.line.toNat ++ ":" ++ toString l.column.toNat

/-- The same position in another file. -/
def inFile (l : Location) (file : String) : Location := { l with file }

/-- The same position on another line. -/
def onLine (l : Location) (line : UInt32) : Location := { l with line }

/-- The same position at another column. -/
def atColumn (l : Location) (column : UInt32) : Location := { l with column }

end Location

namespace Span

/-- The span that starts and stops at one position. -/
def point (l : Location) : Span := ⟨l, l⟩

/-- A span is shown by where it starts. -/
def text (s : Span) : String := s.start.text

end Span

end LarkPhp
