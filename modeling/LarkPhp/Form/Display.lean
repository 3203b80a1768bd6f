import LarkPhp.Form.Basic
import LarkPhp.Decimal.Layout

/-!
Forms in the notation they are written in: `(f [:a nil])`, `(set 1 2)`, `@[1]` and braces around a
table's keys and values in turn.
-/

namespace LarkPhp.Form

/-- Magnitudes from 10^-4 up to below 10^16 are written positionally. -/
def floatLayout : Decimal.Layout where
  leastPositional := -4
  mostPositional := 15
  nan := "NaN"
  infinity := "inf"

/-- How a character stands between double quotes. -/
def quotedChar : Char → List Char
  | '"' => ['\\', '"']
  | '\\' => ['\\', '\\']
  | '\n' => ['\\', 'n']
  | '\t' => ['\\', 't']
  | '\r' => ['\\', 'r']
  | c => [c]

/-- A text between double quotes. -/
def quoted (s : String) : String :=
  String.ofList ('"' :: s.toList.flatMap quotedChar ++ ['"'])

/-- Forms with single spaces between them. -/
def spaced (texts : List String) : String := " ".intercalate texts

mutual
/-- The form as it is written. -/
def text : Form → String
  | .nil => "nil"
  | .bool b => if b then "true" else "false"
  | .int n => toString n.toInt
  | .float bits => floatLayout.write bits
  | .str s => quoted s
  | .keyword s => ":" ++ s
  | .symbol s _ => s.text
  | .tuple .paren xs _ => "(" ++ spaced (texts xs) ++ ")"
  | .tuple .bracket xs _ => "[" ++ spaced (texts xs) ++ "]"
  | .table es _ => "\x7b" ++ spaced (entryTexts es) ++ "\x7d"
  | .set xs _ => "(" ++ spaced ("set" :: texts xs) ++ ")"
  | .array xs _ => "@[" ++ spaced (texts xs) ++ "]"

/-- Each form as it is written. -/
def texts : List Form → List String
  | [] => []
  | x :: xs => x.text :: texts xs

/-- Keys and values as they are written, in turn. -/
def entryTexts : List (Form × Form) → List String
  | [] => []
  | (k, v) :: es => k.text :: v.text :: entryTexts es
end

end LarkPhp.Form
