import LarkPhp.Form.Display
import LarkPhp.Php.Config
import LarkPhp.Php.Text

/-!
Forms as expressions that build them at run time.  Scalars are literals of the host; all else is
built by the constructors of the runtime's classes.
-/

namespace LarkPhp.Php

/-- Doubles are laid out as in forms, but for the values that are no numbers. -/
def floatLayout : Decimal.Layout := { Form.floatLayout with nan := "NAN", infinity := "INF" }

/-- Expressions with commas between them. -/
def commas (texts : List String) : String := ", ".intercalate texts

/-- A call of a constructor of the runtime. -/
def construct (config : Config) (cls constructor : String) (args : List String) : String :=
  config.runtimeClass cls ++ "::" ++ constructor ++ "(" ++ commas args ++ ")"

mutual
/-- The expression for a form. -/
def value (config : Config) : Form → String
  | .nil => "null"
  | .bool b => if b then "true" else "false"
  | .int n => toString n.toInt
  | .float bits => floatLayout.write bits
  | .str s => quote s
  | .keyword s => construct config "Keyword" "create" [quote s]
  | .symbol s _ => construct config "Symbol" "create" [quote s.text]
  | .tuple .paren xs _ => construct config "Tuple" "create" (values config xs)
  | .tuple .bracket xs _ => construct config "Tuple" "createBracket" (values config xs)
  | .table es _ => construct config "Table" "fromKVs" (entryValues config es)
  | .set xs _ => construct config "Set" "create" (values config xs)
  | .array xs _ => construct config "PArray" "create" (values config xs)

/-- The expressions for forms. -/
def values (config : Config) : List Form → List String
  | [] => []
  | x :: xs => value config x :: values config xs

/-- The expressions for keys and values in turn. -/
def entryValues (config : Config) : List (Form × Form) → List String
  | [] => []
  | (k, v) :: es => value config k :: value config v :: entryValues config es
end

theorem values_eq (config : Config) (xs : List Form) : values config xs = xs.map (value config) := by
  induction xs with
  | nil => rfl
  | cons x xs ih => simp [values, ih]

end LarkPhp.Php
