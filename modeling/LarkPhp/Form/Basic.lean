import LarkPhp.Location
import LarkPhp.Symbol

/-!
Source forms: the values that programs are written in.

A form is a scalar, a symbol or a collection of forms.  Symbols and collections remember where they
were written.  `(a b)` and `[a b]` are both tuples; the delimiter says how the tuple is read, not
what it is equal to.
-/

namespace LarkPhp

/-- The brackets a tuple is written with. -/
inductive Delimiter where
  | paren
  | bracket
deriving DecidableEq, Inhabited

/-- A source form.  A set lists its elements, and a table its entries, in the order in which they
were first put in. -/
inductive Form where
  | nil
  | bool (value : Bool)
  | int (value : Int64)
  /-- A double, by its bits. -/
  | float (bits : UInt64)
  | str (text : String)
  | keyword (name : String)
  | symbol (symbol : Symbol) (span : Option Span)
  | tuple (delimiter : Delimiter) (elements : List Form) (span : Option Span)
  | table (entries : List (Form × Form)) (span : Option Span)
  | set (elements : List Form) (span : Option Span)
  | array (elements : List Form) (span : Option Span)
deriving Inhabited

namespace Form

/-- A paren tuple without a place in the source. -/
def parens (elements : List Form) : Form := .tuple .paren elements none

/-- A bracket tuple without a place in the source. -/
def brackets (elements : List Form) : Form := .tuple .bracket elements none

/-- The unqualified symbol `name` without a place in the source. -/
def name (name : String) : Form := .symbol (.plain name) none

/-- Only `nil` and `false` are not true. -/
def truthy : Form → Bool
  | .nil | .bool false => false
  | _ => true

/-- What kind of form it is, as messages put it. -/
def kind : Form → String
  | .nil => "nil"
  | .bool _ => "boolean"
  | .int _ => "integer"
  | .float _ => "float"
  | .str _ => "string"
  | .keyword _ => "keyword"
  | .symbol .. => "symbol"
  | .tuple .. => "tuple"
  | .table .. => "table"
  | .set .. => "set"
  | .array .. => "array"

/-- Where the form was written. -/
def span : Form → Option Span
  | .symbol _ span | .tuple _ _ span | .table _ span | .set _ span | .array _ span => span
  | _ => none

/-- The form moved to another place.  Scalars have none and stay as they are. -/
def moveTo (span : Option Span) : Form → Form
  | .symbol s _ => .symbol s span
  | .tuple d xs _ => .tuple d xs span
  | .table es _ => .table es span
  | .set xs _ => .set xs span
  | .array xs _ => .array xs span
  | scalar => scalar

/-- The symbol that the form is. -/
def symbol? : Form → Option Symbol
  | .symbol s _ => some s
  | _ => none

/-- The elements of a tuple. -/
def elements? : Form → Option (List Form)
  | .tuple _ xs _ => some xs
  | _ => none

/-- Whether evaluating the form can only yield the form itself. -/
def isScalar : Form → Bool
  | .nil | .bool _ | .int _ | .float _ | .str _ | .keyword _ => true
  | _ => false

/-- Whether the form is the marker `&` that stands before a rest parameter. -/
def isRestMarker : Form → Bool
  | .symbol s _ => s.isPlain "&"
  | _ => false

/-! ### Height -/

mutual
/-- Number of levels of the form; scalars and symbols have one. -/
def height : Form → Nat
  | .tuple _ xs _ | .set xs _ | .array xs _ => heightAll xs + 1
  | .table es _ => heightEntries es + 1
  | _ => 1

/-- The greatest height of the forms. -/
def heightAll : List Form → Nat
  | [] => 0
  | x :: xs => max x.height (heightAll xs)

/-- The greatest height of the keys and values. -/
def heightEntries : List (Form × Form) → Nat
  | [] => 0
  | (k, v) :: es => max (max k.height v.height) (heightEntries es)
end

theorem height_pos (f : Form) : 0 < f.height := by
  cases f <;> simp [height]

theorem height_le_heightAll {x : Form} {xs : List Form} (h : x ∈ xs) :
    x.height ≤ heightAll xs := by
  induction xs with
  | nil => cases h
  | cons y ys ih =>
    rcases List.mem_cons.1 h with rfl | h
    · exact Nat.le_max_left _ _
    · exact Nat.le_trans (ih h) (Nat.le_max_right _ _)

theorem height_le_heightEntries {e : Form × Form} {es : List (Form × Form)} (h : e ∈ es) :
    e.1.height ≤ heightEntries es ∧ e.2.height ≤ heightEntries es := by
  induction es with
  | nil => cases h
  | cons d es ih =>
    obtain ⟨k, v⟩ := d
    simp only [heightEntries]
    rcases List.mem_cons.1 h with rfl | h
    · dsimp only
      omega
    · have := ih h
      omega

end Form

/-- A paren tuple that is being read as a call: everything between the parentheses, and where they
stand. -/
structure Call where
  elements : List Form
  span : Option Span
deriving Inhabited

/-- The call as a form. -/
def Call.toForm (c : Call) : Form := .tuple .paren c.elements c.span

end LarkPhp
