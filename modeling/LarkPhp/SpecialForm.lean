import LarkPhp.Symbol

/-!
The special forms and the operators of the host language.

A special form is named by the head of a paren tuple.  An operator of the host is named by a symbol
of the namespace `php`, and calls of it are written between the operands.
-/

namespace LarkPhp

/-- The constructs of the language that are neither calls nor expanded. -/
inductive SpecialForm where
  | quote
  | block
  | branch
  | bindings
  | function
  | definition
  | loop
  | throw
  | new
  | member
  | staticMember
  | arrayGet
  | arraySet
deriving DecidableEq, Inhabited

namespace SpecialForm

/-- All special forms. -/
def all : List SpecialForm :=
  [.quote, .block, .branch, .bindings, .function, .definition, .loop, .throw, .new, .member,
    .staticMember, .arrayGet, .arraySet]

/-- The head that names the form, as it is written. -/
def name : SpecialForm → String
  | .quote => "quote"
  | .block => "do"
  | .branch => "if"
  | .bindings => "let"
  | .function => "fn"
  | .definition => "def"
  | .loop => "foreach"
  | .throw => "throw"
  | .new => "php/new"
  | .member => "php/->"
  | .staticMember => "php/::"
  | .arrayGet => "php/aget"
  | .arraySet => "php/aset"

/-- The head that names the form. -/
def symbol (f : SpecialForm) : Symbol := .ofWritten f.name

/-- The special form that a head names.  A drawn symbol names none. -/
def ofSymbol? (s : Symbol) : Option SpecialForm := all.find? fun f => f.symbol == s

end SpecialForm

/-- The operators of the host language. -/
def hostOperators : List String :=
  ["+", "-", "*", "/", "%", ".", "==", "===", "!=", "!==", "<", ">", "<=", ">=", "&&", "||", "**",
    "&", "|", "^", "<<", ">>", "instanceof"]

/-- Whether the host has an operator of this name. -/
def isHostOperator (name : String) : Bool := hostOperators.contains name

end LarkPhp
