import LarkPhp.Globals

/-!
Ready-made expanders.  Their results are paren tuples without a place, unless a form is passed on
as it is.
-/

namespace LarkPhp.Expander

/-- An expansion that draws no symbols. -/
def yield (form : Form) : Expansion := ⟨.ok form, 0⟩

/-- An expansion that fails over the number of arguments. -/
def refuse (message : String) : Expansion :=
  ⟨.error (.ofFault (.custom .arity message)), 0⟩

/-- The n-th element of the call, or `nil`. -/
def argument (call : Call) (n : Nat) : Form := call.elements[n]?.getD .nil

/-- Turns `(_ test body ...)` into `(if test (do body ...))`. -/
def whenTrue : Expander := fun call _ =>
  match call.elements.tail with
  | test :: body => yield (.parens [.name "if", test, .parens (.name "do" :: body)])
  | [] => refuse "when requires a test"

/-- Turns `(_ test body)` into `(if test nil body)`. -/
def unlessTrue : Expander := fun call _ =>
  match call.elements with
  | [_, test, body] => yield (.parens [.name "if", test, .nil, body])
  | _ => refuse "unless takes two arguments"

/-- Turns `(_ x)` into `x`. -/
def identity : Expander := fun call _ => yield (argument call 1)

/-- Turns `(_ x ...)` into `(x ...)`. -/
def splice : Expander := fun call _ => yield (.parens call.elements.tail)

/-- Turns `(_ x)` into `(do x x)`. -/
def twice : Expander := fun call _ =>
  yield (.parens [.name "do", argument call 1, argument call 1])

/-- Turns `(_ x y)` into `(let [g x] y g)` with a fresh `g`. -/
def hygienic : Expander := fun call drawn =>
  let g := .symbol (.fresh (drawn + 1)) none
  ⟨.ok (.parens [.name "let", .brackets [g, argument call 1], argument call 2, g]), 1⟩

/-- Turns every call into the same form. -/
def constant (form : Form) : Expander := fun _ _ => yield form

/-- Fails on every call. -/
def failing (error : CompileError) : Expander := fun _ _ => ⟨.error error, 0⟩

end LarkPhp.Expander
