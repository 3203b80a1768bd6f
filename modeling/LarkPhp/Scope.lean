import LarkPhp.Distinct
import LarkPhp.Symbol

/-!
Lexical scopes: what is visible at one place of a program.

A scope knows the names bound around the place, how the value at the place is used, and the
namespace that definitions there land in.  A name usually stands for the variable of the same
name; where a binding form rebinds a visible name, the name stands for a shadow variable instead.
-/

namespace LarkPhp

/-- How the value at a place is used. -/
inductive Context where
  /-- By the expression around it. -/
  | expression
  /-- Not at all. -/
  | statement
  /-- As the result of the function around it. -/
  | result
deriving DecidableEq, Inhabited

namespace Context

/-- The context of the last form of a block.  A block that is used by an expression becomes a
function that is called on the spot, so its value leaves as a result. -/
def tail : Context → Context
  | .expression => .result
  | c => c

def text : Context → String
  | .expression => "expression"
  | .statement => "statement"
  | .result => "return"

end Context

/-- What is visible at one place of a program. -/
structure Scope where
  /-- The bound names in binding order, without repeats. -/
  locals : List Symbol
  /-- The names that stand for another variable than their own. -/
  shadows : List (Symbol × Symbol)
  context : Context
  /-- The namespace around the place. -/
  home : Option String
deriving DecidableEq, Inhabited

namespace Scope

/-- The namespace of places that name none. -/
def defaultHome : String := "user"

/-- No locals, statement context, no namespace. -/
def empty : Scope := ⟨[], [], .statement, none⟩

/-- The namespace that definitions land in. -/
def homeName (s : Scope) : String := s.home.getD defaultHome

def isLocal (s : Scope) (name : Symbol) : Bool := s.locals.contains name

/-- The variable that a local name stands for. -/
def variableOf (s : Scope) (name : Symbol) : Symbol := (s.shadows.lookup name).getD name

def isShadowed (s : Scope) (name : Symbol) : Bool := (s.shadows.lookup name).isSome

/-- The scope with more names bound. -/
def bind (s : Scope) (names : List Symbol) : Scope :=
  { s with locals := Distinct.addAll s.locals names }

/-- The scope at a place whose value is used otherwise. -/
def withContext (s : Scope) (context : Context) : Scope := { s with context }

/-- The scope of an operand. -/
def operand (s : Scope) : Scope := s.withContext .expression

/-- The scope in which `name` stands for `var`. -/
def shadow (s : Scope) (name var : Symbol) : Scope :=
  { s with shadows := (name, var) :: s.shadows.filter (·.1 != name) }

/-- The scope in which the names stand for themselves again. -/
def unshadow (s : Scope) (names : List Symbol) : Scope :=
  { s with shadows := s.shadows.filter fun e => !names.contains e.1 }

/-- The scope inside a namespace. -/
def inNamespace (s : Scope) (home : String) : Scope := { s with home := some home }

/-- The variables that the locals stand for, in binding order, each once. -/
def vars (s : Scope) : List Symbol := Distinct.ofList (s.locals.map s.variableOf)

/-- The variables that the locals other than `params` stand for: what a function with these
parameters takes over from around it. -/
def captured (s : Scope) (params : List Symbol) : List Symbol :=
  Distinct.ofList ((s.locals.filter fun l => !params.contains l).map s.variableOf)

/-! ### Fields -/

section Fields
variable (s : Scope) (c : Context) (names : List Symbol) (n v : Symbol)

@[simp] theorem context_withContext : (s.withContext c).context = c := rfl
@[simp] theorem locals_withContext : (s.withContext c).locals = s.locals := rfl
@[simp] theorem shadows_withContext : (s.withContext c).shadows = s.shadows := rfl
@[simp] theorem home_withContext : (s.withContext c).home = s.home := rfl
@[simp] theorem withContext_context : s.withContext s.context = s := rfl
@[simp] theorem context_bind : (s.bind names).context = s.context := rfl
@[simp] theorem shadows_bind : (s.bind names).shadows = s.shadows := rfl
@[simp] theorem home_bind : (s.bind names).home = s.home := rfl
@[simp] theorem locals_shadow : (s.shadow n v).locals = s.locals := rfl
@[simp] theorem context_shadow : (s.shadow n v).context = s.context := rfl
@[simp] theorem home_shadow : (s.shadow n v).home = s.home := rfl

@[simp] theorem variableOf_shadow_self : (s.shadow n v).variableOf n = v := by
  simp [variableOf, shadow]

end Fields

end Scope

end LarkPhp
