import LarkPhp.CompileError
import LarkPhp.Distinct
import LarkPhp.Form.Basic
import LarkPhp.Text.Inspect

/-!
Global definitions and macros.

A definition is a name in a namespace.  Some definitions are macros: they carry an expander, which
turns a call into the form to be analyzed in its place.  An unqualified symbol refers to the
namespace around it, or else to the core namespace; a qualified one to its own namespace only.
-/

namespace LarkPhp

/-- What an expander makes of a call, and how many fresh symbols it drew for it. -/
structure Expansion where
  result : Except CompileError Form
  drawn : Nat

/-- Turns a call into the form to be analyzed in its place.  The number is that of the symbols
drawn before, so the first one that the expander can draw is the next. -/
abbrev Expander := Call → Nat → Expansion

/-- What a symbol refers to outside the scope around it. -/
inductive Resolution where
  | global (home : String) (name : Symbol)
  | expander (name : Symbol) (expander : Expander)
  | unresolved

/-- Definitions and macros of all namespaces. -/
structure Globals where
  /-- The defined names with their namespaces, without repeats. -/
  defined : List (String × String)
  /-- The namespaces that were ever defined into, without repeats. -/
  namespaces : List String
  /-- The registered expanders, one for a name. -/
  expanders : List ((String × String) × Expander)
  /-- The namespace that unqualified symbols fall back to. -/
  core : String

namespace Globals

/-- The usual core namespace. -/
def defaultCore : String := "lark\\core"

/-- No definitions. -/
def empty (core : String) : Globals := ⟨[], [], [], core⟩

instance : Inhabited Globals := ⟨empty defaultCore⟩

def isDefined (g : Globals) (home name : String) : Bool := g.defined.contains (home, name)

/-- Adds a definition. -/
def define (g : Globals) (home name : String) : Globals :=
  { g with
    defined := Distinct.add g.defined (home, name)
    namespaces := Distinct.add g.namespaces home }

/-- Removes a definition.  An expander stays registered. -/
def undefine (g : Globals) (home name : String) : Globals :=
  { g with defined := g.defined.filter (· != (home, name)) }

/-- Removes definitions. -/
def undefineAll (g : Globals) (names : List (String × String)) : Globals :=
  names.foldl (fun g n => g.undefine n.1 n.2) g

/-- Defines a name as a macro. -/
def addExpander (g : Globals) (home name : String) (expander : Expander) : Globals :=
  { g.define home name with
    expanders := ((home, name), expander) :: g.expanders.filter (·.1 != (home, name)) }

/-- Number of definitions of a namespace. -/
def count (g : Globals) (home : String) : Nat := g.defined.countP (·.1 == home)

/-- What a name of a namespace refers to. -/
def resolveIn (g : Globals) (home name : String) : Resolution :=
  if g.isDefined home name then
    match g.expanders.lookup (home, name) with
    | some expander => .expander (.qualified home name) expander
    | none => .global home (.ofWritten name)
  else .unresolved

/-- What a symbol refers to inside a namespace. -/
def resolve (g : Globals) (symbol : Symbol) (home : String) : Resolution :=
  if symbol.generated then .unresolved
  else
    match symbol.qualifier with
    | some own => g.resolveIn own symbol.name
    | none =>
      match g.resolveIn home symbol.name with
      | .unresolved => g.resolveIn g.core symbol.name
      | found => found

/-- A summary for inspection. -/
def inspect (g : Globals) : String :=
  "SharedGlobals(GlobalEnvironment \x7b namespaces: " ++ toString g.namespaces.length
    ++ ", macros: " ++ toString g.expanders.length
    ++ ", core_namespace: " ++ Text.inspect g.core ++ " \x7d)"

/-! ### Defined names -/

@[simp] theorem core_define (g : Globals) (home name : String) :
    (g.define home name).core = g.core := rfl

@[simp] theorem expanders_define (g : Globals) (home name : String) :
    (g.define home name).expanders = g.expanders := rfl

@[simp] theorem core_undefine (g : Globals) (home name : String) :
    (g.undefine home name).core = g.core := rfl

@[simp] theorem expanders_undefine (g : Globals) (home name : String) :
    (g.undefine home name).expanders = g.expanders := rfl

theorem isDefined_iff (g : Globals) (home name : String) :
    g.isDefined home name = true ↔ (home, name) ∈ g.defined := by
  simp [isDefined]

theorem isDefined_define (g : Globals) (home name h n : String) :
    (g.define home name).isDefined h n = true ↔
      g.isDefined h n = true ∨ (h, n) = (home, name) := by
  simp only [isDefined_iff, define, Distinct.mem_add]

end Globals

end LarkPhp
