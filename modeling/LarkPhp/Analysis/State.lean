import LarkPhp.Diagnostic.Queue
import LarkPhp.Globals
import LarkPhp.Node

/-!
The steps that analysis is made of.

Analysis reads and changes the globals, draws fresh symbols, numbers nodes and collects warnings.
All of that stays when it stops with an error, except where `withdrawing` takes back definitions that
were made.
-/

namespace LarkPhp.Analysis

/-- What analysis works on. -/
structure State where
  globals : Globals
  /-- Number of symbols drawn so far. -/
  drawn : Nat
  /-- Number of nodes made so far. -/
  nodes : Nat
  warnings : Diagnostic.Queue
  /-- The names that were defined for the first time, with their namespaces, in order. -/
  added : List (String × String)
deriving Inhabited

/-- Why analysis stopped. -/
inductive Stop where
  /-- There is a fault in the program. -/
  | failed (error : CompileError)
  /-- Macros were expanded inside each other too many times.  This is no fault of a program: it stands for
  a run without an end. -/
  | exhausted

/-- Analysis that yields an `α`. -/
abbrev Analyze := EStateM Stop State

/-- Analysis of forms, each in a scope. -/
abbrev Visit := Form → Scope → Analyze Node

/-- The state before a unit is analyzed. -/
def State.start (globals : Globals) (drawn : Nat) : State :=
  ⟨globals, drawn, 0, .empty, []⟩

/-- Undoes all first definitions but the earliest `mark`, the latest one first. -/
def State.withdraw (s : State) (mark : Nat) : State :=
  { s with
    globals := s.globals.undefineAll (s.added.drop mark).reverse
    added := s.added.take mark }

section Steps
variable {α : Type}

/-- Stops with a fault. -/
def fail (fault : Fault) (span : Option Span) : Analyze α :=
  throw (.failed ((CompileError.ofFault fault).locate span))

/-- Places an error at `span` if it has no place. -/
def located (span : Option Span) (act : Analyze α) : Analyze α := fun s =>
  match act s with
  | .error (.failed e) s' => .error (.failed (e.locate span)) s'
  | r => r

/-- Withdraws all first definitions but the earliest `mark` if `act` stops. -/
def withdrawing (mark : Nat) (act : Analyze α) : Analyze α := fun s =>
  match act s with
  | .error e s' => .error e (s'.withdraw mark)
  | r => r

/-- Withdraws the definitions that `act` made for the first time if it stops. -/
def transaction (act : Analyze α) : Analyze α := fun s => withdrawing s.added.length act s

/-- Draws a fresh symbol. -/
def fresh : Analyze Symbol :=
  modifyGet fun s => (.fresh (s.drawn + 1), { s with drawn := s.drawn + 1 })

/-- Makes a node, placed where `span` starts. -/
def push (make : Node.Info → Node) (scope : Scope) (span : Option Span) : Analyze Node :=
  modifyGet fun s => (make ⟨s.nodes, scope, span.map Span.start⟩, { s with nodes := s.nodes + 1 })

/-- Warns about a stretch of source. -/
def warn (code : Code) (message : String) (span : Option Span) : Analyze Unit :=
  modify fun s => { s with warnings := s.warnings.add (.warning code message span) }

/-- Defines a name, and tells whether it was not defined before. -/
def define (home name : String) : Analyze Bool :=
  modifyGet fun s =>
    let first := !s.globals.isDefined home name
    (first, { s with
      globals := s.globals.define home name
      added := if first then s.added ++ [(home, name)] else s.added })

end Steps

end LarkPhp.Analysis
