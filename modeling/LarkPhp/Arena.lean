import LarkPhp.Node

/-!
Nodes in a table.

A program can also be kept flat: as a table with one entry for each node, in the order in which the
nodes are made, and one list in which the parts of all nodes that have any number of parts stand one
after another.  Entries refer to parts by number, and the number of a node is its place in the table.
-/

namespace LarkPhp

namespace Arena

/-- A stretch of the list of parts. -/
structure Range where
  start : Nat
  length : Nat
deriving DecidableEq

/-- A construct whose parts are given by number. -/
inductive Kind where
  | literal (value : Form)
  | localVar (var : Symbol)
  | globalVar (home : String) (name : Symbol)
  | hostVar (name : Symbol)
  | className (name : Symbol)
  | call (callee : Nat) (args : Range)
  | block (stmts : Range) (last : Nat)
  | branch (test yes no : Nat)
  | bindings (bindings : List (Binding Nat)) (body : Nat)
  | function (params : List Symbol) (variadic : Bool) (uses : List Symbol) (body : Nat)
  | definition (home : String) (name : Symbol) (init : Nat)
  | loop (value : Symbol) (key : Option Symbol) (collection body : Nat)
  | throw (exception : Nat)
  | table (items : Range)
  | array (items : Range)
  | set (items : Range)
  | tuple (items : Range)
  | new (cls : Nat) (args : Range)
  | member (target part : Nat) (static method : Bool)
  | methodCall (name : Symbol) (args : Range)
  | property (name : Symbol)
  | arrayGet (array index : Nat)
  | arraySet (array index value : Nat)

/-- The stretch of parts that a construct refers to, if it refers to one. -/
def Kind.range? : Kind → Option Range
  | call _ r | block r _ | table r | array r | set r | tuple r | new _ r | methodCall _ r => some r
  | _ => none

/-- An entry: a construct, the scope that it was analyzed in, and the place of its form. -/
structure Entry where
  kind : Kind
  scope : Scope
  location : Option Location

end Arena

/-- A table of nodes. -/
structure Arena where
  entries : Array Arena.Entry
  /-- The numbers of parts, one stretch after another. -/
  parts : Array Nat

namespace Node

def serial (n : Node) : Nat := n.info.serial

/-- The parts of which a node may have any number, bindings apart. -/
def listed : Node → List Node
  | call _ args _ | new _ args _ | methodCall _ args _ => args
  | block stmts _ _ => stmts
  | table items _ | array items _ | set items _ | tuple items _ => items
  | _ => []

end Node

/-- The construct of a node whose listed parts have the given stretch. -/
def Arena.Kind.ofNode (n : Node) (range : Range) : Kind :=
  match n with
  | .literal v _ => .literal v
  | .localVar v _ => .localVar v
  | .globalVar home name _ => .globalVar home name
  | .hostVar name _ => .hostVar name
  | .className name _ => .className name
  | .call f _ _ => .call f.serial range
  | .block _ last _ => .block range last.serial
  | .branch test yes no _ => .branch test.serial yes.serial no.serial
  | .bindings bs body _ => .bindings (bs.map fun b => ⟨b.name, b.var, b.init.serial⟩) body.serial
  | .function params variadic uses body _ => .function params variadic uses body.serial
  | .definition home name init _ => .definition home name init.serial
  | .loop v key coll body _ => .loop v key coll.serial body.serial
  | .throw x _ => .throw x.serial
  | .table .. => .table range
  | .array .. => .array range
  | .set .. => .set range
  | .tuple .. => .tuple range
  | .new cls _ _ => .new cls.serial range
  | .member target part static method _ => .member target.serial part.serial static method
  | .methodCall name _ _ => .methodCall name range
  | .property name _ => .property name
  | .arrayGet a i _ => .arrayGet a.serial i.serial
  | .arraySet a i v _ => .arraySet a.serial i.serial v.serial

namespace Arena

def empty : Arena := ⟨#[], #[]⟩

/-- Number of nodes. -/
def size (arena : Arena) : Nat := arena.entries.size

def get? (arena : Arena) (number : Nat) : Option Entry := arena.entries[number]?

/-- The numbers in a stretch.  An empty one need not lie inside of the list. -/
def list? (arena : Arena) (range : Range) : Option (List Nat) :=
  if range.length = 0 then some []
  else if range.start + range.length ≤ arena.parts.size then
    some (arena.parts.extract range.start (range.start + range.length)).toList
  else none

/-- The numbers of the parts of a construct, in the order in which the parts are made. -/
def children (arena : Arena) (kind : Kind) : List Nat :=
  let listed := (kind.range?.bind arena.list?).getD []
  match kind with
  | .literal _ | .localVar _ | .globalVar .. | .hostVar _ | .className _ | .property _ => []
  | .call f _ | .new f _ => f :: listed
  | .block _ last => listed ++ [last]
  | .branch test yes no => [test, yes, no]
  | .bindings bs body => bs.map Binding.init ++ [body]
  | .function _ _ _ body => [body]
  | .definition _ _ init => [init]
  | .loop _ _ coll body => [coll, body]
  | .throw x => [x]
  | .table _ | .array _ | .set _ | .tuple _ | .methodCall .. => listed
  | .member target part _ _ => [target, part]
  | .arrayGet a i => [a, i]
  | .arraySet a i v => [a, i, v]

/-- Appends an entry. -/
def alloc (arena : Arena) (entry : Entry) : Arena :=
  { arena with entries := arena.entries.push entry }

/-- Appends a stretch of parts.  An empty one takes no place. -/
def allocList (arena : Arena) (numbers : List Nat) : Range × Arena :=
  if numbers.isEmpty then (⟨0, 0⟩, arena)
  else (⟨arena.parts.size, numbers.length⟩, { arena with parts := arena.parts ++ numbers.toArray })

/-- Appends a node whose parts are there already. -/
def store (arena : Arena) (n : Node) : Arena :=
  let (range, arena) := arena.allocList (n.listed.map Node.serial)
  arena.alloc ⟨.ofNode n range, n.scope, n.location⟩

/-- The table of nodes that were made one after another. -/
def ofNodes (made : List Node) : Arena := made.foldl store empty

end Arena

end LarkPhp
