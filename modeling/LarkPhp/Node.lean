import LarkPhp.Form.Basic
import LarkPhp.Scope

/-!
Nodes: analyzed programs, as trees.

There is one constructor for each construct.  Every node carries the scope it was analyzed in, the
place of its form and a serial number.  Nodes are numbered in the order in which they are made,
children before parents.
-/

namespace LarkPhp

/-- What every node carries. -/
structure Node.Info where
  serial : Nat
  scope : Scope
  location : Option Location
deriving DecidableEq, Inhabited

/-- One binding of a `let`: the name as written, the variable that holds the value, the value. -/
structure Binding (α : Type) where
  name : Symbol
  var : Symbol
  init : α

/-- An analyzed program. -/
inductive Node where
  /-- A value that stands for itself, or a quoted one. -/
  | literal (value : Form) (info : Node.Info)
  /-- A local variable, after shadows are resolved. -/
  | localVar (var : Symbol) (info : Node.Info)
  /-- A definition of a namespace. -/
  | globalVar (home : String) (name : Symbol) (info : Node.Info)
  /-- A function or operator of the host. -/
  | hostVar (name : Symbol) (info : Node.Info)
  /-- A class of the host. -/
  | className (name : Symbol) (info : Node.Info)
  | call (callee : Node) (args : List Node) (info : Node.Info)
  /-- Statements, then the form that yields the value. -/
  | block (stmts : List Node) (last : Node) (info : Node.Info)
  | branch (test yes no : Node) (info : Node.Info)
  | bindings (bindings : List (Binding Node)) (body : Node) (info : Node.Info)
  /-- A function; `uses` are the variables it takes over from around it. -/
  | function (params : List Symbol) (variadic : Bool) (uses : List Symbol) (body : Node)
      (info : Node.Info)
  | definition (home : String) (name : Symbol) (init : Node) (info : Node.Info)
  | loop (value : Symbol) (key : Option Symbol) (collection body : Node) (info : Node.Info)
  | throw (exception : Node) (info : Node.Info)
  /-- Keys and values in turn. -/
  | table (items : List Node) (info : Node.Info)
  | array (items : List Node) (info : Node.Info)
  | set (items : List Node) (info : Node.Info)
  | tuple (items : List Node) (info : Node.Info)
  | new (cls : Node) (args : List Node) (info : Node.Info)
  /-- A member of an object or class: `call` is a `methodCall` or a `property`. -/
  | member (target call : Node) (static method : Bool) (info : Node.Info)
  | methodCall (name : Symbol) (args : List Node) (info : Node.Info)
  | property (name : Symbol) (info : Node.Info)
  | arrayGet (array index : Node) (info : Node.Info)
  | arraySet (array index value : Node) (info : Node.Info)

namespace Node

instance : Inhabited Node := ⟨.literal .nil default⟩

/-- What the node carries beside its construct. -/
def info : Node → Info
  | literal _ i | localVar _ i | globalVar _ _ i | hostVar _ i | className _ i | call _ _ i
  | block _ _ i | branch _ _ _ i | bindings _ _ i | function _ _ _ _ i | definition _ _ _ i
  | loop _ _ _ _ i | throw _ i | table _ i | array _ i | set _ i | tuple _ i | new _ _ i
  | member _ _ _ _ i | methodCall _ _ i | property _ i | arrayGet _ _ i | arraySet _ _ _ i => i

def scope (n : Node) : Scope := n.info.scope

def context (n : Node) : Context := n.scope.context

def location (n : Node) : Option Location := n.info.location

/-- The name of the node's construct. -/
def kind : Node → String
  | literal .. => "literal"
  | localVar .. => "local-var"
  | globalVar .. => "global-var"
  | hostVar .. => "php-var"
  | className .. => "php-class-name"
  | call .. => "call"
  | block .. => "do"
  | branch .. => "if"
  | bindings .. => "let"
  | function .. => "fn"
  | definition .. => "def"
  | loop .. => "foreach"
  | throw .. => "throw"
  | table .. => "table"
  | array .. => "array"
  | set .. => "set"
  | tuple .. => "tuple"
  | new .. => "php-new"
  | member .. => "php-object-call"
  | methodCall .. => "method-call"
  | property .. => "property-or-constant-access"
  | arrayGet .. => "php-array-get"
  | arraySet .. => "php-array-set"

/-- The nodes directly below, in the order in which they are analyzed. -/
def children : Node → List Node
  | literal .. | localVar .. | globalVar .. | hostVar .. | className .. | property .. => []
  | call f args _ => f :: args
  | block stmts last _ => stmts ++ [last]
  | branch c t e _ => [c, t, e]
  | bindings bs body _ => bs.map Binding.init ++ [body]
  | function _ _ _ body _ => [body]
  | definition _ _ init _ => [init]
  | loop _ _ coll body _ => [coll, body]
  | throw x _ => [x]
  | table xs _ | array xs _ | set xs _ | tuple xs _ => xs
  | new c args _ => c :: args
  | member t c _ _ _ => [t, c]
  | methodCall _ args _ => args
  | arrayGet a i _ => [a, i]
  | arraySet a i v _ => [a, i, v]

/-- How messages name the node with a serial number, or the lack of one. -/
def reference : Option Nat → String
  | some n => "NodeId(" ++ toString n ++ ")"
  | none => "NodeId::INVALID"

end Node

end LarkPhp
