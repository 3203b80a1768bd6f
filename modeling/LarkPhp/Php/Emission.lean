import LarkPhp.Arena
import LarkPhp.Php.Code

/-!
Code from a table of nodes.

The table is walked from the roots downwards, and each node is written piece by piece.  The walk stops
without a result where a number or a stretch of parts leads out of the table, and where indentation
would be taken back that was not given.
-/

namespace LarkPhp.Php

/-- Writing that may stop. -/
abbrev Emit := StateT Writer Option

namespace Emit

/-! ### Pieces -/

def write (s : String) : Emit Unit := modify (·.write s)

def writeIndent : Emit Unit := modify Writer.writeIndent

def writeLine (s : String) : Emit Unit := modify (·.writeLine s)

def indent : Emit Unit := modify Writer.indent

def dedent : Emit Unit := fun w => w.dedent?.map fun w => ((), w)

/-- Writes one level deeper. -/
def indented (body : Emit Unit) : Emit Unit := do
  indent
  body
  dedent

/-- Writes an expression in its context. -/
def framed (context : Context) (body : Emit Unit) : Emit Unit :=
  match context with
  | .expression => body
  | .statement => do
    writeIndent
    body
    write ";\n"
  | .result => do
    writeIndent
    write "return "
    body
    write ";\n"

/-- Writes statements as a function that is called on the spot. -/
def closure (scope : Scope) (body : Emit Unit) : Emit Unit := do
  write "(function()"
  write (useClause scope.vars)
  write " \x7b\n"
  indented body
  writeIndent
  write "\x7d)()"

def parens (body : Emit Unit) : Emit Unit := do
  write "("
  body
  write ")"

section Nodes
variable (config : Config) (arena : Arena)

/-- Whether a node can be assigned to once it is subscripted; `fuel` bounds the number of
subscripts. -/
def assignable : (fuel : Nat) → (number : Nat) → Emit Bool
  | 0, _ => StateT.lift none
  | fuel + 1, number => do
    let entry ← StateT.lift (arena.get? number)
    match entry.kind with
    | .localVar _ | .globalVar .. => pure true
    | .arrayGet array _ => assignable fuel array
    | _ => pure false

variable (visit : Nat → Emit Unit) (canAssign : Nat → Emit Bool)

/-- Writes nodes one after another. -/
def inOrder : List Nat → Emit Unit
  | [] => pure ()
  | i :: is => do
    visit i
    inOrder is

/-- Writes nodes with something between them. -/
def separated (between : String) : List Nat → Emit Unit
  | [] => pure ()
  | [i] => visit i
  | i :: is => do
    visit i
    write between
    separated between is

/-- Writes the nodes of a stretch with commas between them. -/
def list (range : Arena.Range) : Emit Unit := do
  separated visit ", " (← StateT.lift (arena.list? range))

/-- Writes arguments. -/
def args (range : Arena.Range) : Emit Unit := parens (list arena visit range)

/-- Writes an operator between its operands; it stands before a single one. -/
def operation (operator : String) : List Nat → Emit Unit
  | [x] => parens do
    write operator
    visit x
  | xs => parens (separated visit (" " ++ operator ++ " ") xs)

/-- Writes a call. -/
def application (callee : Nat) (range : Arena.Range) : Emit Unit := do
  match (← StateT.lift (arena.get? callee)).kind with
  | .hostVar name =>
    if isHostOperator name.name then
      operation visit name.name (← StateT.lift (arena.list? range))
    else do
      write name.name
      args arena visit range
  | _ => do
    parens (visit callee)
    args arena visit range

/-- Writes the object or class whose member is meant. -/
def target (number : Nat) : Emit Unit := do
  match (← StateT.lift (arena.get? number)).kind with
  | .className name => write name.name
  | _ => parens (visit number)

/-- Writes what is subscripted.  What can be assigned to is written bare. -/
def subscripted (array : Nat) : Emit Unit := do
  if ← canAssign array then visit array else parens (visit array)

/-- Writes a subscript. -/
def subscript (array index : Nat) : Emit Unit := do
  subscripted visit canAssign array
  write "["
  visit index
  write "]"

/-- Writes the test of a branch. -/
def truth (test : Nat) : Emit Unit := do
  write (config.runtimeClass "Truthy")
  write "::isTruthy"
  parens (visit test)

/-- Writes an assignment for each binding. -/
def assignments : List (Binding Nat) → Emit Unit
  | [] => pure ()
  | b :: bs => do
    writeIndent
    write (var b.var)
    write " = "
    visit b.init
    write ";\n"
    assignments bs

/-- Writes the variable for the keys of a loop. -/
def loopKey : Option Symbol → Emit Unit
  | some key => do
    write (var key)
    write " => "
  | none => pure ()

/-- Writes a loop. -/
def loop (value : Symbol) (key : Option Symbol) (collection body : Nat) : Emit Unit := do
  writeIndent
  write "foreach (("
  visit collection
  write " ?? []) as "
  loopKey key
  write (var value)
  write ") \x7b\n"
  indented (visit body)
  writeLine "\x7d"

/-- Writes a call of a constructor of the runtime. -/
def construct (cls constructor : String) (items : Arena.Range) : Emit Unit := do
  write (config.runtimeClass cls)
  write "::"
  write constructor
  args arena visit items

/-! ### Nodes -/

/-- Writes a construct in its scope. -/
def entry (kind : Arena.Kind) (scope : Scope) : Emit Unit :=
  match kind with
  | .literal v =>
    match scope.context with
    | .statement => pure ()
    | context => framed context (write (value config v))
  | .localVar v => framed scope.context (write (var v))
  | .globalVar home name => framed scope.context (write (globalPlace config home name))
  | .hostVar name => framed scope.context (write (hostValue name.name))
  | .className name => framed scope.context do
    write name.name
    write "::class"
  | .call callee range => framed scope.context (application arena visit callee range)
  | .block stmts last => do
    let stmts ← StateT.lift (arena.list? stmts)
    let body := do
      inOrder visit stmts
      visit last
    if scope.context = .expression ∧ !stmts.isEmpty then closure scope body else body
  | .branch test yes no =>
    if scope.context = .expression then
      parens do
        truth config visit test
        write " ? "
        visit yes
        write " : "
        visit no
    else do
      writeIndent
      write "if "
      parens (truth config visit test)
      write " \x7b\n"
      indented (visit yes)
      writeLine "\x7d else \x7b"
      indented (visit no)
      writeLine "\x7d"
  | .bindings bs body =>
    let body := do
      assignments visit bs
      visit body
    if scope.context = .expression then closure scope body else body
  | .function params variadic uses body => framed scope.context do
    write "function ("
    write (commas (parameterNames variadic params))
    write ")"
    write (useClause uses)
    write " \x7b\n"
    indented (visit body)
    writeIndent
    write "\x7d"
  | .definition home name init => framed scope.context do
    write (globalPlace config home name)
    write " = "
    visit init
  | .loop v key coll body =>
    match scope.context with
    | .statement => loop visit v key coll body
    | .result => do
      loop visit v key coll body
      writeLine "return null;"
    | .expression => closure scope do
      loop visit v key coll body
      writeLine "return null;"
  | .throw x =>
    if scope.context = .expression then
      parens do
        write "throw "
        visit x
    else do
      writeIndent
      write "throw "
      visit x
      write ";\n"
  | .table items => framed scope.context (construct config arena visit "Table" "fromKVs" items)
  | .array items => framed scope.context (construct config arena visit "PArray" "create" items)
  | .set items => framed scope.context (construct config arena visit "Set" "create" items)
  | .tuple items => framed scope.context (construct config arena visit "Tuple" "createBracket" items)
  | .new cls range => framed scope.context do
    write "new "
    target arena visit cls
    args arena visit range
  | .member object part static _ => framed scope.context do
    target arena visit object
    write (if static then "::" else "->")
    visit part
  | .methodCall name range => do
    write name.name
    args arena visit range
  | .property name => write name.name
  | .arrayGet array index => framed scope.context (subscript visit canAssign array index)
  | .arraySet array index v => framed scope.context do
    subscript visit canAssign array index
    write " = "
    visit v

end Nodes

section Programs
variable (config : Config) (arena : Arena)

/-- Writes the node with a number; `fuel` bounds how many nodes lie inside of each other. -/
def node : (fuel : Nat) → (number : Nat) → Emit Unit
  | 0, _ => StateT.lift none
  | fuel + 1, number => do
    let found ← StateT.lift (arena.get? number)
    entry config arena (node fuel) (assignable arena fuel) found.kind found.scope

/-- Writes the place of a node, if that is wanted. -/
def comment (number : Nat) : Emit Unit :=
  if config.locationComments then do
    match (← StateT.lift (arena.get? number)).location with
    | some l => writeLine ("// " ++ l.text)
    | none => pure ()
  else pure ()

/-- Writes a top-level node, with its place before it if that is wanted. -/
def root (fuel number : Nat) : Emit Unit := do
  comment config arena number
  node config arena fuel number

/-- Writes the opening tag, if that is wanted. -/
def openTag : Emit Unit := if config.openTag then writeLine "<?php" else pure ()

/-- Writes a program. -/
def program (fuel : Nat) (roots : List Nat) : Emit Unit := do
  openTag config
  inOrder (root config arena fuel) roots

end Programs

end Emit

/-- The code of the roots of a table.  Where entries refer only to earlier ones, as much fuel as there
are entries is enough. -/
def emit (config : Config) (arena : Arena) (fuel : Nat) (roots : List Nat) : Option String :=
  (Emit.program config arena fuel roots (.start config.indent)).map fun (_, w) => w.take.1

end LarkPhp.Php
