import LarkPhp.Node
import LarkPhp.Php.Value
import LarkPhp.Php.Writer
import LarkPhp.SpecialForm

/-!
Nodes as code.

The context of a node decides its shape: an expression is written bare, a statement on a line of
its own with a semicolon, a result with a `return` before it.  Blocks hand their context on to their
last form; where a block has to be an expression it is written as a function that is called on the
spot, with everything visible taken over into it.
-/

namespace LarkPhp.Php

/-! ### Pieces -/

section Pieces
variable (config : Config)

/-- The variable for a symbol. -/
def var (s : Symbol) : String := variableName s.name

/-- The start of a line. -/
def margin (depth : Nat) : String := indentation config.indent depth

/-- A whole line. -/
def line (depth : Nat) (text : String) : String := margin config depth ++ text ++ "\n"

/-- An expression in its context. -/
def framed (context : Context) (depth : Nat) (text : String) : String :=
  match context with
  | .expression => text
  | .statement => margin config depth ++ text ++ ";\n"
  | .result => margin config depth ++ "return " ++ text ++ ";\n"

/-- The clause that takes variables over into a function. -/
def useClause (uses : List Symbol) : String :=
  if uses.isEmpty then "" else " use (" ++ commas (uses.map var) ++ ")"

/-- Statements as an expression: a function, called on the spot.  The statements are written one
level deeper than the expression. -/
def closure (scope : Scope) (depth : Nat) (body : String) : String :=
  "(function()" ++ useClause scope.vars ++ " \x7b\n" ++ body ++ margin config depth ++ "\x7d)()"

/-- The place where a definition is kept. -/
def globalPlace (home : String) (name : Symbol) : String :=
  "$GLOBALS[" ++ quote config.globalsKey ++ "][" ++ quote home ++ "][" ++ quote name.name ++ "]"

/-- The test of a branch: only `null` and `false` are not true. -/
def truth (test : String) : String := config.runtimeClass "Truthy" ++ "::isTruthy(" ++ test ++ ")"

/-- Parameters; the last one may take all arguments that are left. -/
def parameterNames (variadic : Bool) : List Symbol → List String
  | [] => []
  | [p] => [if variadic then "..." ++ var p else var p]
  | p :: ps => var p :: parameterNames variadic ps

/-- A host function as a value: its name, or a function of two arguments for an operator. -/
def hostValue (name : String) : String :=
  if isHostOperator name then "(fn ($a, $b) => $a " ++ name ++ " $b)" else quote name

/-- An operator between its operands; it stands before a single one. -/
def operation (operator : String) : List String → String
  | [x] => "(" ++ operator ++ x ++ ")"
  | xs => "(" ++ (" " ++ operator ++ " ").intercalate xs ++ ")"

/-- A call, given the texts of the callee and of the arguments. -/
def application (callee : Node) (text : String) (args : List String) : String :=
  match callee with
  | .hostVar name _ =>
    if isHostOperator name.name then operation name.name args
    else name.name ++ "(" ++ commas args ++ ")"
  | _ => "(" ++ text ++ ")(" ++ commas args ++ ")"

/-- The object or class whose member is meant, given its text. -/
def target (node : Node) (text : String) : String :=
  match node with
  | .className name _ => name.name
  | _ => "(" ++ text ++ ")"

/-- Whether a node can be assigned to once it is subscripted. -/
def assignable : Node → Bool
  | .localVar .. | .globalVar .. => true
  | .arrayGet array _ _ => assignable array
  | _ => false

/-- A subscript, given the texts of the array and of the index.  What can be assigned to is written
bare, so that it stays so. -/
def subscript (array : Node) (text index : String) : String :=
  (if assignable array then text else "(" ++ text ++ ")") ++ "[" ++ index ++ "]"

/-- The head of a loop, given the text of the collection. -/
def loopHead (value : Symbol) (key : Option Symbol) (collection : String) : String :=
  let keyPart := match key with
    | some k => var k ++ " => "
    | none => ""
  "foreach ((" ++ collection ++ " ?? []) as " ++ keyPart ++ var value ++ ") \x7b"

end Pieces

/-! ### Nodes -/

mutual
/-- The code of a node, at a depth of indentation. -/
def code (config : Config) : Node → (depth : Nat) → String
  | .literal v i, depth =>
    match i.scope.context with
    | .statement => ""
    | context => framed config context depth (value config v)
  | .localVar s i, depth => framed config i.scope.context depth (var s)
  | .globalVar home name i, depth =>
    framed config i.scope.context depth (globalPlace config home name)
  | .hostVar name i, depth => framed config i.scope.context depth (hostValue name.name)
  | .className name i, depth => framed config i.scope.context depth (name.name ++ "::class")
  | .call callee args i, depth =>
    framed config i.scope.context depth
      (application callee (code config callee depth) (codes config args depth))
  | .block stmts last i, depth =>
    if i.scope.context = .expression ∧ !stmts.isEmpty then
      closure config i.scope depth
        (String.join (codes config stmts (depth + 1)) ++ code config last (depth + 1))
    else String.join (codes config stmts depth) ++ code config last depth
  | .branch test yes no i, depth =>
    if i.scope.context = .expression then
      "(" ++ truth config (code config test depth) ++ " ? " ++ code config yes depth ++ " : "
        ++ code config no depth ++ ")"
    else
      line config depth ("if (" ++ truth config (code config test depth) ++ ") \x7b")
        ++ code config yes (depth + 1) ++ line config depth "\x7d else \x7b"
        ++ code config no (depth + 1) ++ line config depth "\x7d"
  | .bindings bs body i, depth =>
    if i.scope.context = .expression then
      closure config i.scope depth
        (assignments config bs (depth + 1) ++ code config body (depth + 1))
    else assignments config bs depth ++ code config body depth
  | .function params variadic uses body i, depth =>
    framed config i.scope.context depth
      ("function (" ++ commas (parameterNames variadic params) ++ ")" ++ useClause uses ++ " \x7b\n"
        ++ code config body (depth + 1) ++ margin config depth ++ "\x7d")
  | .definition home name init i, depth =>
    framed config i.scope.context depth
      (globalPlace config home name ++ " = " ++ code config init depth)
  | .loop v key collection body i, depth =>
    match i.scope.context with
    | .statement =>
      line config depth (loopHead v key (code config collection depth))
        ++ code config body (depth + 1) ++ line config depth "\x7d"
    | .result =>
      line config depth (loopHead v key (code config collection depth))
        ++ code config body (depth + 1) ++ line config depth "\x7d"
        ++ line config depth "return null;"
    | .expression =>
      closure config i.scope depth
        (line config (depth + 1) (loopHead v key (code config collection (depth + 1)))
          ++ code config body (depth + 2) ++ line config (depth + 1) "\x7d"
          ++ line config (depth + 1) "return null;")
  | .throw exception i, depth =>
    if i.scope.context = .expression then "(throw " ++ code config exception depth ++ ")"
    else line config depth ("throw " ++ code config exception depth ++ ";")
  | .table items i, depth =>
    framed config i.scope.context depth
      (construct config "Table" "fromKVs" (codes config items depth))
  | .array items i, depth =>
    framed config i.scope.context depth
      (construct config "PArray" "create" (codes config items depth))
  | .set items i, depth =>
    framed config i.scope.context depth (construct config "Set" "create" (codes config items depth))
  | .tuple items i, depth =>
    framed config i.scope.context depth
      (construct config "Tuple" "createBracket" (codes config items depth))
  | .new cls args i, depth =>
    framed config i.scope.context depth
      ("new " ++ target cls (code config cls depth) ++ "(" ++ commas (codes config args depth) ++ ")")
  | .member object call static _ i, depth =>
    framed config i.scope.context depth
      (target object (code config object depth) ++ (if static then "::" else "->")
        ++ code config call depth)
  | .methodCall name args _, depth => name.name ++ "(" ++ commas (codes config args depth) ++ ")"
  | .property name _, _ => name.name
  | .arrayGet array index i, depth =>
    framed config i.scope.context depth
      (subscript array (code config array depth) (code config index depth))
  | .arraySet array index v i, depth =>
    framed config i.scope.context depth
      (subscript array (code config array depth) (code config index depth) ++ " = "
        ++ code config v depth)

/-- The codes of nodes. -/
def codes (config : Config) : List Node → (depth : Nat) → List String
  | [], _ => []
  | n :: ns, depth => code config n depth :: codes config ns depth

/-- One assignment for each binding. -/
def assignments (config : Config) : List (Binding Node) → (depth : Nat) → String
  | [], _ => ""
  | ⟨_, v, init⟩ :: bs, depth =>
    line config depth (var v ++ " = " ++ code config init depth ++ ";")
      ++ assignments config bs depth
end

theorem codes_eq (config : Config) (ns : List Node) (depth : Nat) :
    codes config ns depth = ns.map (code config · depth) := by
  induction ns with
  | nil => rfl
  | cons n ns ih => simp [codes, ih]

/-! ### Programs -/

/-- The code of a top-level node, with its place before it if that is wanted. -/
def root (config : Config) (n : Node) : String :=
  match config.locationComments, n.location with
  | true, some l => "// " ++ l.text ++ "\n" ++ code config n 0
  | _, _ => code config n 0

/-- The code of a program. -/
def program (config : Config) (roots : List Node) : String :=
  (if config.openTag then "<?php\n" else "") ++ String.join (roots.map (root config))

end LarkPhp.Php
