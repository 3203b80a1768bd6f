import LarkPhp.Analysis.Binding

/-!
Special forms.  Each is read from the arguments behind its head; other numbers of arguments than
the ones listed in `special` are faults.
-/

namespace LarkPhp.Analysis

section Handlers
variable (visit : Visit)

/-- Analyzes a form that may be missing, which is `nil` then. -/
def optional (form : Option Form) (scope : Scope) (span : Option Span) : Analyze Node :=
  match form with
  | some f => visit f scope
  | none => push (.literal .nil) scope span

/-- Analyzes `(if test yes no)`. -/
def branch (test yes : Form) (no : Option Form) (scope : Scope) (span : Option Span) :
    Analyze Node := do
  let c ← visit test scope.operand
  let t ← visit yes scope
  let e ← optional visit no scope span
  push (.branch c t e) scope span

/-- Defines a name, with a warning if it is defined already. -/
def announce (home name : String) (span : Option Span) : Analyze Unit := do
  let first ← define home name
  if first then pure ()
  else warn .redefinition ("redefining global '" ++ home ++ "/" ++ name ++ "'") span

/-- Analyzes `(def name value)`.  The name is defined first, so that the value can refer to it, and
withdrawn if the value is faulty. -/
def definition (target value : Form) (scope : Scope) (span : Option Span) : Analyze Node :=
  match target with
  | .symbol name _ =>
    if name.qualifier.isNone then do
      let init ← transaction do
        announce scope.homeName name.name span
        visit value scope.operand
      push (.definition scope.homeName name init) scope span
    else fail .definedName span
  | _ => fail .definedName span

/-- Analyzes the object or class whose member is meant.  A symbol names a class where a static
member is meant. -/
def target (form : Form) (static : Bool) (scope : Scope) : Analyze Node :=
  match form, static with
  | .symbol name span, true => push (.className name) scope span
  | _, _ => visit form scope

/-- Analyzes access to a member of an object or, if `static`, of a class.  A tuple is a call of a
method, a symbol a property or a constant. -/
def member (static : Bool) (object part : Form) (scope : Scope) (span : Option Span) :
    Analyze Node := do
  let form := if static then .staticMember else .member
  let t ← target visit object static scope.operand
  match part with
  | .tuple _ (.symbol name _ :: args) place => do
    let nodes ← all visit args scope.operand
    let call ← push (.methodCall name nodes) scope.operand place
    push (.member t call static true) scope span
  | .tuple .. => fail (.methodName form) span
  | .symbol name place => do
    let call ← push (.property name) scope.operand place
    push (.member t call static false) scope span
  | _ => fail (.memberShape form) span

/-- Analyzes a special form. -/
def special (form : SpecialForm) (args : List Form) (scope : Scope) (span : Option Span) :
    Analyze Node :=
  match form, args with
  | .quote, [value] => push (.literal value) scope span
  | .block, forms => block visit forms scope span
  | .branch, [test, yes] => branch visit test yes none scope span
  | .branch, [test, yes, no] => branch visit test yes (some no) scope span
  | .bindings, head :: body => letForm visit head body scope span
  | .function, head :: body => function visit head body scope span
  | .definition, [name, value] => definition visit name value scope span
  | .loop, head :: body => loop visit head body scope span
  | .throw, [exception] => do
    let x ← visit exception scope.operand
    push (.throw x) scope span
  | .new, cls :: args => do
    let c ← visit cls scope.operand
    let nodes ← all visit args scope.operand
    push (.new c nodes) scope span
  | .member, [object, part] => member visit false object part scope span
  | .staticMember, [cls, part] => member visit true cls part scope span
  | .arrayGet, [array, index] => do
    let a ← visit array scope.operand
    let i ← visit index scope.operand
    push (.arrayGet a i) scope span
  | .arraySet, [array, index, value] => do
    let a ← visit array scope.operand
    let i ← visit index scope.operand
    let v ← visit value scope.operand
    push (.arraySet a i v) scope span
  | _, _ => fail (.argumentCount form) span

end Handlers

end LarkPhp.Analysis
