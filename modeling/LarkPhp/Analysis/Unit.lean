import LarkPhp.Analysis.Special

/-!
Analysis of forms and of whole units.

A form is analyzed by its kind: scalars are literals, symbols are references, collections have their
elements analyzed, and a paren tuple is a special form, a call of a macro or a plain call.  A unit
is a list of forms; the first fault stops it and withdraws what it defined.
-/

namespace LarkPhp.Analysis

/-- Analyzes a symbol. -/
def reference (symbol : Symbol) (span : Option Span) (scope : Scope) : Analyze Node := do
  if symbol.ofHost then push (.hostVar symbol) scope span
  else if symbol.isClassName then push (.className symbol) scope span
  else if scope.isLocal symbol then push (.localVar (scope.variableOf symbol)) scope span
  else
    match (← get).globals.resolve symbol scope.homeName with
    | .global home name => push (.globalVar home name) scope span
    | .expander name _ => fail (.macroValue name) span
    | .unresolved => fail (.unresolved symbol) span

/-- Expands a call of a macro.  The result is placed where the call stands unless it has a place of
its own. -/
def expand (name : Symbol) (expander : Expander) (call : Call) : Analyze Form := fun s =>
  let expansion := expander call s.drawn
  let s := { s with drawn := s.drawn + expansion.drawn }
  match expansion.result with
  | .ok form => .ok (if form.span.isNone then form.moveTo call.span else form) s
  | .error cause =>
    .error (.failed (((CompileError.ofFault (.expansion name)).locate call.span).causedBy cause)) s

/-- Whether a form can stand at the head of a call. -/
def callable : Form → Bool
  | .nil | .bool _ | .int _ | .float _ | .str _ => false
  | _ => true

/-- The operator of the host that a head names. -/
def operatorOf? : Form → Option String
  | .symbol s _ => if s.ofHost && isHostOperator s.name then some s.name else none
  | _ => none

/-- Analyzes a plain call. -/
def application (visit : Visit) (head : Form) (args : List Form) (scope : Scope)
    (span : Option Span) : Analyze Node :=
  if !callable head then fail (.notCallable head.kind) span
  else
    match operatorOf? head, args with
    | some operator, [] => fail (.noOperand operator) span
    | _, _ => do
      let f ← visit head scope.operand
      let nodes ← all visit args scope.operand
      push (.call f nodes) scope span

/-- The macro that a head names.  A local of the same name hides it. -/
def macroOf? (globals : Globals) (head : Form) (scope : Scope) : Option (Symbol × Expander) :=
  match head with
  | .symbol s _ =>
    if scope.isLocal s then none
    else
      match globals.resolve s scope.homeName with
      | .expander name expander => some (name, expander)
      | _ => none
  | _ => none

/-- Analyzes a paren tuple.  What a macro yields is analyzed by `reenter`. -/
def parens (reenter visit : Visit) (call : Call) (scope : Scope) : Analyze Node :=
  match call.elements with
  | [] => push (.literal call.toForm) scope call.span
  | head :: args =>
    match head.symbol?.bind SpecialForm.ofSymbol? with
    | some form => located call.span (special visit form args scope call.span)
    | none => do
      match macroOf? (← get).globals head scope with
      | some (name, expander) => do
        let form ← expand name expander call
        reenter form scope
      | none => application visit head args scope call.span

/-- Analyzes a form whose parts are analyzed by `visit`, and what macros yield by `reenter`. -/
def step (reenter visit : Visit) (form : Form) (scope : Scope) : Analyze Node :=
  match form with
  | .symbol s span => reference s span scope
  | .tuple .paren xs span => parens reenter visit ⟨xs, span⟩ scope
  | .tuple .bracket xs span => do
    let items ← all visit xs scope.operand
    push (.tuple items) scope span
  | .table es span => do
    let items ← entries visit es scope.operand
    push (.table items) scope span
  | .set xs span => do
    let items ← all visit xs scope.operand
    push (.set items) scope span
  | .array xs span => do
    let items ← all visit xs scope.operand
    push (.array items) scope span
  | scalar => push (.literal scalar) scope none

/-- Gives up. -/
def exhausted : Visit := fun _ _ => throw .exhausted

/-- Analyzes forms of at most the given height. -/
def toDepth (reenter : Visit) : (height : Nat) → Visit
  | 0 => exhausted
  | height + 1 => step reenter (toDepth reenter height)

/-- Analyzes forms with at most the given number of macro expansions inside each other. -/
def withExpansions : (expansions : Nat) → Visit
  | 0 => fun form => toDepth exhausted form.height form
  | n + 1 => fun form => toDepth (withExpansions n) form.height form

/-- How many macros may be expanded inside each other.  There is no such bound on expansion itself: macros
may go on for ever, and then analysis has no outcome at all.  A run that gets to the number is taken for
one of those.  Which number it is does not matter to outcomes (`unitWithin_of_le`, `unitWithin_eq_unit`). -/
def expansionLimit : Nat := 1000000

/-- Analyzes a form. -/
def form : Visit := withExpansions expansionLimit

/-- Analyzes the forms of a unit.  If it stops, nothing stays defined that was not defined before the
analysis began. -/
def unit (forms : List Form) (scope : Scope) : Analyze (List Node) :=
  withdrawing 0 (all form forms scope)

/-- Analyzes forms one by one, going on after a fault. -/
def each : List Form → Scope → State → List (Except Stop Node) × State
  | [], _, s => ([], s)
  | f :: fs, scope, s =>
    match form f scope s with
    | .ok node s => let (rest, s) := each fs scope s; (.ok node :: rest, s)
    | .error e s => let (rest, s) := each fs scope s; (.error e :: rest, s)

end LarkPhp.Analysis
