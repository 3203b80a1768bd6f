import LarkPhp.Analysis.Block
import LarkPhp.Pattern

/-!
Binding forms: `let`, `fn` and `foreach`.

Variables of the host belong to a whole function, so a name that is visible already gets a shadow
variable when it is bound again.  A pattern among the parameters of a function or the binders of a
loop is replaced by a fresh symbol, and the body takes that symbol apart first, as a `let` would.
-/

namespace LarkPhp.Analysis

/-- Binds a name, and gives the variable that it stands for from here on. -/
def bindName (name : Symbol) (scope : Scope) : Analyze (Symbol × Scope) :=
  if scope.isLocal name then do
    let var ← fresh
    pure (var, scope.shadow name var)
  else pure (name, scope.bind [name])

/-- Takes patterns apart. -/
def destructure (pairs : List (Form × Form)) : Analyze (List (Symbol × Form)) := fun s =>
  match Pattern.bindAll pairs ⟨s.drawn, []⟩ with
  | .ok _ b => .ok b.pairs { s with drawn := b.drawn }
  | .error e b => .error (.failed e) { s with drawn := b.drawn }

/-- Analyzes values and binds them, each visible to the next. -/
def bindValues (visit : Visit) :
    List (Symbol × Form) → Scope → Analyze (List (Binding Node) × Scope)
  | [], scope => pure ([], scope)
  | (name, form) :: rest, scope => do
    let init ← visit form scope.operand
    let (var, inner) ← bindName name scope
    let (bs, last) ← bindValues visit rest inner
    pure (⟨name, var, init⟩ :: bs, last)

/-! ### `let` -/

/-- Forms two by two, if their number is even. -/
def pairUp : List Form → Option (List (Form × Form))
  | [] => some []
  | [_] => none
  | a :: b :: rest => (pairUp rest).map ((a, b) :: ·)

/-- Analyzes a body in which patterns are bound to values. -/
def bindings (visit : Visit) (pairs : List (Form × Form)) (body : List Form) (scope : Scope)
    (span : Option Span) : Analyze Node := do
  let plain ← destructure pairs
  let (bs, inner) ← bindValues visit plain scope
  let node ← block visit body (inner.withContext scope.context.tail) span
  push (.bindings bs node) scope span

/-- Analyzes `(let [pattern value ...] body ...)`. -/
def letForm (visit : Visit) (head : Form) (body : List Form) (scope : Scope)
    (span : Option Span) : Analyze Node :=
  match head with
  | .tuple _ forms _ =>
    match pairUp forms with
    | some pairs => bindings visit pairs body scope span
    | none => fail .unpairedBinding span
  | _ => fail .bindingList span

/-! ### Parameters and binders -/

/-- Puts a fresh symbol in the place of a pattern. -/
def deferPattern (pattern : Form) : Analyze (Symbol × List (Form × Form)) := do
  let s ← fresh
  pure (s, [(pattern, .symbol s none)])

/-- The variable for a binder, and the pattern that it has to be taken apart by. -/
def binder (form : Form) : Analyze (Symbol × List (Form × Form)) :=
  match form with
  | .symbol s _ => if s.isPlain "&" then deferPattern form else pure (s, [])
  | _ => deferPattern form

/-- The variables for binders, and the patterns among them. -/
def binders : List Form → Analyze (List Symbol × List (Form × Form))
  | [] => pure ([], [])
  | f :: fs => do
    let (s, patterns) ← binder f
    let (rest, more) ← binders fs
    pure (s :: rest, patterns ++ more)

/-- A function's parameters. -/
structure Parameters where
  names : List Symbol
  /-- Whether the last parameter takes all arguments that are left. -/
  variadic : Bool
  patterns : List (Form × Form)

/-- Reads a parameter list; a rest marker goes before the last parameter. -/
def parameters (forms : List Form) (span : Option Span) : Analyze Parameters := do
  let (names, patterns) ← binders (forms.takeWhile (!·.isRestMarker))
  match forms.dropWhile (!·.isRestMarker) with
  | [] => pure ⟨names, false, patterns⟩
  | [_, form] => do
    let (name, more) ← binder form
    pure ⟨names ++ [name], true, patterns ++ more⟩
  | _ => fail .restParameter span

/-- Analyzes a body that takes patterns apart first, if there are any. -/
def patternBody (visit : Visit) (patterns : List (Form × Form)) (body : List Form) (scope : Scope)
    (span : Option Span) : Analyze Node :=
  if patterns.isEmpty then block visit body scope span
  else bindings visit patterns body scope span

/-! ### `fn` and `foreach` -/

/-- Analyzes `(fn [parameter ...] body ...)`.  The function takes over every variable around it
whose name is not a parameter. -/
def function (visit : Visit) (head : Form) (body : List Form) (scope : Scope)
    (span : Option Span) : Analyze Node :=
  match head with
  | .tuple _ forms _ => do
    let ps ← parameters forms span
    let inner := ((scope.unshadow ps.names).bind ps.names).withContext .result
    let node ← patternBody visit ps.patterns body inner span
    push (.function ps.names ps.variadic (scope.captured ps.names) node) scope span
  | _ => fail .parameterList span

/-- Analyzes a loop over a collection, which does not see the loop's own variables. -/
def loopOver (visit : Visit) (value : Symbol) (key : Option Symbol)
    (patterns : List (Form × Form)) (collection : Form) (body : List Form) (scope : Scope)
    (span : Option Span) : Analyze Node := do
  let coll ← visit collection scope.operand
  let (valueVar, inner) ← bindName value scope
  match key with
  | none => do
    let node ← patternBody visit patterns body (inner.withContext .statement) span
    push (.loop valueVar none coll node) scope span
  | some key => do
    let (keyVar, inner) ← bindName key inner
    let node ← patternBody visit patterns body (inner.withContext .statement) span
    push (.loop valueVar (some keyVar) coll node) scope span

/-- Analyzes `(foreach [value collection] body ...)`, where a key may stand before the value. -/
def loop (visit : Visit) (head : Form) (body : List Form) (scope : Scope) (span : Option Span) :
    Analyze Node :=
  match head with
  | .tuple _ [v, collection] _ => do
    let (value, patterns) ← binder v
    loopOver visit value none patterns collection body scope span
  | .tuple _ [k, v, collection] _ => do
    let (key, keyPatterns) ← binder k
    let (value, valuePatterns) ← binder v
    loopOver visit value (some key) (keyPatterns ++ valuePatterns) collection body scope span
  | .tuple .. => fail .loopHeadSize span
  | _ => fail .loopHead span

end LarkPhp.Analysis
