import LarkPhp.Analysis.State
import LarkPhp.Form.Display

/-!
Sequences of forms: operands, table entries and blocks.

In a block all forms but the last are statements.  The last one takes over the context of the
block; after statements in an expression, it is the result of a function around them.
-/

namespace LarkPhp.Analysis

/-- Analyzes forms in order in one scope. -/
def all (visit : Visit) : List Form → Scope → Analyze (List Node)
  | [], _ => pure []
  | f :: fs, scope => do
    let node ← visit f scope
    let nodes ← all visit fs scope
    pure (node :: nodes)

/-- Analyzes keys and values in turn in one scope. -/
def entries (visit : Visit) : List (Form × Form) → Scope → Analyze (List Node)
  | [], _ => pure []
  | (k, v) :: es, scope => do
    let key ← visit k scope
    let value ← visit v scope
    let nodes ← entries visit es scope
    pure (key :: value :: nodes)

/-- Warns about a statement that can have no effect. -/
def warnIfScalar (form : Form) (position : Nat) (span : Option Span) : Analyze Unit :=
  if form.isScalar then
    warn .discarded ("value " ++ form.text ++ " in statement " ++ toString position
      ++ " is discarded without effect") span
  else pure ()

/-- Analyzes statements, the first of them at the given position of the block at `span`. -/
def statements (visit : Visit) (span : Option Span) :
    List Form → (position : Nat) → Scope → Analyze (List Node)
  | [], _, _ => pure []
  | f :: fs, position, scope => do
    warnIfScalar f position span
    let node ← visit f scope
    let nodes ← statements visit span fs (position + 1) scope
    pure (node :: nodes)

/-- Analyzes a block.  An empty block yields `nil`. -/
def block (visit : Visit) (forms : List Form) (scope : Scope) (span : Option Span) :
    Analyze Node :=
  match forms.getLast? with
  | none => do
    let last ← push (.literal .nil) scope span
    push (.block [] last) scope span
  | some form => do
    let stmts ← statements visit span forms.dropLast 1 (scope.withContext .statement)
    let tail := if stmts.isEmpty then scope else scope.withContext scope.context.tail
    let last ← visit form tail
    push (.block stmts last) scope span

end LarkPhp.Analysis
