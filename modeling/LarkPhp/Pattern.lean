import LarkPhp.CompileError
import LarkPhp.Form.Basic

/-!
Binding patterns.

Where a name is bound, a tuple or a table may stand instead, with patterns inside.  `bind` turns a
pattern and a value into bindings of plain symbols: the value goes into a fresh holder, and each
inner pattern is bound to the part of the holder at its index or key.
-/

namespace LarkPhp.Pattern

/-- The bindings made so far, in order, and the number of symbols drawn so far. -/
structure Bindings where
  drawn : Nat
  pairs : List (Symbol × Form)
deriving Inhabited

/-- Makes bindings, or fails; what was bound before the failure stays. -/
abbrev Binder := EStateM CompileError Bindings

/-- Whether a form binds itself, without being taken apart. -/
def isPlain : Form → Bool
  | .symbol s _ => !s.isPlain "&"
  | _ => false

/-- The form `(php/aget holder key)`. -/
def access (holder : Symbol) (key : Form) : Form :=
  .parens [.symbol (.qualified "php" "aget") none, .symbol holder none, key]

/-- Binds a symbol. -/
def bindSymbol (s : Symbol) (value : Form) : Binder Unit :=
  modify fun b => { b with pairs := b.pairs ++ [(s, value)] }

/-- Binds a value to a fresh symbol. -/
def hold (value : Form) : Binder Symbol :=
  modifyGet fun b =>
    let holder := Symbol.fresh (b.drawn + 1)
    (holder, ⟨b.drawn + 1, b.pairs ++ [(holder, value)]⟩)

/-- Fails at a place. -/
def refuse {α : Type} (fault : Fault) (span : Option Span) : Binder α :=
  throw ((CompileError.ofFault fault).locate span)

mutual
/-- Binds a pattern to a value. -/
def bind : (pattern : Form) → (value : Form) → Binder Unit
  | .symbol s span, value =>
    if s.isPlain "&" then refuse .restPattern span else bindSymbol s value
  | .tuple _ inner span, value => do
    let holder ← hold value
    bindElements inner holder 0 span
  | .table inner _, value => do
    let holder ← hold value
    bindEntries inner holder
  | other, _ => refuse (.pattern other.kind) other.span

/-- Binds the patterns to the parts of a holder from an index on.  A rest marker is reported at its
own place, or else at that of the tuple around it. -/
def bindElements : List Form → (holder : Symbol) → (index : Nat) → Option Span → Binder Unit
  | [], _, _, _ => pure ()
  | p :: ps, holder, index, span =>
    if p.isRestMarker then refuse .restPattern (p.span <|> span)
    else do
      bind p (access holder (.int (Int64.ofNat index)))
      bindElements ps holder (index + 1) span

/-- Binds the patterns to the parts of a holder at their keys. -/
def bindEntries : List (Form × Form) → (holder : Symbol) → Binder Unit
  | [], _ => pure ()
  | (k, p) :: es, holder => do
    bind p (access holder k)
    bindEntries es holder
end

/-- Binds patterns to values one after the other. -/
def bindAll : List (Form × Form) → Binder Unit
  | [] => pure ()
  | (p, v) :: rest => do
    bind p v
    bindAll rest

end LarkPhp.Pattern
