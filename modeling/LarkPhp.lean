import LarkPhp.Location
import LarkPhp.Distinct
import LarkPhp.Symbol
import LarkPhp.Text.Inspect
import LarkPhp.Decimal.Layout
import LarkPhp.Form.Basic
import LarkPhp.Form.Equality
import LarkPhp.Form.Hash
import LarkPhp.Form.Display
import LarkPhp.Form.Collection
import LarkPhp.Scope
import LarkPhp.SpecialForm
import LarkPhp.Node
import LarkPhp.Arena
import LarkPhp.Diagnostic.Basic
import LarkPhp.Diagnostic.Queue
import LarkPhp.Diagnostic.Terminal
import LarkPhp.CompileError
import LarkPhp.Globals
import LarkPhp.Pattern
import LarkPhp.Analysis.State
import LarkPhp.Analysis.Block
import LarkPhp.Analysis.Binding
import LarkPhp.Analysis.Special
import LarkPhp.Analysis.Unit
import LarkPhp.Expanders
import LarkPhp.Php.Config
import LarkPhp.Php.Text
import LarkPhp.Php.Value
import LarkPhp.Php.Writer
import LarkPhp.Php.Code
import LarkPhp.Php.Emission
import LarkPhp.Session
import LarkPhp.Proofs.Run
import LarkPhp.Proofs.Rules
import LarkPhp.Proofs.Tree
import LarkPhp.Proofs.Numbering
import LarkPhp.Proofs.Agreement
import LarkPhp.Proofs.Transaction
import LarkPhp.Proofs.Increment
import LarkPhp.Proofs.FunctionScope
import LarkPhp.Proofs.Destructuring
import LarkPhp.Proofs.Growth
import LarkPhp.Proofs.Lexical
import LarkPhp.Proofs.Placement
import LarkPhp.Proofs.CodeGrammar
import LarkPhp.Proofs.CodeShape
import LarkPhp.Proofs.ClosedCode
import LarkPhp.Proofs.Yielding
import LarkPhp.Proofs.Nesting
import LarkPhp.Proofs.Naming
import LarkPhp.Proofs.Forest
import LarkPhp.Proofs.Emission
import LarkPhp.Proofs.Construction
import LarkPhp.Proofs.View
import LarkPhp.Proofs.Correspondence
import LarkPhp.Proofs.Lockstep
import LarkPhp.Proofs.ContextFree
import LarkPhp.Proofs.Recovery
import LarkPhp.Proofs.Acceptance
import LarkPhp.Proofs.Places
import LarkPhp.Proofs.Quotation
import LarkPhp.Proofs.Reference
import LarkPhp.Proofs.Register
import LarkPhp.Proofs.Literal
import LarkPhp.Proofs.Paths
import LarkPhp.Proofs.Located
import LarkPhp.Proofs.Operands
import LarkPhp.Proofs.SetAlgebra
import LarkPhp.Proofs.TableLookup
import LarkPhp.Proofs.Constants
import LarkPhp.Proofs.Hashing
import LarkPhp.Proofs.Depth
import LarkPhp.Proofs.Termination
import LarkPhp.Proofs.Subscripts
import LarkPhp.Proofs.Effects
import LarkPhp.Proofs.Redefinition
import LarkPhp.Proofs.Namespaces
import LarkPhp.Proofs.QueueLog
import LarkPhp.Proofs.Identifiers
import LarkPhp.Proofs.Slots
import LarkPhp.Proofs.Integers
