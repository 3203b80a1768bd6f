import LarkPhp.Analysis.Unit
import LarkPhp.Diagnostic.Terminal
import LarkPhp.Php.Code

/-!
Compiler sessions.

A session has options and works on a workspace: the definitions and macros that were made so far
and the number of symbols that were drawn.  Sessions may share a workspace.
-/

namespace LarkPhp

/-- Options of a session. -/
structure Options where
  /-- The namespace that definitions land in. -/
  home : String
  emit : Php.Config
deriving DecidableEq

namespace Options

def standard : Options := ⟨Scope.defaultHome, .standard⟩

instance : Inhabited Options := ⟨standard⟩

/-- The variable of the process environment that names the namespace. -/
def homeVariable : String := "LARK_NAMESPACE"

/-- The standard options, with the namespace that the process environment names, if it names one. -/
def ofEnvironment (lookup : String → Option String) : Options :=
  match lookup homeVariable with
  | some home => if home.isEmpty then standard else { standard with home }
  | none => standard

end Options

/-- What compilations leave behind for later ones. -/
structure Workspace where
  globals : Globals
  drawn : Nat
deriving Inhabited

namespace Workspace

/-- A workspace in which nothing was done yet. -/
def new (globals : Globals) : Workspace := ⟨globals, 0⟩

/-- Applies a change to the globals. -/
def change (w : Workspace) (f : Globals → Globals) : Workspace := { w with globals := f w.globals }

end Workspace

/-- The code of a unit and the warnings about it. -/
structure Output where
  code : String
  warnings : List Diagnostic

/-- How a compilation ends. -/
abbrev Outcome := Except Analysis.Stop Output

namespace Session

/-- Compiles a unit in a scope. -/
def compileIn (options : Options) (forms : List Form) (scope : Scope) (w : Workspace) :
    Outcome × Workspace :=
  match Analysis.unit forms scope (.start w.globals w.drawn) with
  | .ok roots s =>
    (.ok ⟨Php.program options.emit roots, s.warnings.flush.1⟩, ⟨s.globals, s.drawn⟩)
  | .error e s => (.error e, ⟨s.globals, s.drawn⟩)

/-- The scope of top-level forms. -/
def rootScope (options : Options) : Scope := Scope.empty.inNamespace options.home

/-- Compiles forms as statements.  The first fault stops the unit, and there is no code. -/
def compile (options : Options) (forms : List Form) (w : Workspace) : Outcome × Workspace :=
  compileIn options forms (rootScope options) w

/-- Compiles a form whose value is returned. -/
def compileExpression (options : Options) (form : Form) (w : Workspace) : Outcome × Workspace :=
  compileIn options [form] ((rootScope options).withContext .result) w

/-- The code of a compilation that succeeds. -/
def codeOf (r : Outcome × Workspace) : Option String := r.1.toOption.map Output.code

/-- What a terminal shows of a compilation, and the number of errors shown. -/
def report (color : Bool) : Outcome → Nat × String
  | .ok output =>
    (0, Terminal.diagnostics color output.warnings
      ++ Terminal.summary color 0 output.warnings.length)
  | .error (.failed e) => (1, Terminal.diagnostic color e.toDiagnostic ++ Terminal.summary color 1 0)
  | .error .exhausted => (1, Terminal.summary color 1 0)

end Session

end LarkPhp
