import LarkPhp.Session
import LarkPhp.Proofs.Agreement

/-!
Contexts decide nothing.

How the value of a form is used is passed down to its parts and noted in every node, but no step of
analysis asks for it.  So a form is analyzed alike for every use: with the same fault, or with the
same warnings, definitions, drawn symbols and numbers, and with nodes that differ in their contexts
only (`form_contextless`).  Compiling a form as a statement and compiling it for its value are the
case of two contexts at the root.
-/

namespace LarkPhp

/-! ### Nodes without contexts -/

namespace Node

/-- What a node carries, for any use of its value. -/
def Info.contextless (i : Info) : Info := { i with scope := i.scope.withContext .statement }

/-- The node without its contexts. -/
def contextless : Node → Node := mapInfo Info.contextless

end Node

namespace Analysis

/-- An outcome with the value of a success changed. -/
def onSuccess {α β : Type} (g : α → β) :
    EStateM.Result Stop State α → EStateM.Result Stop State β
  | .ok a s => .ok (g a) s
  | .error e s => .error e s

/-! ### Runs in two contexts -/

/-- Runs from the same state. -/
theorem simulation_eq : Simulation fun s t => s = t ∧ True :=
  Invariant.simulation ⟨fun _ _ => trivial, fun _ => trivial, fun _ _ => trivial,
    fun _ _ _ => trivial, fun _ _ => trivial⟩

/-- From the same state, everything is compared but contexts. -/
theorem correspondence_contexts :
    Correspondence (.exact false true) (fun s t => s = t ∧ True) fun _ _ => True :=
  simulation_eq.correspondence false true fun _ {_ _} hs => by rw [hs.1]

theorem contextless_eq {n m : Node} (h : (View.exact false true).Nodes n m) :
    n.contextless = m.contextless := by
  refine h.mapInfo_eq (fun _ => rfl) rfl fun {i j} hij => ?_
  obtain ⟨hscope, -⟩ := View.exact_scopes.1 hij.scope
  have hsame : i.scope.withContext .statement = j.scope.withContext .statement := by
    rw [← hscope]
    rfl
  unfold Node.Info.contextless
  rw [hij.serial rfl, hsame, hij.location rfl]

/-- Scopes that differ in the context only. -/
theorem scopes_withContext (scope : Scope) (c d : Context) :
    (View.exact false true).Scopes (scope.withContext c) (scope.withContext d) :=
  View.exact_scopes.2 ⟨rfl, fun h => nomatch h⟩

theorem onSuccess_eq {α β : Type} {N : α → α → Prop} {g : α → β} {x y : Analyze α}
    (h : Tracks (.exact false true) (fun s t => s = t ∧ True) N x y)
    (hN : ∀ {a b}, N a b → g a = g b) (s : State) :
    onSuccess g (x s) = onSuccess g (y s) := by
  have hxy := h.agree (fun {a b} => hN) s s ⟨rfl, trivial⟩
  generalize x s = r, y s = q at hxy
  cases hxy with
  | ok hab hs => rw [onSuccess, onSuccess, hab, hs.1]
  | error hs => rw [onSuccess, onSuccess, hs.1]

/-- **A form is analyzed alike in all contexts.** -/
theorem form_contextless (f : Form) (scope : Scope) (c d : Context) (s : State) :
    onSuccess Node.contextless (form f (scope.withContext c) s) =
      onSuccess Node.contextless (form f (scope.withContext d) s) :=
  onSuccess_eq (correspondence_contexts.form trivial (View.exact_forms.2 rfl)
    (scopes_withContext scope c d)) contextless_eq s

theorem forms_contextless (fs : List Form) (scope : Scope) (c d : Context) (s : State) :
    onSuccess (List.map Node.contextless) (all form fs (scope.withContext c) s) =
      onSuccess (List.map Node.contextless) (all form fs (scope.withContext d) s) := by
  refine onSuccess_eq (correspondence_contexts.forms (scopes_withContext scope c d)
    (fun _ _ => trivial) (View.exact_forms_refl fs)) (fun {ns ms} hns => ?_) s
  induction hns with
  | nil => rfl
  | cons hn _ ih => rw [List.map_cons, List.map_cons, ih, contextless_eq hn]

theorem unit_contextless (fs : List Form) (scope : Scope) (c d : Context) (s : State) :
    onSuccess (List.map Node.contextless) (unit fs (scope.withContext c) s) =
      onSuccess (List.map Node.contextless) (unit fs (scope.withContext d) s) := by
  have hforms := forms_contextless fs scope c d s
  unfold unit withdrawing
  generalize all form fs (scope.withContext c) s = r, all form fs (scope.withContext d) s = q
    at hforms
  cases r with
  | ok ns s' =>
    cases q with
    | ok ms t' => exact hforms
    | error e t' => cases hforms
  | error e s' =>
    cases q with
    | ok ms t' => cases hforms
    | error e' t' =>
      cases hforms
      rfl

end Analysis

namespace Session

/-- Warnings and workspace of a compilation follow from the outcome of the analysis. -/
theorem compileIn_congr {β : Type} {g : List Node → β} {options : Options} {forms : List Form}
    {scope scope' : Scope} {w : Workspace}
    (h : Analysis.onSuccess g (Analysis.unit forms scope (.start w.globals w.drawn)) =
      Analysis.onSuccess g (Analysis.unit forms scope' (.start w.globals w.drawn))) :
    (compileIn options forms scope w).1.map Output.warnings =
      (compileIn options forms scope' w).1.map Output.warnings ∧
    (compileIn options forms scope w).2 = (compileIn options forms scope' w).2 := by
  unfold compileIn
  generalize Analysis.unit forms scope (.start w.globals w.drawn) = r,
    Analysis.unit forms scope' (.start w.globals w.drawn) = q at h ⊢
  rcases r with ⟨ns, s⟩ | ⟨e, s⟩ <;> rcases q with ⟨ms, t⟩ | ⟨e', t⟩
  · obtain ⟨-, rfl⟩ := EStateM.Result.ok.inj h
    exact ⟨rfl, rfl⟩
  · cases h
  · cases h
  · cases h
    exact ⟨rfl, rfl⟩

/-- **The use of a value never decides whether its form is accepted.**  Compiling a form as a
statement and compiling it for its value fail with the same error, or give the same warnings; they
leave the same definitions, and draw the same symbols; and their nodes are the same but for the
contexts.  The same holds of any two scopes that differ in the context only, from any state. -/
theorem compile_contextless (options : Options) (f : Form) (w : Workspace) :
    (compile options [f] w).1.map Output.warnings =
      (compileExpression options f w).1.map Output.warnings ∧
    (compile options [f] w).2 = (compileExpression options f w).2 ∧
    Analysis.onSuccess (List.map Node.contextless)
        (Analysis.unit [f] (rootScope options) (.start w.globals w.drawn)) =
      Analysis.onSuccess (List.map Node.contextless)
        (Analysis.unit [f] ((rootScope options).withContext .result) (.start w.globals w.drawn)) ∧
    ∀ (scope : Scope) (c d : Context) (s : Analysis.State),
      Analysis.onSuccess Node.contextless (Analysis.form f (scope.withContext c) s) =
        Analysis.onSuccess Node.contextless (Analysis.form f (scope.withContext d) s) := by
  have hunit := Analysis.unit_contextless [f] (rootScope options) (rootScope options).context .result
    (.start w.globals w.drawn)
  rw [Scope.withContext_context] at hunit
  obtain ⟨hwarnings, hworkspace⟩ := @compileIn_congr _ _ options _ _ _ w hunit
  exact ⟨hwarnings, hworkspace, hunit, Analysis.form_contextless f⟩

end Session

end LarkPhp
