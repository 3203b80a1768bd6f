import LarkPhp.Proofs.Lockstep

/-!
Two runs of the same analysis.

Of the state that analysis starts from, only some is ever looked at: which names are defined, and
how many symbols were drawn.  A relation of states that every single step keeps is kept by whole
runs: from related states both runs succeed, with nodes that are alike up to their numbers, or both
stop with the same error, and the states they leave are related again (`Simulation.form`).  An
invariant of one run is the special case in which the two states are the same (`Invariant.form`).
-/

namespace LarkPhp

/-! ### Runs over the same forms -/

/-- All symbols and places are compared; contexts and numbers may be left out. -/
def View.exact (contexts numbers : Bool) : View where
  rename := id
  injective := Function.injective_id
  drawn _ := .inl rfl
  places := true
  contexts := contexts
  numbers := numbers

namespace View

variable {contexts numbers : Bool}

theorem exact_errors_refl (e : CompileError) : (exact contexts numbers).Errors e e :=
  ⟨rfl, rfl, fun _ => rfl, fun _ => rfl⟩

theorem exact_forms {f g : Form} : (exact contexts numbers).Forms f g ↔ f = g := by
  constructor
  · intro h
    exact h.eq (fun _ => rfl) rfl
  · rintro rfl
    exact forms_self fun _ _ => rfl

theorem exact_forms_refl (fs : List Form) :
    List.Forall₂ (exact contexts numbers).Forms fs fs :=
  List.forall₂_same.2 fun _ _ => exact_forms.2 rfl

/-- Scopes are related if they are the same, with the same context if that is compared. -/
theorem exact_scopes {s t : Scope} :
    (exact contexts numbers).Scopes s t ↔
      s.withContext t.context = t ∧ (contexts = true → s.context = t.context) := by
  obtain ⟨locals, shadows, context, home⟩ := s
  obtain ⟨locals', shadows', context', home'⟩ := t
  constructor
  · intro h
    obtain rfl : locals' = locals := h.locals.trans (List.map_id _)
    obtain rfl : shadows' = shadows := h.shadows.trans (List.map_id _)
    obtain rfl : home = home' := h.home
    exact ⟨rfl, h.context⟩
  · rintro ⟨h, hcontext⟩
    cases h
    exact ⟨(List.map_id _).symm, (List.map_id _).symm, hcontext, rfl⟩

theorem exact_scopes_refl (s : Scope) : (exact contexts numbers).Scopes s s :=
  exact_scopes.2 ⟨rfl, fun _ => rfl⟩

theorem exact_scopes_eq {s t : Scope} (h : (exact true numbers).Scopes s t) : s = t := by
  obtain ⟨hscope, hcontext⟩ := exact_scopes.1 h
  rw [← hscope, ← hcontext rfl, Scope.withContext_context]

/-- Where everything is compared, a node is related to itself only. -/
theorem exact_nodes_eq {n m : Node} (h : (exact true true).Nodes n m) : n = m := by
  have hsame : n.mapInfo id = m.mapInfo id := by
    refine h.mapInfo_eq (fun _ => rfl) rfl ?_
    rintro ⟨serial, scope, location⟩ ⟨serial', scope', location'⟩ hij
    obtain rfl : serial = serial' := hij.serial rfl
    obtain rfl : scope = scope' := exact_scopes_eq hij.scope
    obtain rfl : location = location' := hij.location rfl
    rfl
  rwa [Node.mapInfo_id, Node.mapInfo_id] at hsame

theorem exact_nodes_eq_all {ns ms : List Node} (h : List.Forall₂ (exact true true).Nodes ns ms) :
    ns = ms := by
  rw [← List.forall₂_eq_eq_eq]
  exact h.imp fun _ _ => exact_nodes_eq

end View

namespace Analysis

/-! ### Agreement of outcomes -/

/-- Two outcomes agree: both are successes with related values, or both are the same error, and the
states are related. -/
inductive Agrees {α β : Type} (P : State → State → Prop) (N : α → β → Prop) :
    EStateM.Result Stop State α → EStateM.Result Stop State β → Prop
  | ok {a b s t} : N a b → P s t → Agrees P N (.ok a s) (.ok b t)
  | error {e s t} : P s t → Agrees P N (.error e s) (.error e t)

/-- Two runs agree from all related states. -/
def Agree {α β : Type} (P : State → State → Prop) (N : α → β → Prop) (x : Analyze α)
    (y : Analyze β) : Prop :=
  ∀ s t, P s t → Agrees P N (x s) (y t)

/-- Nodes that are alike up to their numbers. -/
def Alike (n m : Node) : Prop := n.unnumbered = m.unnumbered

/-- Lists of nodes that are alike up to their numbers. -/
def AllAlike (ns ms : List Node) : Prop := ns.map Node.unnumbered = ms.map Node.unnumbered

/-- A relation of states that every step of analysis keeps. -/
structure Simulation (P : State → State → Prop) : Prop where
  drawn {s t} : P s t → s.drawn = t.drawn
  resolve {s t} (symbol home) : P s t → s.globals.resolve symbol home = t.globals.resolve symbol home
  isDefined {s t} (home name) : P s t → s.globals.isDefined home name = t.globals.isDefined home name
  draw {s t n} : P s t → s.drawn ≤ n → P (s.drawnTo n) (t.drawnTo n)
  number {s t} : P s t → P s.numbered t.numbered
  warn {s t} (d) : P s t → P (s.warned d) (t.warned d)
  define {s t} (home name) : P s t → P (s.defining home name) (t.defining home name)
  withdraw {s t s' t'} : P s t → P s' t' → P (s'.withdraw s.added.length) (t'.withdraw t.added.length)

section Combinators
variable {α β γ δ : Type} {P : State → State → Prop} {N : α → β → Prop} {M : γ → δ → Prop}

theorem Agree.bind {x : Analyze α} {y : Analyze β} {f : α → Analyze γ} {g : β → Analyze δ}
    (hx : Agree P N x y) (hf : ∀ a b, N a b → Agree P M (f a) (g b)) :
    Agree P M (x >>= f) (y >>= g) := by
  intro s t h
  rw [bind_run, bind_run]
  have hxy := hx s t h
  generalize x s = r, y t = q at hxy
  cases hxy with
  | ok hab h' => exact hf _ _ hab _ _ h'
  | error h' => exact .error h'

/-- Runs that match when symbols and places are compared agree. -/
theorem Tracks.agree {contexts numbers : Bool} {N' : α → β → Prop} {x : Analyze α} {y : Analyze β}
    (h : Tracks (.exact contexts numbers) P N x y) (hN : ∀ {a b}, N a b → N' a b) :
    Agree P N' x y := by
  intro s t hs
  have hxy := h s t hs
  generalize x s = r, y t = q at hxy
  cases hxy with
  | ok hab h' => exact .ok (hN hab) h'
  | failed he h' =>
    rw [he.eq rfl]
    exact .error h'
  | exhausted h' => exact .error h'

end Combinators

/-! ### Agreement of whole runs -/

namespace Simulation

variable {P : State → State → Prop} (hP : Simulation P)
include hP

/-- A macro makes the same of a call in both runs. -/
theorem expand {contexts numbers : Bool} {s t : State} (hs : P s t) (name : Symbol)
    (expander : Expander) (call : Call) :
    Outcomes (.exact contexts numbers) P
      (fun f g => True ∧ (View.exact contexts numbers).Forms f g)
      (Analysis.expand name expander call s) (Analysis.expand name expander call t) := by
  unfold Analysis.expand
  have hle : s.drawn ≤ s.drawn + (expander call s.drawn).drawn := Nat.le_add_right _ _
  have hdraw := hP.draw hs hle
  rw [← hP.drawn hs]
  dsimp only
  cases (expander call s.drawn).result with
  | ok form => exact .ok ⟨trivial, View.exact_forms.2 rfl⟩ hdraw
  | error cause => exact .failed (View.exact_errors_refl _) hdraw

theorem correspondence (contexts numbers : Bool)
    (hnodes : numbers = true → ∀ {s t}, P s t → s.nodes = t.nodes) :
    Correspondence (.exact contexts numbers) P fun _ _ => True where
  resolve h _ _ _ := hP.resolve _ _ h
  isDefined _ h _ := hP.isDefined _ _ h
  level h k := by
    rw [hP.drawn h]
    rfl
  nodes h hn := hnodes hn h
  draw {s t} n h := by
    have hdraw := hP.draw h (Nat.le_add_right s.drawn n)
    rw [← hP.drawn h]
    exact hdraw
  number h := hP.number h
  warn _ _ h hp := by
    rw [hp rfl]
    exact hP.warn _ h
  define _ h _ := hP.define _ _ h
  withdraw h h' := hP.withdraw h h'
  expand {s t scope call call'} := by
    intro _ name expander hs _ hcall _
    have hsame : call = call' := by
      obtain ⟨elements, span⟩ := call
      obtain ⟨elements', span'⟩ := call'
      cases View.exact_forms.1 hcall
      rfl
    rw [← hsame]
    exact hP.expand hs name expander call
  part _ _ := trivial
  visible _ _ := rfl
  definedName _ _ _ := rfl
  wider _ _ := trivial
  holder _ _ _ := trivial
  index _ _ := trivial
  access _ _ _ := trivial

/-- The correspondence in which the numbers of nodes are left out. -/
theorem unnumbered : Correspondence (.exact true false) P fun _ _ => True :=
  hP.correspondence true false fun h => nomatch h

omit hP in
theorem alike {n m : Node} (h : (View.exact true false).Nodes n m) : Alike n m := by
  refine h.mapInfo_eq (fun _ => rfl) rfl fun {i j} hij => ?_
  unfold Node.Info.unnumbered
  rw [View.exact_scopes_eq hij.scope, hij.location rfl]

omit hP in
/-- A visit that tracks itself agrees with itself. -/
theorem agree {visit : Visit} (h : Visit.Tracks (.exact true false) P (fun _ _ => True) visit visit)
    (f : Form) (scope : Scope) : Agree P Alike (visit f scope) (visit f scope) :=
  (h trivial (View.exact_forms.2 rfl) (View.exact_scopes_refl scope)).agree alike

theorem announce (scope : Scope) (name : String) (span : Option Span) :
    Agree P (fun _ _ => True) (Analysis.announce scope.homeName name span)
      (Analysis.announce scope.homeName name span) :=
  (hP.unnumbered.announce (f := .nil) trivial name fun _ => rfl).agree id

/-- **Two runs from related states agree.** -/
theorem form (scope : Scope) (f : Form) :
    Agree P Alike (Analysis.form f scope) (Analysis.form f scope) :=
  agree hP.unnumbered.form f scope

theorem forms (scope : Scope) (fs : List Form) :
    Agree P AllAlike (Analysis.all Analysis.form fs scope)
      (Analysis.all Analysis.form fs scope) := by
  have htracks := hP.unnumbered.forms (View.exact_scopes_refl scope) (fun _ _ => trivial)
    (View.exact_forms_refl fs)
  refine htracks.agree fun {ns ms} hns => ?_
  unfold AllAlike
  induction hns with
  | nil => rfl
  | cons hn _ ih =>
    rw [List.map_cons, List.map_cons, ih]
    exact congrArg (· :: _) (alike hn)

end Simulation

/-! ### Invariants of one run -/

/-- The state that an outcome leaves. -/
def left {α : Type} : EStateM.Result Stop State α → State
  | .ok _ s => s
  | .error _ s => s

/-- A property of states that every step of analysis keeps. -/
structure Invariant (I : State → Prop) : Prop where
  draw {s n} : I s → s.drawn ≤ n → I (s.drawnTo n)
  number {s} : I s → I s.numbered
  warn {s} (d) : I s → I (s.warned d)
  define {s} (home name) : I s → I (s.defining home name)
  withdraw {s s'} : I s → I s' → I (s'.withdraw s.added.length)

namespace Invariant

variable {I : State → Prop} (hI : Invariant I)
include hI

theorem simulation : Simulation fun s t => s = t ∧ I s where
  drawn := by
    rintro s _ ⟨rfl, -⟩
    rfl
  resolve := by
    rintro s _ _ _ ⟨rfl, -⟩
    rfl
  isDefined := by
    rintro s _ _ _ ⟨rfl, -⟩
    rfl
  draw := by
    rintro s _ n ⟨rfl, hs⟩ hn
    exact ⟨rfl, hI.draw hs hn⟩
  number := by
    rintro s _ ⟨rfl, hs⟩
    exact ⟨rfl, hI.number hs⟩
  warn := by
    rintro s _ d ⟨rfl, hs⟩
    exact ⟨rfl, hI.warn d hs⟩
  define := by
    rintro s _ home name ⟨rfl, hs⟩
    exact ⟨rfl, hI.define home name hs⟩
  withdraw := by
    rintro s _ s' _ ⟨rfl, hs⟩ ⟨rfl, hs'⟩
    exact ⟨rfl, hI.withdraw hs hs'⟩

omit hI in
theorem left_of_agree {α β : Type} {N : α → β → Prop} {x : Analyze α} {y : Analyze β}
    (h : Agree (fun s t => s = t ∧ I s) N x y) {s : State} (hs : I s) : I (left (x s)) := by
  have hxy := h s s ⟨rfl, hs⟩
  generalize x s = r, y s = q at hxy
  cases hxy with
  | ok _ h' => exact h'.2
  | error h' => exact h'.2

/-- **An invariant of the single steps holds after every run,** successful or not. -/
theorem form (f : Form) (scope : Scope) {s : State} (hs : I s) :
    I (left (Analysis.form f scope s)) :=
  left_of_agree (hI.simulation.form scope f) hs

theorem forms (fs : List Form) (scope : Scope) {s : State} (hs : I s) :
    I (left (all Analysis.form fs scope s)) :=
  left_of_agree (hI.simulation.forms scope fs) hs

end Invariant

end Analysis

end LarkPhp
