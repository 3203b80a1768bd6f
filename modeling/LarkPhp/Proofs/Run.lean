import LarkPhp.Analysis.Unit

/-!
The steps of analysis as functions on states.

Every step is described once by its outcome: what it yields, and what it leaves of the state.  A
sequence of steps succeeds if and only if each of them does, in the state that the one before it
left behind.
-/

namespace LarkPhp.Analysis

/-! ### States -/

namespace State

/-- What the next node carries. -/
def info (s : State) (scope : Scope) (span : Option Span) : Node.Info :=
  ⟨s.nodes, scope, span.map Span.start⟩

/-- The state after one more node was made. -/
def numbered (s : State) : State := { s with nodes := s.nodes + 1 }

/-- The state after `n` symbols were drawn in all. -/
def drawnTo (s : State) (n : Nat) : State := { s with drawn := n }

/-- The state after a diagnostic was queued. -/
def warned (s : State) (d : Diagnostic) : State := { s with warnings := s.warnings.add d }

/-- The state after a name was defined. -/
def defining (s : State) (home name : String) : State :=
  { s with
    globals := s.globals.define home name
    added := if !s.globals.isDefined home name then s.added ++ [(home, name)] else s.added }

/-- The state after a form was looked at that stands as a statement. -/
def noting (s : State) (form : Form) (position : Nat) (span : Option Span) : State :=
  if form.isScalar then
    s.warned (.warning .discarded ("value " ++ form.text ++ " in statement " ++ toString position
      ++ " is discarded without effect") span)
  else s

/-- The state after a name was defined, with a warning if it was defined already. -/
def announcing (s : State) (home name : String) (span : Option Span) : State :=
  if s.globals.isDefined home name then
    (s.defining home name).warned
      (.warning .redefinition ("redefining global '" ++ home ++ "/" ++ name ++ "'") span)
  else s.defining home name

section Fields
variable (s : State) (span : Option Span) (n : Nat) (f : Form) (home name : String)

@[simp] theorem globals_numbered : s.numbered.globals = s.globals := rfl
@[simp] theorem globals_defining :
    (s.defining home name).globals = s.globals.define home name := rfl

@[simp] theorem globals_noting : (s.noting f n span).globals = s.globals := by
  unfold noting
  split <;> rfl

@[simp] theorem drawn_noting : (s.noting f n span).drawn = s.drawn := by
  unfold noting
  split <;> rfl

@[simp] theorem drawn_announcing : (s.announcing home name span).drawn = s.drawn := by
  unfold announcing
  split <;> rfl

@[simp] theorem globals_announcing :
    (s.announcing home name span).globals = s.globals.define home name := by
  unfold announcing
  split <;> rfl

end Fields

end State

/-! ### Sequences of steps -/

section Sequences
variable {ε σ α β : Type}

theorem bind_run (s : σ) (x : EStateM ε σ α) (f : α → EStateM ε σ β) :
    (x >>= f) s = match x s with
      | .ok a s' => f a s'
      | .error e s' => .error e s' := by
  show EStateM.bind x f s = _
  unfold EStateM.bind
  cases x s <;> rfl

theorem bind_run_ok {s s₁ : σ} {x : EStateM ε σ α} {a : α} (h : x s = .ok a s₁)
    (f : α → EStateM ε σ β) : (x >>= f) s = f a s₁ := by
  rw [bind_run, h]

theorem bind_eq_ok {s s' : σ} {x : EStateM ε σ α} {f : α → EStateM ε σ β} {b : β} :
    (x >>= f) s = .ok b s' ↔ ∃ a s₁, x s = .ok a s₁ ∧ f a s₁ = .ok b s' := by
  rw [bind_run]
  constructor
  · intro h
    cases hx : x s with
    | ok a s₁ =>
      rw [hx] at h
      exact ⟨a, s₁, rfl, h⟩
    | error e s₁ =>
      rw [hx] at h
      cases h
  · rintro ⟨a, s₁, hx, hf⟩
    rw [hx]
    exact hf

/-- A run whose result passes a test succeeds. -/
theorem exists_ok_of_any {s : σ} {x : EStateM ε σ α} {p : α → Bool}
    (h : (x.run' s).any p = true) : ∃ a s', x s = .ok a s' ∧ p a = true := by
  unfold EStateM.run' EStateM.run at h
  cases hx : x s with
  | ok a s' =>
    rw [hx] at h
    exact ⟨a, s', rfl, h⟩
  | error e s' =>
    rw [hx] at h
    cases h

end Sequences

/-! ### Single steps -/

section Steps
variable {α : Type} (s : State)

theorem fresh_run : fresh s = .ok (.fresh (s.drawn + 1)) (s.drawnTo (s.drawn + 1)) := rfl

theorem warn_run (code : Code) (message : String) (span : Option Span) :
    warn code message span s = .ok () (s.warned (.warning code message span)) := rfl

theorem define_run (home name : String) :
    define home name s = .ok (!s.globals.isDefined home name) (s.defining home name) := rfl

theorem pure_run (a : α) : (pure a : Analyze α) s = .ok a s := rfl

theorem warnIfScalar_run (form : Form) (position : Nat) (span : Option Span) :
    warnIfScalar form position span s = .ok () (s.noting form position span) := by
  unfold warnIfScalar State.noting
  split <;> rfl

theorem announce_run (home name : String) (span : Option Span) :
    announce home name span s = .ok () (s.announcing home name span) := by
  unfold announce State.announcing
  rw [bind_run_ok (define_run s home name)]
  by_cases h : s.globals.isDefined home name = true
  · rw [if_pos h]
    simp only [h, Bool.not_true, Bool.false_eq_true, if_false]
    exact warn_run _ _ _ _
  · rw [if_neg h]
    simp only [Bool.not_eq_true] at h
    simp only [h, Bool.not_false, if_true]
    exact pure_run _ _

theorem expand_ok {s s' : State} {name : Symbol} {expander : Expander} {call : Call} {f : Form}
    (h : expand name expander call s = .ok f s') :
    s' = s.drawnTo (s.drawn + (expander call s.drawn).drawn) := by
  unfold expand at h
  dsimp only at h
  split at h
  · cases h
    rfl
  · cases h

end Steps

/-! ### Globals without expanders -/

theorem resolve_ne_expander {g : Globals} (h : g.expanders = []) (symbol : Symbol) (home : String)
    (name : Symbol) (expander : Expander) : g.resolve symbol home ≠ .expander name expander := by
  have hin : ∀ home n, g.resolveIn home n ≠ .expander name expander := by
    intro home n
    unfold Globals.resolveIn
    rw [h]
    split <;> simp
  unfold Globals.resolve
  split
  · simp
  split
  · exact hin _ _
  split
  · exact hin _ _
  · exact hin _ _

/-! ### Table entries -/

/-- Keys and values in turn. -/
def flatten (es : List (Form × Form)) : List Form := es.flatMap fun e => [e.1, e.2]

theorem entries_eq (visit : Visit) (es : List (Form × Form)) (scope : Scope) :
    entries visit es scope = all visit (flatten es) scope := by
  induction es with
  | nil => rfl
  | cons e es ih =>
    obtain ⟨k, v⟩ := e
    simp only [entries, ih, flatten, List.flatMap_cons, List.cons_append, List.nil_append, all,
      bind_assoc, pure_bind]

/-! ### Pairs of forms -/

/-- Pairs are the forms two by two. -/
theorem pairUp_eq_some_iff {forms : List Form} {pairs : List (Form × Form)} :
    pairUp forms = some pairs ↔ forms = flatten pairs := by
  constructor
  · intro h
    fun_induction pairUp forms generalizing pairs with
    | case1 =>
      cases h
      rfl
    | case2 => cases h
    | case3 a b rest ih =>
      obtain ⟨more, hmore, rfl⟩ := Option.map_eq_some_iff.1 h
      rw [ih hmore]
      rfl
  · rintro rfl
    induction pairs with
    | nil => rfl
    | cons e pairs ih =>
      rw [flatten, List.flatMap_cons] at *
      simp only [List.cons_append, List.nil_append, pairUp, ih, Option.map_some]

theorem mem_of_pairUp {forms : List Form} {pairs : List (Form × Form)}
    (h : pairUp forms = some pairs) : ∀ e ∈ pairs, e.1 ∈ forms ∧ e.2 ∈ forms := by
  intro e he
  have hboth : ∀ f ∈ [e.1, e.2], f ∈ forms := fun f hf => by
    rw [pairUp_eq_some_iff.1 h]
    exact List.mem_flatMap.2 ⟨e, he, hf⟩
  exact ⟨hboth e.1 (by simp), hboth e.2 (by simp)⟩

end LarkPhp.Analysis
