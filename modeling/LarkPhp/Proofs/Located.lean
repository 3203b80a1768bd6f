import LarkPhp.Expanders
import LarkPhp.Proofs.Transaction

/-!
Places of errors.

An error gets its place where it is found, or from the first special form around it that has one.
So no error inside a special form is without a place (`Analysis.throws_special`), and what can lose
the place of an error is a call or a symbol without a place outside all special forms.  Macros that
yield none lose no place: that is `Analysis.located_of_placed`.
-/

namespace LarkPhp

/-! ### Errors with places -/

namespace CompileError

/-- The error has a place. -/
def Located (e : CompileError) : Prop := e.start.isSome = true ∧ e.stop.isSome = true

/-- The error starts somewhere if and only if it stops somewhere. -/
def Whole (e : CompileError) : Prop := e.start.isSome = e.stop.isSome

theorem Whole.locate {e : CompileError} (h : e.Whole) (span : Option Span) :
    (e.locate span).Whole := by
  unfold CompileError.locate
  split
  · rfl
  · exact h

theorem Whole.located {e : CompileError} (h : e.Whole) {span : Option Span}
    (hspan : span.isSome = true) : (e.locate span).Located := by
  obtain ⟨p, rfl⟩ := Option.isSome_iff_exists.1 hspan
  unfold Whole at h
  unfold CompileError.locate
  cases hstart : e.start with
  | none => exact ⟨rfl, rfl⟩
  | some l =>
    rw [hstart] at h
    exact ⟨by rw [hstart]; rfl, h.symm⟩

theorem whole_raise (fault : Fault) (span : Option Span) : ((ofFault fault).locate span).Whole :=
  Whole.locate (e := ofFault fault) rfl span

theorem located_raise (fault : Fault) {span : Option Span} (h : span.isSome = true) :
    ((ofFault fault).locate span).Located :=
  Whole.located (e := ofFault fault) rfl h

end CompileError

namespace Analysis

open CompileError (Whole Located)

/-! ### What runs stop with -/

/-- A run keeps an invariant of states, and stops only with such errors. -/
structure Throws {ε σ α : Type} (I : σ → Prop) (Q : ε → Prop) (x : EStateM ε σ α) : Prop where
  keeps {s a s'} : I s → x s = .ok a s' → I s'
  error {s e s'} : I s → x s = .error e s' → Q e

/-- Errors of the program are such ones. -/
def Stop.Of (Q : CompileError → Prop) : Stop → Prop
  | .failed e => Q e
  | .exhausted => True

section Combinators
variable {ε σ α β : Type} {I : σ → Prop} {Q : ε → Prop} {x : EStateM ε σ α}
  {f : α → EStateM ε σ β}

/-- What comes after a run needs to be looked at for the values only that the run can yield. -/
theorem Throws.bind_of_ok (hx : Throws I Q x)
    (hf : ∀ {s a s'}, I s → x s = .ok a s' → Throws I Q (f a)) : Throws I Q (x >>= f) := by
  constructor
  · intro s b s' hs h
    obtain ⟨a, s₁, ha, hb⟩ := bind_eq_ok.1 h
    exact (hf hs ha).keeps (hx.keeps hs ha) hb
  · intro s e s' hs h
    rw [bind_run] at h
    cases hrun : x s with
    | ok a s₁ =>
      rw [hrun] at h
      exact (hf hs hrun).error (hx.keeps hs hrun) h
    | error e₁ s₁ =>
      rw [hrun] at h
      cases h
      exact hx.error hs hrun

theorem Throws.bind (hx : Throws I Q x) (hf : ∀ a, Throws I Q (f a)) : Throws I Q (x >>= f) :=
  hx.bind_of_ok fun {_ a _} _ _ => hf a

theorem throws_pure (a : α) : Throws I Q (pure a : EStateM ε σ α) := by
  constructor
  · intro s b s' hs h
    cases h
    exact hs
  · intro s e s' _ h
    cases h

theorem throws_get : Throws I Q (get : EStateM ε σ σ) := by
  constructor
  · intro s b s' hs h
    cases h
    exact hs
  · intro s e s' _ h
    cases h

theorem throws_throw {e : ε} (h : Q e) : Throws I Q (throw e : EStateM ε σ α) := by
  constructor
  · intro s a s' _ hrun
    cases hrun
  · intro s e s' _ hrun
    cases hrun
    exact h

/-- Weaker things can be said of errors of the program. -/
theorem Throws.imp {I : State → Prop} {Q Q' : CompileError → Prop} {x : Analyze α}
    (h : Throws I (Stop.Of Q) x) (hQ : ∀ e, Q e → Q' e) : Throws I (Stop.Of Q') x := by
  refine ⟨h.keeps, fun {s e s'} hs hx => ?_⟩
  have he := h.error hs hx
  cases e with
  | failed e => exact hQ e he
  | exhausted => trivial

end Combinators

/-! ### Patterns -/

section Patterns
open Pattern

theorem throws_hold (value : Form) :
    Throws (fun _ => True) Whole (hold value) := by
  constructor
  · exact fun _ _ => trivial
  · intro s e s' _ h
    cases h

theorem throws_refuse {α : Type} (fault : Fault) (span : Option Span) :
    Throws (fun _ => True) Whole (refuse fault span : Binder α) :=
  throws_throw (CompileError.whole_raise fault span)

mutual
theorem throws_bind : ∀ p value : Form,
    Throws (fun _ => True) Whole (Pattern.bind p value)
  | .symbol x span, value => by
    unfold Pattern.bind
    split
    · exact throws_refuse _ _
    · exact ⟨fun _ _ => trivial, fun _ h => nomatch h⟩
  | .tuple d ps span, value => by
    unfold Pattern.bind
    exact (throws_hold value).bind fun holder => throws_bindElements ps holder 0 span
  | .table es span, value => by
    unfold Pattern.bind
    exact (throws_hold value).bind fun holder => throws_bindEntries es holder
  | .nil, _ | .bool _, _ | .int _, _ | .float _, _ | .str _, _ | .keyword _, _ | .set _ _, _
  | .array _ _, _ => by
    unfold Pattern.bind
    exact throws_refuse _ _

theorem throws_bindElements : ∀ (ps : List Form) (holder : Symbol) (index : Nat)
    (span : Option Span),
    Throws (fun _ => True) Whole (bindElements ps holder index span)
  | [], _, _, _ => throws_pure ()
  | p :: ps, holder, index, span => by
    unfold bindElements
    split
    · exact throws_refuse _ _
    · exact (throws_bind p _).bind fun _ => throws_bindElements ps holder (index + 1) span

theorem throws_bindEntries : ∀ (es : List (Form × Form)) (holder : Symbol),
    Throws (fun _ => True) Whole (bindEntries es holder)
  | [], _ => throws_pure ()
  | (key, p) :: es, holder => by
    unfold bindEntries
    exact (throws_bind p _).bind fun _ => throws_bindEntries es holder
end

theorem throws_bindAll (pairs : List (Form × Form)) :
    Throws (fun _ => True) Whole (bindAll pairs) := by
  induction pairs with
  | nil => exact throws_pure ()
  | cons pair pairs ih => exact (throws_bind pair.1 pair.2).bind fun _ => ih

end Patterns

/-! ### Special forms -/

section Steps
variable {I : State → Prop} (hI : Invariant I) {Q : Stop → Prop}

/-- Whether definitions are withdrawn does not matter to the error. -/
theorem throws_transaction {α : Type} {x : Analyze α} (h : Throws I Q x) :
    Throws I Q (transaction x) := by
  unfold transaction withdrawing
  constructor
  · intro s a s' hs hrun
    split at hrun
    · cases hrun
    · exact h.keeps hs hrun
  · intro s e s' hs hrun
    split at hrun
    · next hx =>
      cases hrun
      exact h.error hs hx
    · exact h.error hs hrun

theorem throws_fail {α : Type} (hQ : ∀ e, Whole e → Q (.failed e)) (fault : Fault)
    (span : Option Span) : Throws I Q (fail fault span : Analyze α) :=
  throws_throw (hQ _ (CompileError.whole_raise fault span))

include hI

theorem throws_push (make : Node.Info → Node) (scope : Scope) (span : Option Span) :
    Throws I Q (push make scope span) := by
  constructor
  · intro s n s' hs h
    cases h
    exact hI.number hs
  · intro s e s' _ h
    cases h

theorem throws_fresh : Throws I Q fresh := by
  constructor
  · intro s x s' hs h
    cases h
    exact hI.draw hs (Nat.le_succ _)
  · intro s e s' _ h
    cases h

theorem throws_warnIfScalar (f : Form) (position : Nat) (span : Option Span) :
    Throws I Q (warnIfScalar f position span) := by
  unfold warnIfScalar
  split
  · constructor
    · intro s n s' hs h
      cases h
      exact hI.warn _ hs
    · intro s e s' _ h
      cases h
  · exact throws_pure ()

theorem throws_announce (home name : String) (span : Option Span) :
    Throws I Q (announce home name span) := by
  constructor
  · intro s a s' hs h
    rw [announce_run] at h
    cases h
    unfold State.announcing
    split
    · exact hI.warn _ (hI.define home name hs)
    · exact hI.define home name hs
  · intro s e s' _ h
    rw [announce_run] at h
    cases h

theorem throws_bindName (x : Symbol) (scope : Scope) : Throws I Q (bindName x scope) := by
  unfold bindName
  split
  · exact (throws_fresh hI).bind fun _ => throws_pure _
  · exact throws_pure _

theorem throws_destructure (hQ : ∀ e, Whole e → Q (.failed e)) (pairs : List (Form × Form)) :
    Throws I Q (destructure pairs) := by
  constructor
  · intro s flat s' hs h
    obtain ⟨b, hb, rfl, rfl⟩ := Rules.destructure_sound h
    exact hI.draw hs (Pattern.expands_bindAll hb).1
  · intro s e s' _ h
    unfold destructure at h
    split at h
    · cases h
    · next e b hb =>
      cases h
      exact hQ _ ((throws_bindAll pairs).error trivial hb)

theorem throws_reference {x : Symbol} {span : Option Span}
    (hraise : ∀ fault, Q (.failed ((CompileError.ofFault fault).locate span))) (scope : Scope) :
    Throws I Q (reference x span scope) := by
  have hpush := fun make => throws_push hI (Q := Q) make scope span
  unfold reference
  split
  · exact hpush _
  split
  · exact hpush _
  split
  · exact hpush _
  refine throws_get.bind fun s => ?_
  split
  · exact hpush _
  · exact throws_throw (hraise _)
  · exact throws_throw (hraise _)

theorem throws_expand {name : Symbol} {expander : Expander} {call : Call}
    (hraise : ∀ cause,
      Q (.failed (((CompileError.ofFault (.expansion name)).locate call.span).causedBy cause))) :
    Throws I Q (expand name expander call) := by
  unfold expand
  constructor
  · intro s form s' hs h
    dsimp only at h
    split at h
    · cases h
      exact hI.draw hs (Nat.le_add_right _ _)
    · cases h
  · intro s e s' _ h
    dsimp only at h
    split at h
    · cases h
    · cases h
      exact hraise _

end Steps

section Handlers
variable {I : State → Prop} (hI : Invariant I) {Q : Stop → Prop} {visit : Visit}
  {scope : Scope}

theorem throws_all {fs : List Form} (hv : ∀ f ∈ fs, Throws I Q (visit f scope)) :
    Throws I Q (all visit fs scope) := by
  induction fs with
  | nil => exact throws_pure []
  | cons f fs ih =>
    obtain ⟨hf, hfs⟩ := List.forall_mem_cons.1 hv
    exact hf.bind fun _ => (ih hfs).bind fun _ => throws_pure _

include hI

theorem throws_statements (hv : ∀ f scope, Throws I Q (visit f scope)) (span : Option Span)
    (fs : List Form) (position : Nat) (scope : Scope) :
    Throws I Q (statements visit span fs position scope) := by
  induction fs generalizing position with
  | nil => exact throws_pure []
  | cons f fs ih =>
    refine (throws_warnIfScalar hI f position span).bind fun _ => ?_
    exact (hv f scope).bind fun _ => (ih (position + 1)).bind fun _ => throws_pure _

theorem throws_block (hv : ∀ f scope, Throws I Q (visit f scope)) (forms : List Form)
    (scope : Scope) (span : Option Span) : Throws I Q (block visit forms scope span) := by
  unfold block
  split
  · exact (throws_push hI _ _ _).bind fun _ => throws_push hI _ _ _
  · refine (throws_statements hI hv span _ 1 _).bind fun stmts => ?_
    exact (hv _ _).bind fun _ => throws_push hI _ _ _

theorem throws_bindValues (hv : ∀ f scope, Throws I Q (visit f scope))
    (flat : List (Symbol × Form)) (scope : Scope) : Throws I Q (bindValues visit flat scope) := by
  induction flat generalizing scope with
  | nil => exact throws_pure _
  | cons e flat ih =>
    refine (hv _ _).bind fun _ => (throws_bindName hI e.1 scope).bind fun a => ?_
    exact (ih a.2).bind fun _ => throws_pure _

theorem throws_deferPattern (f : Form) : Throws I Q (deferPattern f) :=
  (throws_fresh hI).bind fun _ => throws_pure _

theorem throws_binder (f : Form) : Throws I Q (binder f) := by
  unfold binder
  split
  · split
    · exact throws_deferPattern hI _
    · exact throws_pure _
  · exact throws_deferPattern hI _

theorem throws_binders (forms : List Form) : Throws I Q (binders forms) := by
  induction forms with
  | nil => exact throws_pure _
  | cons f fs ih => exact (throws_binder hI f).bind fun _ => ih.bind fun _ => throws_pure _

theorem throws_parameters (hQ : ∀ e, Whole e → Q (.failed e)) (forms : List Form)
    (span : Option Span) : Throws I Q (parameters forms span) := by
  refine (throws_binders hI _).bind fun ⟨names, patterns⟩ => ?_
  dsimp only
  split
  · exact throws_pure _
  · exact (throws_binder hI _).bind fun _ => throws_pure _
  · exact throws_fail hQ _ _

variable (hv : ∀ f scope, Throws I (Stop.Of Whole) (visit f scope))
include hv

theorem throws_bindings (pairs : List (Form × Form)) (body : List Form) (scope : Scope)
    (span : Option Span) : Throws I (Stop.Of Whole) (bindings visit pairs body scope span) := by
  refine (throws_destructure hI (fun _ => id) pairs).bind fun flat => ?_
  refine (throws_bindValues hI hv flat scope).bind fun a => ?_
  exact (throws_block hI hv body _ span).bind fun _ => throws_push hI _ _ _

theorem throws_patternBody (pairs : List (Form × Form)) (body : List Form) (scope : Scope)
    (span : Option Span) : Throws I (Stop.Of Whole) (patternBody visit pairs body scope span) := by
  unfold patternBody
  split
  · exact throws_block hI hv body scope span
  · exact throws_bindings hI hv pairs body scope span

theorem throws_letForm (head : Form) (body : List Form) (scope : Scope) (span : Option Span) :
    Throws I (Stop.Of Whole) (letForm visit head body scope span) := by
  unfold letForm
  split
  · split
    · exact throws_bindings hI hv _ body scope span
    · exact throws_fail (fun _ => id) _ _
  · exact throws_fail (fun _ => id) _ _

theorem throws_function (head : Form) (body : List Form) (scope : Scope) (span : Option Span) :
    Throws I (Stop.Of Whole) (function visit head body scope span) := by
  unfold function
  split
  · refine (throws_parameters hI (fun _ => id) _ span).bind fun ps => ?_
    exact (throws_patternBody hI hv _ body _ span).bind fun _ => throws_push hI _ _ _
  · exact throws_fail (fun _ => id) _ _

theorem throws_loopOver (value : Symbol) (key : Option Symbol) (patterns : List (Form × Form))
    (collection : Form) (body : List Form) (scope : Scope) (span : Option Span) :
    Throws I (Stop.Of Whole)
      (loopOver visit value key patterns collection body scope span) := by
  unfold loopOver
  refine (hv _ _).bind fun _ => (throws_bindName hI value scope).bind fun a => ?_
  cases key with
  | none => exact (throws_patternBody hI hv _ body _ span).bind fun _ => throws_push hI _ _ _
  | some key =>
    refine (throws_bindName hI key a.2).bind fun b => ?_
    exact (throws_patternBody hI hv _ body _ span).bind fun _ => throws_push hI _ _ _

theorem throws_loop (head : Form) (body : List Form) (scope : Scope) (span : Option Span) :
    Throws I (Stop.Of Whole) (loop visit head body scope span) := by
  unfold loop
  split
  · exact (throws_binder hI _).bind fun _ => throws_loopOver hI hv _ _ _ _ body scope span
  · refine (throws_binder hI _).bind fun _ => (throws_binder hI _).bind fun _ => ?_
    exact throws_loopOver hI hv _ _ _ _ body scope span
  · exact throws_fail (fun _ => id) _ _
  · exact throws_fail (fun _ => id) _ _

theorem throws_branch (test yes : Form) (no : Option Form) (scope : Scope) (span : Option Span) :
    Throws I (Stop.Of Whole) (branch visit test yes no scope span) := by
  refine (hv _ _).bind fun _ => (hv _ _).bind fun _ => ?_
  have hno : Throws I (Stop.Of Whole) (optional visit no scope span) := by
    unfold optional
    split
    · exact hv _ _
    · exact throws_push hI _ _ _
  exact hno.bind fun _ => throws_push hI _ _ _

theorem throws_definition (target value : Form) (scope : Scope) (span : Option Span) :
    Throws I (Stop.Of Whole) (definition visit target value scope span) := by
  unfold definition
  split
  · split
    · refine Throws.bind (throws_transaction ?_) fun _ => throws_push hI _ _ _
      exact (throws_announce hI _ _ span).bind fun _ => hv _ _
    · exact throws_fail (fun _ => id) _ _
  · exact throws_fail (fun _ => id) _ _

theorem throws_member (static : Bool) (object part : Form) (scope : Scope) (span : Option Span) :
    Throws I (Stop.Of Whole) (member visit static object part scope span) := by
  have htarget : Throws I (Stop.Of Whole) (target visit object static scope.operand) := by
    unfold target
    split
    · exact throws_push hI _ _ _
    · exact hv _ _
  refine htarget.bind fun _ => ?_
  split
  · refine (throws_all fun f _ => hv f _).bind fun _ => ?_
    exact (throws_push hI _ _ _).bind fun _ => throws_push hI _ _ _
  · exact throws_fail (fun _ => id) _ _
  · exact (throws_push hI _ _ _).bind fun _ => throws_push hI _ _ _
  · exact throws_fail (fun _ => id) _ _

/-- A special form stops only with errors that have a place from end to end, or none. -/
theorem throws_special (form : SpecialForm) (args : List Form) (scope : Scope)
    (span : Option Span) : Throws I (Stop.Of Whole) (special visit form args scope span) := by
  unfold special
  split
  · exact throws_push hI _ _ _
  · exact throws_block hI hv _ scope span
  · exact throws_branch hI hv _ _ _ scope span
  · exact throws_branch hI hv _ _ _ scope span
  · exact throws_letForm hI hv _ _ scope span
  · exact throws_function hI hv _ _ scope span
  · exact throws_definition hI hv _ _ scope span
  · exact throws_loop hI hv _ _ scope span
  · exact (hv _ _).bind fun _ => throws_push hI _ _ _
  · refine (hv _ _).bind fun _ => (throws_all fun f _ => hv f _).bind fun _ => ?_
    exact throws_push hI _ _ _
  · exact throws_member hI hv _ _ _ scope span
  · exact throws_member hI hv _ _ _ scope span
  · exact (hv _ _).bind fun _ => (hv _ _).bind fun _ => throws_push hI _ _ _
  · refine (hv _ _).bind fun _ => (hv _ _).bind fun _ => (hv _ _).bind fun _ => ?_
    exact throws_push hI _ _ _
  · exact throws_fail (fun _ => id) _ _

end Handlers

end Analysis

/-! ### Forms with places -/

namespace Form

/-- Every symbol and every collection in the form has a place. -/
inductive Placed : Form → Prop
  | scalar {f} : f.isScalar = true → Placed f
  | placed {f} : f.span.isSome = true → (∀ g ∈ f.parts, Placed g) → Placed f

/-- Whether the form is a collection that stands for itself. -/
def isData : Form → Bool
  | .tuple .bracket .. | .table .. | .set .. | .array .. => true
  | _ => false

/-- Whether the form is a special form. -/
def isSpecial : Form → Bool
  | .tuple .paren (head :: _) _ => (head.symbol?.bind SpecialForm.ofSymbol?).isSome
  | _ => false

/-- Every symbol and every call in the form has a place, except inside of special forms that have
one. -/
inductive Anchored : Form → Prop
  | scalar {f} : f.isScalar = true → Anchored f
  | special {head r form args span} :
    SpecialForm.ofSymbol? head = some form → span.isSome = true →
    Anchored (.tuple .paren (.symbol head r :: args) span)
  | parts {f} :
    f.span.isSome = true ∨ f.isData = true → (∀ g ∈ f.parts, Anchored g) → Anchored f

/-- The form at a place, unless it has one of its own. -/
def placedAt (span : Option Span) (f : Form) : Form :=
  if f.span.isNone then f.moveTo span else f

theorem Placed.anchored {f : Form} (h : f.Placed) : f.Anchored := by
  induction h with
  | scalar hf => exact .scalar hf
  | placed hspan _ ih => exact .parts (.inl hspan) ih

theorem parts_moveTo (f : Form) (span : Option Span) : (f.moveTo span).parts = f.parts := by
  cases f <;> rfl

theorem moveTo_of_isScalar {f : Form} (h : f.isScalar = true) (span : Option Span) :
    f.moveTo span = f := by
  cases f <;> first | rfl | cases h

theorem span_moveTo {f : Form} (h : f.isScalar = false) (span : Option Span) :
    (f.moveTo span).span = span := by
  cases f <;> first | rfl | cases h

/-- A place of its own does no harm to a form. -/
theorem Anchored.moveTo {f : Form} (h : f.Anchored) {span : Option Span}
    (hspan : span.isSome = true) : (f.moveTo span).Anchored := by
  cases hscalar : f.isScalar with
  | true =>
    rw [moveTo_of_isScalar hscalar]
    exact h
  | false =>
    cases h with
    | scalar hf => exact absurd hf (Bool.eq_false_iff.1 hscalar)
    | special hform _ => exact .special hform hspan
    | parts _ hparts =>
      refine .parts (.inl ?_) ?_
      · rwa [span_moveTo hscalar]
      · rwa [parts_moveTo]

theorem Anchored.placedAt {f : Form} (h : f.Anchored) {span : Option Span}
    (hspan : span.isSome = true) : (f.placedAt span).Anchored := by
  unfold Form.placedAt
  split
  · exact h.moveTo hspan
  · exact h

/-- A call has a place, and so has all in it unless it is a special form. -/
theorem Anchored.call {xs : List Form} {span : Option Span}
    (h : (tuple .paren xs span).Anchored) :
    span.isSome = true ∧ ((tuple .paren xs span).isSpecial = false → ∀ g ∈ xs, g.Anchored) := by
  cases h with
  | scalar hf => cases hf
  | @special head r form args span hform hspan =>
    refine ⟨hspan, fun hplain => ?_⟩
    have hspecial : (tuple .paren (.symbol head r :: args) span).isSpecial = true := by
      rw [isSpecial, symbol?, Option.bind_some, hform]
      rfl
    rw [hspecial] at hplain
    cases hplain
  | parts hspan hparts =>
    rcases hspan with hspan | hdata
    · exact ⟨hspan, fun _ => hparts⟩
    · cases hdata

/-- What stands in data is analyzed where it stands. -/
theorem Anchored.data {f : Form} (h : f.Anchored) (hdata : f.isData = true) :
    ∀ g ∈ f.parts, g.Anchored := by
  cases h with
  | scalar hf =>
    have hno : f.parts = [] := by cases f <;> first | rfl | cases hf
    simp [hno]
  | special => cases hdata
  | parts _ hparts => exact hparts

/-- A special form without a place gets the place of the call. -/
theorem anchored_special {head : Symbol} {form : SpecialForm} (r : Option Span)
    (args : List Form) {span : Option Span} (hform : SpecialForm.ofSymbol? head = some form)
    (hspan : span.isSome = true) :
    ((Form.parens (.symbol head r :: args)).placedAt span).Anchored :=
  .special hform hspan

end Form

/-- Calls in which nothing is without a place are turned into such forms. -/
def Expander.Anchors (expander : Expander) : Prop :=
  ∀ {call : Call} {drawn f}, call.span.isSome = true → (∀ g ∈ call.elements, g.Anchored) →
    (expander call drawn).result = .ok f → (f.placedAt call.span).Anchored

namespace Expander

theorem anchored_argument {call : Call} (h : ∀ g ∈ call.elements, g.Anchored) (n : Nat) :
    (argument call n).Anchored := by
  unfold argument
  cases hn : call.elements[n]? with
  | none => exact .scalar rfl
  | some g => exact h g (List.mem_of_getElem? hn)

/-- Of the ready-made expanders those anchor that are made from their arguments. -/
theorem anchors_of_mem {expander : Expander}
    (h : expander ∈ [whenTrue, unlessTrue, identity, splice, twice, hygienic]) :
    expander.Anchors := by
  have hif : SpecialForm.ofSymbol? (.plain "if") = some .branch := by decide
  have hdo : SpecialForm.ofSymbol? (.plain "do") = some .block := by decide
  have hlet : SpecialForm.ofSymbol? (.plain "let") = some .bindings := by decide
  intro call drawn f hspan helements hresult
  simp only [List.mem_cons, List.not_mem_nil, or_false] at h
  rcases h with rfl | rfl | rfl | rfl | rfl | rfl
  · unfold whenTrue at hresult
    split at hresult
    · cases hresult
      exact Form.anchored_special none _ hif hspan
    · cases hresult
  · unfold unlessTrue at hresult
    split at hresult
    · cases hresult
      exact Form.anchored_special none _ hif hspan
    · cases hresult
  · cases hresult
    exact (anchored_argument helements 1).placedAt hspan
  · cases hresult
    exact .parts (.inl hspan) fun g hg => helements g (List.mem_of_mem_tail hg)
  · cases hresult
    exact Form.anchored_special none _ hdo hspan
  · cases hresult
    exact Form.anchored_special none _ hlet hspan

end Expander

namespace Analysis

open CompileError (Whole Located)

/-! ### All forms -/

/-- An error that a form may stop with where these macros are registered. -/
structure ErrorOf (macros : List ((String × String) × Expander)) (f : Form) (e : CompileError) :
    Prop where
  whole : e.Whole
  located : (f.isSpecial = true ∨ ∀ m ∈ macros, m.2.Anchors) → f.Anchored → e.Located

/-- The macros are the registered ones. -/
def Registers (macros : List ((String × String) × Expander)) (s : State) : Prop :=
  s.globals.expanders = macros

theorem invariant_registers (macros : List ((String × String) × Expander)) :
    Invariant (Registers macros) where
  draw h _ := h
  number h := h
  warn _ h := h
  define _ _ h := h
  withdraw _ h := (Globals.expanders_undefineAll _ _).trans h

section Forms
variable {macros : List ((String × String) × Expander)} {reenter visit : Visit} {f g : Form}
  {scope : Scope} {span : Option Span} {e : CompileError}

theorem errorOf_raise (hspan : f.Anchored → span.isSome = true) (fault : Fault) :
    ErrorOf macros f ((CompileError.ofFault fault).locate span) :=
  ⟨CompileError.whole_raise fault span, fun _ hf => CompileError.located_raise fault (hspan hf)⟩

theorem ErrorOf.causedBy (h : ErrorOf macros f e) (cause : CompileError) :
    ErrorOf macros f (e.causedBy cause) :=
  ⟨h.whole, h.located⟩

/-- An error of a form that is analyzed in the place of a plain one, or in it. -/
theorem ErrorOf.outside (h : ErrorOf macros g e) (hplain : f.isSpecial = false)
    (hg : (∀ m ∈ macros, m.2.Anchors) → f.Anchored → g.Anchored) : ErrorOf macros f e := by
  refine ⟨h.whole, fun hfree hf => ?_⟩
  have hmacros := hfree.resolve_left (Bool.eq_false_iff.1 hplain)
  exact h.located (.inr hmacros) (hg hmacros hf)

theorem errorOf_symbol (x : Symbol) (span : Option Span) (fault : Fault) :
    ErrorOf macros (.symbol x span) ((CompileError.ofFault fault).locate span) := by
  refine errorOf_raise (fun h => ?_) fault
  cases h with
  | scalar hf => cases hf
  | parts hspan _ => exact hspan.resolve_right (by simp [Form.isData])

theorem expand_eq_ok {name : Symbol} {expander : Expander} {call : Call} {s s' : State}
    (h : expand name expander call s = .ok f s') :
    ∃ yielded, (expander call s.drawn).result = .ok yielded ∧ f = yielded.placedAt call.span := by
  unfold expand at h
  dsimp only at h
  split at h
  · next yielded hyielded =>
    cases h
    exact ⟨yielded, hyielded, rfl⟩
  · cases h

theorem throws_application {head : Form} {args : List Form}
    (hraise : ∀ fault, ErrorOf macros f ((CompileError.ofFault fault).locate span))
    (hparts : ∀ g ∈ head :: args,
      Throws (Registers macros) (Stop.Of (ErrorOf macros f)) (visit g scope.operand)) :
    Throws (Registers macros) (Stop.Of (ErrorOf macros f))
      (application visit head args scope span) := by
  obtain ⟨hhead, hargs⟩ := List.forall_mem_cons.1 hparts
  unfold application
  split
  · exact throws_throw (hraise _)
  split
  · exact throws_throw (hraise _)
  · refine hhead.bind fun _ => (throws_all hargs).bind fun _ => ?_
    exact throws_push (invariant_registers macros) _ _ _

theorem throws_located {α : Type} {x : Analyze α} (h : Throws (Registers macros) (Stop.Of Whole) x)
    (hspan : f.Anchored → span.isSome = true) :
    Throws (Registers macros) (Stop.Of (ErrorOf macros f)) (located span x) := by
  unfold Analysis.located
  constructor
  · intro s a s' hs hrun
    split at hrun
    · cases hrun
    · exact h.keeps hs hrun
  · intro s e s' hs hrun
    split at hrun
    · next e₁ s₁ hx =>
      cases hrun
      have hwhole : e₁.Whole := h.error hs hx
      exact ⟨hwhole.locate span, fun _ hf => hwhole.located (hspan hf)⟩
    · next hfailed =>
      cases e with
      | failed e => exact absurd hrun (hfailed e s')
      | exhausted => trivial

theorem throws_exhausted {I : State → Prop} {Q : CompileError → Prop} :
    Throws I (Stop.Of Q) (exhausted f scope) :=
  throws_throw trivial

variable (hre : ∀ f scope, Throws (Registers macros) (Stop.Of (ErrorOf macros f)) (reenter f scope))
  (hv : ∀ f scope, Throws (Registers macros) (Stop.Of (ErrorOf macros f)) (visit f scope))

include hv in
/-- The errors of what is analyzed inside of a plain form. -/
theorem throws_inside {fs : List Form} (hplain : f.isSpecial = false)
    (hfs : f.Anchored → ∀ g ∈ fs, g.Anchored) :
    ∀ g ∈ fs, Throws (Registers macros) (Stop.Of (ErrorOf macros f)) (visit g scope) :=
  fun g hg => (hv g scope).imp fun _ he => he.outside hplain fun _ hf => hfs hf g hg

include hre hv

theorem throws_parens (xs : List Form) (span : Option Span) (scope : Scope) :
    Throws (Registers macros) (Stop.Of (ErrorOf macros (.tuple .paren xs span)))
      (parens reenter visit ⟨xs, span⟩ scope) := by
  have hI := invariant_registers macros
  have hspan : (Form.tuple .paren xs span).Anchored → span.isSome = true := fun h => h.call.1
  have hraise : ∀ fault, ErrorOf macros (.tuple .paren xs span)
      ((CompileError.ofFault fault).locate span) := errorOf_raise hspan
  unfold parens
  cases xs with
  | nil => exact throws_push hI _ _ _
  | cons head args =>
    dsimp only
    split
    · next form _ =>
      have hwhole : ∀ f scope, Throws (Registers macros) (Stop.Of Whole) (visit f scope) :=
        fun f scope => (hv f scope).imp fun _ => ErrorOf.whole
      exact throws_located (throws_special hI hwhole form args scope span) hspan
    · next hhead =>
      have hplain : (Form.tuple .paren (head :: args) span).isSpecial = false := by
        rw [Form.isSpecial, hhead]
        rfl
      refine throws_get.bind_of_ok fun {s a s'} hs hget => ?_
      cases hget
      split
      · next name expander hmacro =>
        obtain ⟨x, r, rfl, -, hresolve⟩ := Rules.macroOf?_eq_some hmacro
        obtain ⟨key, hmem⟩ := Globals.exists_of_resolve hresolve
        rw [hs] at hmem
        refine (throws_expand hI fun cause => (hraise _).causedBy cause).bind_of_ok fun {s₁ form s₂} _ hform => ?_
        obtain ⟨yielded, hyielded, rfl⟩ := expand_eq_ok hform
        refine (hre _ scope).imp fun e he => he.outside hplain fun hmacros h => ?_
        exact hmacros _ hmem (hspan h) (h.call.2 hplain) hyielded
      · exact throws_application hraise (throws_inside hv hplain fun h => h.call.2 hplain)

theorem throws_step (f : Form) (scope : Scope) :
    Throws (Registers macros) (Stop.Of (ErrorOf macros f)) (step reenter visit f scope) := by
  have hI := invariant_registers macros
  have hdata : f.isData = true →
      Throws (Registers macros) (Stop.Of (ErrorOf macros f)) (all visit f.parts scope.operand) := by
    intro h
    have hplain : f.isSpecial = false := by
      cases f with
      | tuple d => cases d <;> first | rfl | cases h
      | _ => rfl
    exact throws_all (throws_inside hv hplain fun hf => hf.data h)
  unfold step
  split
  · exact throws_reference hI (errorOf_symbol _ _) scope
  · exact throws_parens hre hv _ _ scope
  · exact (hdata rfl).bind fun _ => throws_push hI _ _ _
  · rw [entries_eq]
    exact (hdata rfl).bind fun _ => throws_push hI _ _ _
  · exact (hdata rfl).bind fun _ => throws_push hI _ _ _
  · exact (hdata rfl).bind fun _ => throws_push hI _ _ _
  · exact throws_push hI _ _ _

omit hv in
theorem throws_toDepth (height : Nat) (f : Form) (scope : Scope) :
    Throws (Registers macros) (Stop.Of (ErrorOf macros f)) (toDepth reenter height f scope) := by
  induction height generalizing f scope with
  | zero => exact throws_exhausted
  | succ height ih => exact throws_step hre ih f scope

omit hre hv in
theorem throws_withExpansions (expansions : Nat) (f : Form) (scope : Scope) :
    Throws (Registers macros) (Stop.Of (ErrorOf macros f)) (withExpansions expansions f scope) := by
  induction expansions generalizing f scope with
  | zero => exact throws_toDepth (fun _ _ => throws_exhausted) f.height f scope
  | succ n ih => exact throws_toDepth ih f.height f scope

end Forms

/-- **Errors are located, unless a macro leaves something outside of special forms without a
place.** -/
theorem located_of_placed {f : Form} {scope : Scope} {s s' : State} {e : CompileError}
    (hplaced : f.Placed) (hfail : form f scope s = .error (.failed e) s')
    (hfree : f.isSpecial = true ∨ ∀ m ∈ s.globals.expanders, m.2.Anchors) : e.Located := by
  have herror : ErrorOf s.globals.expanders f e :=
    (throws_withExpansions expansionLimit f scope).error (rfl : Registers _ s) hfail
  exact herror.located hfree hplaced.anchored

/-- Whether a run stopped with an error of the program that passes a test. -/
def stoppedWith {α : Type} (p : CompileError → Bool) : EStateM.Result Stop State α → Bool
  | .error (.failed e) _ => p e
  | _ => false

theorem exists_error_of_stoppedWith {α : Type} {p : CompileError → Bool}
    {r : EStateM.Result Stop State α} (h : stoppedWith p r = true) :
    ∃ e s', r = .error (.failed e) s' ∧ p e = true := by
  unfold stoppedWith at h
  split at h
  · next e s' => exact ⟨e, s', rfl, h⟩
  · cases h

/-- A state in which `m` is a macro. -/
def withMacro (expander : Expander) : State :=
  .start ((default : Globals).addExpander "user" "m" expander) 0

/-- A place at the start of a file. -/
def somewhere : Option Span := some (.point ⟨"f", 1, 1⟩)

/-- The form `(m php/f nope)`. -/
def faultyCall : Form :=
  .tuple .paren [.symbol (.plain "m") somewhere, .symbol (.qualified "php" "f") somewhere,
    .symbol (.plain "nope") somewhere] somewhere

theorem placed_faultyCall : faultyCall.Placed := by
  refine .placed rfl fun g hg => ?_
  simp only [faultyCall, Form.parts, List.mem_cons, List.not_mem_nil, or_false] at hg
  have hsymbol : ∀ x, (Form.symbol x somewhere).Placed := fun x =>
    .placed rfl fun g hg => absurd hg List.not_mem_nil
  rcases hg with rfl | rfl | rfl <;> exact hsymbol _

theorem located_of_placed_splice :
    faultyCall.Placed ∧ ∃ e s', form faultyCall .empty (withMacro .splice) = .error (.failed e) s' ∧
      e.Located := by
  have hrun : stoppedWith (fun _ => true) (form faultyCall .empty (withMacro .splice)) = true := by
    decide +kernel
  obtain ⟨e, s', hrun, -⟩ := exists_error_of_stoppedWith hrun
  refine ⟨placed_faultyCall, e, s', hrun, located_of_placed placed_faultyCall hrun (.inr ?_)⟩
  intro m hm
  cases List.mem_singleton.1 hm
  exact Expander.anchors_of_mem (by simp)

/-- A macro that yields `(php/f nope)` without places loses the place of the error. -/
theorem located_of_placed_constant :
    ¬ ∀ (f : Form) (scope : Scope) (s s' : State) (e : CompileError), f.Placed →
      form f scope s = .error (.failed e) s' → e.Located := by
  intro h
  let macros := withMacro (.constant (.parens [.symbol (.qualified "php" "f") none, .name "nope"]))
  have hrun : stoppedWith (·.start.isNone) (form faultyCall .empty macros) = true := by
    decide +kernel
  obtain ⟨e, s', hrun, hnone⟩ := exists_error_of_stoppedWith hrun
  have hlocated := h faultyCall .empty macros s' e placed_faultyCall hrun
  rw [Option.isNone_iff_eq_none] at hnone
  rw [CompileError.Located, hnone] at hlocated
  cases hlocated.1

end Analysis

end LarkPhp
