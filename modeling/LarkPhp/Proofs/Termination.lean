import LarkPhp.Proofs.Depth

/-!
Analysis terminates.

Patterns among the binders of a function or a loop can be put back to `let`: the body is replaced by
a form that takes the patterns apart, and analysis goes on with that form (`Rewriting`).  The form is
no part of the one that it comes from, and it can be larger.  But it is no higher, and it is a `let`
or a block, whose parts are less high.  So without macros analysis comes to an end after at most two
calls inside each other for each level of the form, and it is the same as analysis that binds the
patterns itself.
-/

namespace LarkPhp

theorem CompileError.locate_locate (e : CompileError) (p : Option Span) :
    (e.locate p).locate p = e.locate p := by
  obtain ⟨fault, start, stop, causes⟩ := e
  cases start <;> cases p <;> rfl

namespace Analysis

/-! ### Analysis by rewriting -/

namespace Rewriting

/-- The form `(let [pattern value ...] body ...)`, or `(do body ...)` if there are no patterns. -/
def wrap (patterns : List (Form × Form)) (body : List Form) (span : Option Span) : Form :=
  if patterns.isEmpty then .tuple .paren (.symbol SpecialForm.block.symbol none :: body) span
  else .tuple .paren
    (.symbol SpecialForm.bindings.symbol none :: .brackets (flatten patterns) :: body) span

/-- Analyzes the body of a function, inside a `let` if there are patterns to be taken apart. -/
def functionBody (visit : Visit) (patterns : List (Form × Form)) (body : List Form) (scope : Scope)
    (span : Option Span) : Analyze Node :=
  if patterns.isEmpty then block visit body scope span
  else visit (wrap patterns body span) scope

/-- Analyzes `(fn [parameter ...] body ...)`. -/
def function (visit : Visit) (head : Form) (body : List Form) (scope : Scope)
    (span : Option Span) : Analyze Node :=
  match head with
  | .tuple _ forms _ => do
    let ps ← parameters forms span
    let inner := ((scope.unshadow ps.names).bind ps.names).withContext .result
    let node ← functionBody visit ps.patterns body inner span
    push (.function ps.names ps.variadic (scope.captured ps.names) node) scope span
  | _ => fail .parameterList span

/-- Analyzes a loop over a collection, with a block or a `let` as its body. -/
def loopOver (visit : Visit) (value : Symbol) (key : Option Symbol)
    (patterns : List (Form × Form)) (collection : Form) (body : List Form) (scope : Scope)
    (span : Option Span) : Analyze Node := do
  let coll ← visit collection scope.operand
  let (valueVar, inner) ← bindName value scope
  match key with
  | none => do
    let node ← visit (wrap patterns body span) (inner.withContext .statement)
    push (.loop valueVar none coll node) scope span
  | some key => do
    let (keyVar, inner) ← bindName key inner
    let node ← visit (wrap patterns body span) (inner.withContext .statement)
    push (.loop valueVar (some keyVar) coll node) scope span

/-- Analyzes `(foreach [value collection] body ...)`, where a key may stand before the value. -/
def loop (visit : Visit) (head : Form) (body : List Form) (scope : Scope) (span : Option Span) :
    Analyze Node :=
  match head with
  | .tuple _ [v, collection] _ => do
    let (value, patterns) ← binder v
    loopOver visit value none patterns collection body scope span
  | .tuple _ [k, v, collection] _ => do
    let (key, keyPatterns) ← binder k
    let (value, valuePatterns) ← binder v
    loopOver visit value (some key) (keyPatterns ++ valuePatterns) collection body scope span
  | .tuple .. => fail .loopHeadSize span
  | _ => fail .loopHead span

/-- Analyzes a special form. -/
def special (visit : Visit) (form : SpecialForm) (args : List Form) (scope : Scope)
    (span : Option Span) : Analyze Node :=
  match form, args with
  | .function, head :: body => function visit head body scope span
  | .loop, head :: body => loop visit head body scope span
  | _, _ => Analysis.special visit form args scope span

/-- Analyzes a form whose parts, and the forms that replace bodies, are analyzed by `visit`, and what
macros yield by `reenter`. -/
def step (reenter visit : Visit) (form : Form) (scope : Scope) : Analyze Node :=
  match form with
  | .tuple .paren (head :: args) span =>
    match head.symbol?.bind SpecialForm.ofSymbol? with
    | some name => located span (special visit name args scope span)
    | none => Analysis.step reenter visit form scope
  | _ => Analysis.step reenter visit form scope

/-- Analyzes forms with at most the given number of calls inside each other. -/
def toDepth (reenter : Visit) : (depth : Nat) → Visit
  | 0 => exhausted
  | depth + 1 => step reenter (toDepth reenter depth)

/-! ### Forms that replace bodies -/

/-- The form that replaces a body is analyzed like a body behind patterns. -/
theorem toDepth_wrap (reenter : Visit) (depth : Nat) (patterns : List (Form × Form))
    (body : List Form) (span : Option Span) (scope : Scope) :
    toDepth reenter (depth + 1) (wrap patterns body span) scope =
      located span (patternBody (toDepth reenter depth) patterns body scope span) := by
  have hblock : SpecialForm.ofSymbol? SpecialForm.block.symbol = some .block := by decide +kernel
  have hlet : SpecialForm.ofSymbol? SpecialForm.bindings.symbol = some .bindings := by
    decide +kernel
  unfold wrap patternBody
  split
  · simp only [toDepth, step, Form.symbol?, Option.bind_some, hblock]
    rfl
  · have hpairs : letForm (toDepth reenter depth) (.brackets (flatten patterns)) body scope span =
        bindings (toDepth reenter depth) patterns body scope span := by
      simp only [letForm, Form.brackets, pairUp_eq_some_iff.2 rfl]
    simp only [toDepth, step, Form.symbol?, Option.bind_some, hlet, special, Analysis.special,
      hpairs]

end Rewriting

/-! ### Places of errors inside of special forms -/

section Located
variable {α β : Type} (p : Option Span)

theorem located_bind (x : Analyze α) (f : α → Analyze β) :
    located p (x >>= f) = located p x >>= fun a => located p (f a) := by
  funext s
  rw [bind_run]
  unfold located
  rw [bind_run]
  cases x s with
  | ok a s' => rfl
  | error e s' => cases e <;> rfl

theorem located_located (x : Analyze α) : located p (located p x) = located p x := by
  funext s
  unfold located
  cases x s with
  | ok a s' => rfl
  | error e s' =>
    cases e with
    | failed e => simp only [CompileError.locate_locate]
    | exhausted => rfl

end Located

/-! ### Rewriting coincides with binding -/

section Coincidence
variable {α β : Type} {lax : Prop} {I : State → Prop} {Q : Stop → Prop} {p : Option Span}
  {x y : Analyze α} {f g : α → Analyze β}

theorem Coincide.located_bind (hx : Coincide lax I Q (Analysis.located p x) (Analysis.located p y))
    (hf : ∀ {s a s'}, I s → x s = .ok a s' →
      Coincide lax I Q (Analysis.located p (f a)) (Analysis.located p (g a))) :
    Coincide lax I Q (Analysis.located p (x >>= f)) (Analysis.located p (y >>= g)) := by
  rw [Analysis.located_bind, Analysis.located_bind]
  exact hx.bind_of_ok fun hs ha => hf hs (Rules.located_ok ha)

end Coincidence

namespace Rewriting

section Constructs
variable {lax : Prop} {I : State → Prop} (hI : Invariant I) {Q : Stop → Prop}
  (hQ : ∀ e, Q (.failed e)) {bound depth : Nat} {reenter visit : Visit}
  (hv : (toDepth reenter (depth + 1)).Coincide lax I Q bound visit)
  (hw : (toDepth reenter depth).Coincide lax I Q bound visit)
  {body : List Form} {pairs : List (Form × Form)} {scope : Scope} {span : Option Span}
include hI hQ

include hw in
/-- The form that replaces a body is one level higher than the body, so one more call is needed. -/
theorem coincide_wrap (hpairs : ∀ e ∈ pairs, e.1.height ≤ bound ∧ e.2.height ≤ bound)
    (hbody : ∀ f ∈ body, f.height ≤ bound) :
    Coincide lax I Q (located span (toDepth reenter (depth + 1) (wrap pairs body span) scope))
      (located span (patternBody visit pairs body scope span)) := by
  rw [toDepth_wrap, located_located]
  exact (coincide_patternBody hI hQ hw hpairs hbody).located hQ span

include hv hw

theorem coincide_function {head : Form} (hhead : head.height ≤ bound)
    (hbody : ∀ f ∈ body, f.height ≤ bound) :
    Coincide lax I Q (located span (function (toDepth reenter (depth + 1)) head body scope span))
      (located span (Analysis.function visit head body scope span)) := by
  cases head with
  | tuple d forms p =>
    have hparameters := throws_parameters (Q := Q) hI (fun e _ => hQ e) forms span
    refine (hparameters.coincide.located hQ span).located_bind fun {s ps s'} _ hps => ?_
    have hpatterns := height_params (Rules.parameters_sound hps) (heights_of_parts hhead)
    refine Coincide.located_bind ?_ fun _ _ => (throws_push hI _ _ _).coincide.located hQ span
    unfold functionBody
    split
    · next hempty =>
      unfold patternBody
      rw [if_pos hempty]
      exact (coincide_block hI hv hbody).located hQ span
    · exact coincide_wrap hI hQ hw hpatterns hbody
  | _ => exact (throws_fail (fun e _ => hQ e) .parameterList span).coincide.located hQ span

theorem coincide_loopOver {value : Symbol} {key : Option Symbol} {collection : Form}
    (hpairs : ∀ e ∈ pairs, e.1.height ≤ bound ∧ e.2.height ≤ bound)
    (hcollection : collection.height ≤ bound) (hbody : ∀ f ∈ body, f.height ≤ bound) :
    Coincide lax I Q
      (located span
        (loopOver (toDepth reenter (depth + 1)) value key pairs collection body scope span))
      (located span (Analysis.loopOver visit value key pairs collection body scope span)) := by
  have hpush : ∀ make scope, Coincide lax I Q (located span (push make scope span))
      (located span (push make scope span)) :=
    fun make scope => (throws_push hI make scope span).coincide.located hQ span
  have hname : ∀ x scope, Coincide lax I Q (located span (bindName x scope))
      (located span (bindName x scope)) :=
    fun x scope => (throws_bindName hI x scope).coincide.located hQ span
  unfold loopOver Analysis.loopOver
  refine ((hv collection hcollection _).located hQ span).located_bind fun _ _ => ?_
  refine (hname value scope).located_bind fun {_ a _} _ _ => ?_
  cases key with
  | none => exact (coincide_wrap hI hQ hw hpairs hbody).located_bind fun _ _ => hpush _ _
  | some key =>
    refine (hname key a.2).located_bind fun {_ b _} _ _ => ?_
    exact (coincide_wrap hI hQ hw hpairs hbody).located_bind fun _ _ => hpush _ _

theorem coincide_loop {head : Form} (hhead : head.height ≤ bound)
    (hbody : ∀ f ∈ body, f.height ≤ bound) :
    Coincide lax I Q (located span (loop (toDepth reenter (depth + 1)) head body scope span))
      (located span (Analysis.loop visit head body scope span)) := by
  have hparts := heights_of_parts hhead
  have hbinder : ∀ f, Coincide lax I Q (located span (binder f)) (located span (binder f)) :=
    fun f => (throws_binder hI f).coincide.located hQ span
  have hfail : ∀ fault, Coincide lax I Q (located span (fail fault span : Analyze Node))
      (located span (fail fault span)) :=
    fun fault => (throws_fail (fun e _ => hQ e) fault span).coincide.located hQ span
  cases head with
  | tuple d forms q =>
    rcases forms with _ | ⟨k, _ | ⟨v, _ | ⟨collection, _ | _⟩⟩⟩
    · exact hfail .loopHeadSize
    · exact hfail .loopHeadSize
    · -- a value and the collection
      refine (hbinder k).located_bind fun {s a s'} _ ha => ?_
      have hpatterns := height_binder (Rules.binder_sound ha) (hparts k (by simp [Form.parts]))
      exact coincide_loopOver hI hQ hv hw hpatterns (hparts v (by simp [Form.parts])) hbody
    · refine (hbinder k).located_bind fun {s a s'} _ ha => ?_
      refine (hbinder v).located_bind fun {t b t'} _ hb => ?_
      have hkey := height_binder (Rules.binder_sound ha) (hparts k (by simp [Form.parts]))
      have hvalue := height_binder (Rules.binder_sound hb) (hparts v (by simp [Form.parts]))
      have hpatterns := List.forall_mem_append.2 ⟨hkey, hvalue⟩
      exact coincide_loopOver hI hQ hv hw hpatterns (hparts collection (by simp [Form.parts])) hbody
    · exact hfail .loopHeadSize
  | _ => exact hfail .loopHead

theorem coincide_special {form : SpecialForm} {args : List Form}
    (hargs : ∀ f ∈ args, f.height ≤ bound) :
    Coincide lax I Q (located span (special (toDepth reenter (depth + 1)) form args scope span))
      (located span (Analysis.special visit form args scope span)) := by
  unfold special
  split
  · obtain ⟨hhead, hbody⟩ := List.forall_mem_cons.1 hargs
    exact coincide_function hI hQ hv hw hhead hbody
  · obtain ⟨hhead, hbody⟩ := List.forall_mem_cons.1 hargs
    exact coincide_loop hI hQ hv hw hhead hbody
  · exact (Analysis.coincide_special hI hQ hv hargs).located hQ span

theorem coincide_step {reenter' : Visit}
    (hre : ∀ s, I s → s.globals.expanders ≠ [] →
      ∀ f scope, Coincide lax I Q (reenter f scope) (reenter' f scope))
    {f : Form} (hf : f.height ≤ bound + 1) :
    Coincide lax I Q (step reenter (toDepth reenter (depth + 1)) f scope)
      (Analysis.step reenter' visit f scope) := by
  have hplain : Coincide lax I Q (Analysis.step reenter (toDepth reenter (depth + 1)) f scope)
      (Analysis.step reenter' visit f scope) := Analysis.coincide_step hI hQ hv hre hf
  unfold step
  split
  · next head args span =>
    split
    · next form hform =>
      have hparts : ∀ g ∈ (Form.tuple .paren (head :: args) span).parts, g.height ≤ bound :=
        fun g hg => Nat.le_of_lt_succ (Nat.lt_of_lt_of_le (Form.height_lt_of_mem_parts hg) hf)
      have hargs := (List.forall_mem_cons.1 hparts).2
      have hspecial : Analysis.step reenter' visit (.tuple .paren (head :: args) span) scope =
          located span (Analysis.special visit form args scope span) := by
        simp only [Analysis.step, parens, hform]
      rw [hspecial]
      exact coincide_special hI hQ hv hw hargs
    · exact hplain
  · exact hplain

omit hv hw in
/-- **Two calls for each level are enough.** -/
theorem coincide_toDepth {reenter' : Visit}
    (hre : ∀ s, I s → s.globals.expanders ≠ [] →
      ∀ f scope, Coincide lax I Q (reenter f scope) (reenter' f scope))
    {f : Form} {height depth : Nat} (hf : f.height ≤ height) (hdepth : 2 * height ≤ depth) :
    Coincide lax I Q (toDepth reenter depth f scope) (Analysis.toDepth reenter' height f scope) := by
  induction height generalizing f depth scope with
  | zero => exact absurd f.height_pos (Nat.not_lt.2 hf)
  | succ height ih =>
    obtain ⟨depth, rfl⟩ : ∃ n, depth = n + 2 := ⟨depth - 2, by omega⟩
    -- the parts are analyzed with one call less, and those of a replaced body with two
    exact coincide_step hI hQ (fun g hg _ => ih hg (by omega)) (fun g hg _ => ih hg (by omega)) hre hf

end Constructs

end Rewriting

/-! ### Whole runs -/

/-- **Analysis terminates without macros.**  Every form is analyzed to a node, or stops with an error
of the program.  This is also so, with the same outcome, if the bodies of functions and loops are
replaced by forms that take patterns apart: the calls inside each other are at most twice as many as
the form has levels, whatever is done for macros. -/
theorem form_terminates (f : Form) (scope : Scope) (s : State) (hs : s.globals.expanders = []) :
    ((∃ n s', form f scope s = .ok n s') ∨ ∃ e s', form f scope s = .error (.failed e) s') ∧
    ∀ (reenter : Visit) (depth : Nat), 2 * f.height ≤ depth →
      Rewriting.toDepth reenter depth f scope s = form f scope s := by
  have hI := invariant_registers []
  have hQ : ∀ e, Stop.failed e ≠ .exhausted := fun _ h => nomatch h
  have hre : ∀ (reenter reenter' : Visit) (s : State), Registers [] s → s.globals.expanders ≠ [] →
      ∀ f scope, Coincide False (Registers []) (· ≠ .exhausted) (reenter f scope) (reenter' f scope) :=
    fun _ _ _ hs hmacros => absurd hs hmacros
  obtain ⟨reenter', hform⟩ := withExpansions_eq expansionLimit f
  have hform : form f scope = toDepth reenter' f.height f scope := congrFun hform scope
  rw [hform]
  constructor
  · have hruns : Coincide False (Registers []) (· ≠ .exhausted) (toDepth reenter' f.height f scope) _ :=
      coincide_toDepth hI hQ (hre reenter' reenter') (Nat.le_refl _) (Nat.le_refl _)
    cases hrun : toDepth reenter' f.height f scope s with
    | ok n s' => exact .inl ⟨n, s', rfl⟩
    | error e s' =>
      cases e with
      | failed e => exact .inr ⟨e, s', rfl⟩
      | exhausted => exact absurd rfl (hruns.throws.error hs hrun)
  · intro reenter depth hdepth
    exact (Rewriting.coincide_toDepth hI hQ (hre reenter reenter') (Nat.le_refl _) hdepth).eq hs

/-- The form `(foreach [[a b] [c] [1]] (fn [[x] & y] a))`.  The `let` around the body of the loop has
more forms in it than the loop. -/
def patternLoop : Form :=
  .parens [.name "foreach",
    .brackets [.brackets [.name "a", .name "b"], .brackets [.name "c"], .brackets [.int 1]],
    .parens [.name "fn", .brackets [.brackets [.name "x"], .name "&", .name "y"], .name "a"]]

theorem form_terminates_patternLoop :
    (State.start default 0).globals.expanders = [] ∧
      (∃ n s', form patternLoop .empty (.start default 0) = .ok n s') ∧
      Rewriting.toDepth exhausted 10 patternLoop .empty (.start default 0) =
        form patternLoop .empty (.start default 0) := by
  have hrun : ((form patternLoop .empty).run' (.start default 0)).any (fun _ => true) := by
    decide +kernel
  obtain ⟨n, s', hrun, -⟩ := exists_ok_of_any hrun
  have hterminates := form_terminates patternLoop .empty (.start default 0) rfl
  exact ⟨rfl, ⟨n, s', hrun⟩, hterminates.2 exhausted 10 (by decide)⟩

end Analysis

end LarkPhp
