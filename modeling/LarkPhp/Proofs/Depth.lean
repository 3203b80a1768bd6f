import LarkPhp.Proofs.Acceptance
import LarkPhp.Proofs.Located

/-!
How deep analysis goes.

What analysis looks at while it is in a form is not always a part of the form: patterns are taken
apart into accesses to holders.  But it is never higher than the form.  So two ways to analyze the
parts that coincide up to a height give the same analysis of all forms that are one level higher
(`Analysis.coincide_step`), and a form is analyzed to its own height as to every greater one
(`Analysis.coincide_toDepth`).

Where macros yield forms, analysis begins again, at most as often as the limit on expansions says.  The
limit only decides whether there is an outcome, not which one (`Analysis.unitWithin_eq_unit`).
-/

namespace LarkPhp

/-! ### Heights -/

namespace Pattern

/-- What a pattern is taken apart into is no higher than the pattern. -/
theorem height_inside {holder : Symbol} {p : Form} :
    ∀ e ∈ inside holder p, e.1.height ≤ p.height ∧ e.2.height ≤ p.height := by
  cases p with
  | tuple d ps span =>
    have hparts : ∀ q ∈ ps, q.height < (Form.tuple d ps span).height :=
      fun q hq => Form.height_lt_of_mem_parts (f := .tuple d ps span) hq
    suffices h : ∀ index, ∀ e ∈ elements holder index ps,
        e.1.height ≤ (Form.tuple d ps span).height ∧ e.2.height ≤ (Form.tuple d ps span).height from
      h 0
    generalize (Form.tuple d ps span).height = bound at hparts
    induction ps with
    | nil => exact fun _ _ he => nomatch he
    | cons q ps ih =>
      intro index
      obtain ⟨hq, hps⟩ := List.forall_mem_cons.1 hparts
      refine List.forall_mem_cons.2 ⟨⟨Nat.le_of_lt hq, ?_⟩, ih hps (index + 1)⟩
      -- an index is no higher than the pattern at it
      rw [Analysis.height_access]
      exact Nat.le_trans (Nat.succ_le_succ q.height_pos) hq
  | table es span =>
    refine List.forall_mem_map.2 fun e he => ?_
    obtain ⟨hkey, hvalue⟩ := Form.height_le_heightEntries he
    rw [Analysis.height_access, Form.height]
    exact ⟨Nat.le_succ_of_le hvalue, Nat.succ_le_succ hkey⟩
  | _ => exact fun _ he => absurd he List.not_mem_nil

/-- Values of patterns that are no higher than a bound are taken apart into such values. -/
theorem Unfolds.height {k m bound : Nat} {pairs : List (Form × Form)} {flat : List (Symbol × Form)}
    (h : Unfolds k pairs flat m)
    (hpairs : ∀ e ∈ pairs, e.1.height ≤ bound ∧ e.2.height ≤ bound) :
    ∀ e ∈ flat, e.2.height ≤ bound := by
  induction h with
  | nil => exact fun _ he => nomatch he
  | name _ _ ih =>
    obtain ⟨⟨-, hvalue⟩, hrest⟩ := List.forall_mem_cons.1 hpairs
    exact List.forall_mem_cons.2 ⟨hvalue, ih hrest⟩
  | apart _ _ ih =>
    obtain ⟨⟨hp, hvalue⟩, hrest⟩ := List.forall_mem_cons.1 hpairs
    refine List.forall_mem_cons.2 ⟨hvalue, ih (List.forall_mem_append.2 ⟨fun e he => ?_, hrest⟩)⟩
    obtain ⟨h₁, h₂⟩ := height_inside e he
    exact ⟨Nat.le_trans h₁ hp, Nat.le_trans h₂ hp⟩

end Pattern

namespace Analysis

theorem heights_of_parts {f : Form} {bound : Nat} (h : f.height ≤ bound) :
    ∀ g ∈ f.parts, g.height ≤ bound :=
  fun _ hg => Nat.le_of_lt (Nat.lt_of_lt_of_le (Form.height_lt_of_mem_parts hg) h)

section Binders
variable {bound : Nat} {s s' : State}

open Rules

/-- A pattern among binders is bound to a symbol. -/
theorem height_binder {f : Form} {n : Symbol} {ps : List (Form × Form)} (h : Binder f s n ps s')
    (hf : f.height ≤ bound) : ∀ e ∈ ps, e.1.height ≤ bound ∧ e.2.height ≤ bound := by
  cases h with
  | name => exact fun _ he => nomatch he
  | pattern => exact List.forall_mem_singleton.2 ⟨hf, Nat.le_trans f.height_pos hf⟩

theorem height_binders {fs : List Form} {ns : List Symbol} {ps : List (Form × Form)}
    (h : Binders fs s ns ps s') (hfs : ∀ f ∈ fs, f.height ≤ bound) :
    ∀ e ∈ ps, e.1.height ≤ bound ∧ e.2.height ≤ bound := by
  induction h with
  | nil => exact fun _ he => nomatch he
  | cons hf _ ih =>
    obtain ⟨hbound, hrest⟩ := List.forall_mem_cons.1 hfs
    exact List.forall_mem_append.2 ⟨height_binder hf hbound, ih hrest⟩

theorem height_params {fs : List Form} {ps : Parameters} (h : Params fs s ps s')
    (hfs : ∀ f ∈ fs, f.height ≤ bound) :
    ∀ e ∈ ps.patterns, e.1.height ≤ bound ∧ e.2.height ≤ bound := by
  cases h with
  | fixed _ h => exact height_binders h hfs
  | variadic _ _ h =>
    refine height_binders h fun f hf => hfs f ?_
    rcases List.mem_append.1 hf with hf | hf
    · exact List.mem_append_left _ hf
    · exact List.mem_append_right _ (List.mem_cons_of_mem _ hf)

end Binders

/-! ### Runs that coincide -/

/-- The run gives up. -/
def GivesUp {α : Type} (x : Analyze α) (s : State) : Prop := ∃ s', x s = .error .exhausted s'

/-- Two runs are the same from all states with an invariant, which they keep, and they stop only with
such errors.  If `lax`, the first one may also give up where the second goes on. -/
structure Coincide {α : Type} (lax : Prop) (I : State → Prop) (Q : Stop → Prop) (x y : Analyze α) :
    Prop where
  same {s} : I s → x s = y s ∨ lax ∧ GivesUp x s
  throws : Throws I Q x

/-- Two ways to analyze forms of at most a height coincide. -/
def Visit.Coincide (lax : Prop) (I : State → Prop) (Q : Stop → Prop) (bound : Nat)
    (visit visit' : Visit) : Prop :=
  ∀ f, f.height ≤ bound → ∀ scope, Analysis.Coincide lax I Q (visit f scope) (visit' f scope)

section Combinators
variable {α β : Type} {lax : Prop} {I : State → Prop} {Q : Stop → Prop} {x y : Analyze α}
  {f g : α → Analyze β}

theorem Coincide.eq (h : Coincide False I Q x y) {s : State} (hs : I s) : x s = y s :=
  (h.same hs).resolve_right And.left

theorem Throws.coincide (h : Throws I Q x) : Coincide lax I Q x x := ⟨fun _ => .inl rfl, h⟩

/-- What comes after a run needs to coincide for the values only that the run can yield. -/
theorem Coincide.bind_of_ok (hx : Coincide lax I Q x y)
    (hf : ∀ {s a s'}, I s → x s = .ok a s' → Coincide lax I Q (f a) (g a)) :
    Coincide lax I Q (x >>= f) (y >>= g) := by
  refine ⟨fun {s} hs => ?_, hx.throws.bind_of_ok fun hs ha => (hf hs ha).throws⟩
  unfold GivesUp
  rw [bind_run, bind_run]
  rcases hx.same hs with heq | ⟨hlax, s₁, hexhausted⟩
  · rw [← heq]
    cases ha : x s with
    | ok a s₁ => exact (hf hs ha).same (hx.throws.keeps hs ha)
    | error e s₁ => exact .inl rfl
  · rw [hexhausted]
    exact .inr ⟨hlax, s₁, rfl⟩

theorem Coincide.bind (hx : Coincide lax I Q x y) (hf : ∀ a, Coincide lax I Q (f a) (g a)) :
    Coincide lax I Q (x >>= f) (y >>= g) :=
  hx.bind_of_ok fun {_ a _} _ _ => hf a

theorem Coincide.withdrawing (h : Coincide lax I Q x y) {s : State} (hs : I s) (mark : Nat) :
    withdrawing mark x s = withdrawing mark y s ∨ lax ∧ GivesUp (withdrawing mark x) s := by
  unfold GivesUp Analysis.withdrawing
  rcases h.same hs with heq | ⟨hlax, s₁, hexhausted⟩
  · rw [heq]
    exact .inl rfl
  · rw [hexhausted]
    exact .inr ⟨hlax, _, rfl⟩

theorem Coincide.transaction (h : Coincide lax I Q x y) :
    Coincide lax I Q (transaction x) (transaction y) :=
  ⟨fun {s} hs => h.withdrawing hs s.added.length, throws_transaction h.throws⟩

theorem Coincide.located (hQ : ∀ e, Q (.failed e)) (h : Coincide lax I Q x y) (span : Option Span) :
    Coincide lax I Q (located span x) (located span y) := by
  refine ⟨fun {s} hs => ?_, ⟨fun hs hrun => h.throws.keeps hs (Rules.located_ok hrun), ?_⟩⟩
  · unfold GivesUp Analysis.located
    rcases h.same hs with heq | ⟨hlax, s₁, hexhausted⟩
    · rw [heq]
      exact .inl rfl
    · rw [hexhausted]
      exact .inr ⟨hlax, s₁, rfl⟩
  · intro s e s' hs hrun
    cases e with
    | failed e => exact hQ e
    | exhausted =>
      unfold Analysis.located at hrun
      split at hrun
      · cases hrun
      · exact h.throws.error hs hrun

end Combinators

/-! ### Constructs -/

section Constructs
variable {lax : Prop} {I : State → Prop} (hI : Invariant I) {Q : Stop → Prop}
  (hQ : ∀ e, Q (.failed e)) {bound : Nat} {visit visit' : Visit} (hv : visit.Coincide lax I Q bound visit')
  {forms body : List Form} {pairs : List (Form × Form)} {scope : Scope} {span : Option Span}

section Sequences
include hv

theorem coincide_all (hforms : ∀ f ∈ forms, f.height ≤ bound) :
    Coincide lax I Q (all visit forms scope) (all visit' forms scope) := by
  induction forms with
  | nil => exact (throws_pure []).coincide
  | cons f fs ih =>
    obtain ⟨hf, hfs⟩ := List.forall_mem_cons.1 hforms
    exact (hv f hf scope).bind fun _ => (ih hfs).bind fun _ => (throws_pure _).coincide

include hI

theorem coincide_statements (hforms : ∀ f ∈ forms, f.height ≤ bound) (position : Nat) :
    Coincide lax I Q (statements visit span forms position scope)
      (statements visit' span forms position scope) := by
  induction forms generalizing position with
  | nil => exact (throws_pure []).coincide
  | cons f fs ih =>
    obtain ⟨hf, hfs⟩ := List.forall_mem_cons.1 hforms
    refine (throws_warnIfScalar hI f position span).coincide.bind fun _ => ?_
    exact (hv f hf scope).bind fun _ =>
      (ih hfs (position + 1)).bind fun _ => (throws_pure _).coincide

theorem coincide_block (hforms : ∀ f ∈ forms, f.height ≤ bound) :
    Coincide lax I Q (block visit forms scope span) (block visit' forms scope span) := by
  unfold block
  split
  · exact ((throws_push hI _ _ _).bind fun _ => throws_push hI _ _ _).coincide
  · next f hlast =>
    have hfront : ∀ g ∈ forms.dropLast, g.height ≤ bound :=
      fun g hg => hforms g (List.dropLast_subset forms hg)
    refine (coincide_statements hI hv hfront 1).bind fun stmts => ?_
    refine (hv f (hforms f (List.mem_of_getLast? hlast)) _).bind fun _ => ?_
    exact (throws_push hI _ _ _).coincide

theorem coincide_bindValues {flat : List (Symbol × Form)}
    (hflat : ∀ e ∈ flat, e.2.height ≤ bound) :
    Coincide lax I Q (bindValues visit flat scope) (bindValues visit' flat scope) := by
  induction flat generalizing scope with
  | nil => exact (throws_pure _).coincide
  | cons e flat ih =>
    obtain ⟨he, hrest⟩ := List.forall_mem_cons.1 hflat
    refine (hv e.2 he _).bind fun _ => (throws_bindName hI e.1 scope).coincide.bind fun a => ?_
    exact (ih hrest).bind fun _ => (throws_pure _).coincide

end Sequences

include hI hQ hv

/-! ### Binding forms -/

theorem coincide_bindings (hpairs : ∀ e ∈ pairs, e.1.height ≤ bound ∧ e.2.height ≤ bound)
    (hbody : ∀ f ∈ body, f.height ≤ bound) :
    Coincide lax I Q (bindings visit pairs body scope span) (bindings visit' pairs body scope span) := by
  have hdestructure := throws_destructure (Q := Q) hI (fun e _ => hQ e) pairs
  refine hdestructure.coincide.bind_of_ok fun {s flat s'} _ hflat => ?_
  obtain ⟨b, hb, rfl, -⟩ := Rules.destructure_sound hflat
  obtain ⟨added, hadded, hunfolds⟩ := Pattern.takes_bindAll hb
  rw [List.nil_append] at hadded
  have hvalues : ∀ e ∈ b.pairs, e.2.height ≤ bound := by
    rw [hadded]
    exact hunfolds.height hpairs
  refine (coincide_bindValues hI hv hvalues).bind fun a => ?_
  exact (coincide_block hI hv hbody).bind fun _ => (throws_push hI _ _ _).coincide

theorem coincide_patternBody (hpairs : ∀ e ∈ pairs, e.1.height ≤ bound ∧ e.2.height ≤ bound)
    (hbody : ∀ f ∈ body, f.height ≤ bound) :
    Coincide lax I Q (patternBody visit pairs body scope span)
      (patternBody visit' pairs body scope span) := by
  unfold patternBody
  split
  · exact coincide_block hI hv hbody
  · exact coincide_bindings hI hQ hv hpairs hbody

theorem coincide_letForm {head : Form} (hhead : head.height ≤ bound)
    (hbody : ∀ f ∈ body, f.height ≤ bound) :
    Coincide lax I Q (letForm visit head body scope span) (letForm visit' head body scope span) := by
  have hfail : ∀ fault, Coincide lax I Q (fail fault span : Analyze Node) (fail fault span) :=
    fun fault => (throws_fail (fun e _ => hQ e) fault span).coincide
  unfold letForm
  split
  · next d forms p =>
    split
    · next pairs hpairs =>
      refine coincide_bindings hI hQ hv (fun e he => ?_) hbody
      have hparts := heights_of_parts hhead
      obtain ⟨h₁, h₂⟩ := mem_of_pairUp hpairs e he
      exact ⟨hparts _ h₁, hparts _ h₂⟩
    · exact hfail _
  · exact hfail _

theorem coincide_function {head : Form} (hhead : head.height ≤ bound)
    (hbody : ∀ f ∈ body, f.height ≤ bound) :
    Coincide lax I Q (function visit head body scope span) (function visit' head body scope span) := by
  unfold function
  split
  · next d forms p =>
    have hparts := heights_of_parts hhead
    have hparameters := throws_parameters (Q := Q) hI (fun e _ => hQ e) forms span
    refine hparameters.coincide.bind_of_ok fun {s ps s'} _ hps => ?_
    have hpatterns := height_params (Rules.parameters_sound hps) hparts
    exact (coincide_patternBody hI hQ hv hpatterns hbody).bind fun _ =>
      (throws_push hI _ _ _).coincide
  · exact (throws_fail (fun e _ => hQ e) _ _).coincide

theorem coincide_loopOver {value : Symbol} {key : Option Symbol} {collection : Form}
    (hpairs : ∀ e ∈ pairs, e.1.height ≤ bound ∧ e.2.height ≤ bound)
    (hcollection : collection.height ≤ bound) (hbody : ∀ f ∈ body, f.height ≤ bound) :
    Coincide lax I Q (loopOver visit value key pairs collection body scope span)
      (loopOver visit' value key pairs collection body scope span) := by
  have hinner : ∀ {scope}, Coincide lax I Q (patternBody visit pairs body scope span)
      (patternBody visit' pairs body scope span) :=
    coincide_patternBody hI hQ hv hpairs hbody
  unfold loopOver
  refine (hv collection hcollection _).bind fun _ => ?_
  refine (throws_bindName hI value scope).coincide.bind fun a => ?_
  cases key with
  | none => exact hinner.bind fun _ => (throws_push hI _ _ _).coincide
  | some key =>
    refine (throws_bindName hI key a.2).coincide.bind fun b => ?_
    exact hinner.bind fun _ => (throws_push hI _ _ _).coincide

theorem coincide_loop {head : Form} (hhead : head.height ≤ bound)
    (hbody : ∀ f ∈ body, f.height ≤ bound) :
    Coincide lax I Q (loop visit head body scope span) (loop visit' head body scope span) := by
  have hparts := heights_of_parts hhead
  unfold loop
  split
  · next d v collection p =>
    refine (throws_binder hI v).coincide.bind_of_ok fun {s a s'} _ ha => ?_
    have hpatterns := height_binder (Rules.binder_sound ha) (hparts v (by simp [Form.parts]))
    exact coincide_loopOver hI hQ hv hpatterns (hparts collection (by simp [Form.parts])) hbody
  · next d k v collection p =>
    refine (throws_binder hI k).coincide.bind_of_ok fun {s a s'} _ ha => ?_
    refine (throws_binder hI v).coincide.bind_of_ok fun {t b t'} _ hb => ?_
    have hkey := height_binder (Rules.binder_sound ha) (hparts k (by simp [Form.parts]))
    have hvalue := height_binder (Rules.binder_sound hb) (hparts v (by simp [Form.parts]))
    have hpatterns := List.forall_mem_append.2 ⟨hkey, hvalue⟩
    exact coincide_loopOver hI hQ hv hpatterns (hparts collection (by simp [Form.parts])) hbody
  · exact (throws_fail (fun e _ => hQ e) _ _).coincide
  · exact (throws_fail (fun e _ => hQ e) _ _).coincide

/-! ### Special forms -/

omit hQ in
theorem coincide_branch {test yes : Form} {no : Option Form}
    (hforms : ∀ f ∈ test :: yes :: no.toList, f.height ≤ bound) :
    Coincide lax I Q (branch visit test yes no scope span) (branch visit' test yes no scope span) := by
  obtain ⟨htest, hyes, hno⟩ := by simpa only [List.forall_mem_cons] using hforms
  have hoptional : Coincide lax I Q (optional visit no scope span) (optional visit' no scope span) := by
    cases no with
    | none => exact (throws_push hI _ _ _).coincide
    | some no => exact hv no (hno no (List.mem_singleton.2 rfl)) scope
  refine (hv test htest _).bind fun _ => (hv yes hyes _).bind fun _ => ?_
  exact hoptional.bind fun _ => (throws_push hI _ _ _).coincide

theorem coincide_definition {name value : Form} (hvalue : value.height ≤ bound) :
    Coincide lax I Q (definition visit name value scope span)
      (definition visit' name value scope span) := by
  unfold definition
  split
  · split
    · refine Coincide.bind (Coincide.transaction ?_) fun _ => (throws_push hI _ _ _).coincide
      exact (throws_announce hI _ _ span).coincide.bind fun _ => hv value hvalue _
    · exact (throws_fail (fun e _ => hQ e) _ _).coincide
  · exact (throws_fail (fun e _ => hQ e) _ _).coincide

theorem coincide_member {static : Bool} {object part : Form} (hobject : object.height ≤ bound)
    (hpart : part.height ≤ bound) :
    Coincide lax I Q (member visit static object part scope span)
      (member visit' static object part scope span) := by
  have htarget : Coincide lax I Q (target visit object static scope.operand)
      (target visit' object static scope.operand) := by
    unfold target
    split
    · exact (throws_push hI _ _ _).coincide
    · exact hv object hobject _
  refine htarget.bind fun _ => ?_
  split
  · next d name p args place =>
    have hargs : ∀ f ∈ args, f.height ≤ bound :=
      (List.forall_mem_cons.1 (heights_of_parts hpart)).2
    refine (coincide_all hv hargs).bind fun _ => ?_
    exact ((throws_push hI _ _ _).bind fun _ => throws_push hI _ _ _).coincide
  · exact (throws_fail (fun e _ => hQ e) _ _).coincide
  · exact ((throws_push hI _ _ _).bind fun _ => throws_push hI _ _ _).coincide
  · exact (throws_fail (fun e _ => hQ e) _ _).coincide

theorem coincide_special {form : SpecialForm} {args : List Form}
    (hargs : ∀ f ∈ args, f.height ≤ bound) :
    Coincide lax I Q (special visit form args scope span) (special visit' form args scope span) := by
  have hrest : ∀ {f fs}, args = f :: fs → ∀ g ∈ fs, g.height ≤ bound := by
    rintro f fs rfl g hg
    exact hargs g (List.mem_cons_of_mem f hg)
  unfold special
  split
  · exact (throws_push hI _ _ _).coincide
  · exact coincide_block hI hv hargs
  · exact coincide_branch hI hv hargs
  · exact coincide_branch hI hv hargs
  · exact coincide_letForm hI hQ hv (hargs _ (by simp)) (hrest rfl)
  · exact coincide_function hI hQ hv (hargs _ (by simp)) (hrest rfl)
  · exact coincide_definition hI hQ hv (hargs _ (by simp))
  · exact coincide_loop hI hQ hv (hargs _ (by simp)) (hrest rfl)
  · exact (hv _ (hargs _ (by simp)) _).bind fun _ => (throws_push hI _ _ _).coincide
  · refine (hv _ (hargs _ (by simp)) _).bind fun _ => ?_
    exact (coincide_all hv (hrest rfl)).bind fun _ => (throws_push hI _ _ _).coincide
  · exact coincide_member hI hQ hv (hargs _ (by simp)) (hargs _ (by simp))
  · exact coincide_member hI hQ hv (hargs _ (by simp)) (hargs _ (by simp))
  · refine (hv _ (hargs _ (by simp)) _).bind fun _ => (hv _ (hargs _ (by simp)) _).bind fun _ => ?_
    exact (throws_push hI _ _ _).coincide
  · refine (hv _ (hargs _ (by simp)) _).bind fun _ => (hv _ (hargs _ (by simp)) _).bind fun _ => ?_
    exact (hv _ (hargs _ (by simp)) _).bind fun _ => (throws_push hI _ _ _).coincide
  · exact (throws_fail (fun e _ => hQ e) _ _).coincide

/-! ### Forms -/

theorem coincide_application {head : Form} {args : List Form} (hhead : head.height ≤ bound)
    (hargs : ∀ f ∈ args, f.height ≤ bound) :
    Coincide lax I Q (application visit head args scope span)
      (application visit' head args scope span) := by
  unfold application
  split
  · exact (throws_fail (fun e _ => hQ e) _ _).coincide
  split
  · exact (throws_fail (fun e _ => hQ e) _ _).coincide
  · refine (hv head hhead _).bind fun _ => (coincide_all hv hargs).bind fun _ => ?_
    exact (throws_push hI _ _ _).coincide

variable {reenter reenter' : Visit}
  (hre : ∀ s, I s → s.globals.expanders ≠ [] →
    ∀ f scope, Coincide lax I Q (reenter f scope) (reenter' f scope))
include hre

/-- What macros yield needs to be analyzed alike only where there are macros. -/
theorem coincide_parens (hforms : ∀ f ∈ forms, f.height ≤ bound) :
    Coincide lax I Q (parens reenter visit ⟨forms, span⟩ scope)
      (parens reenter' visit' ⟨forms, span⟩ scope) := by
  unfold parens
  cases forms with
  | nil => exact (throws_push hI _ _ _).coincide
  | cons head args =>
    obtain ⟨hhead, hargs⟩ := List.forall_mem_cons.1 hforms
    dsimp only
    split
    · exact (coincide_special hI hQ hv hargs).located hQ span
    · refine throws_get.coincide.bind_of_ok fun {s a s'} hs hget => ?_
      cases hget
      split
      · next name expander hmacro =>
        have hmacros : s.globals.expanders ≠ [] := fun hnone => by
          rw [macroOf?_eq_none hnone] at hmacro
          cases hmacro
        have hexpand : Throws I Q (expand name expander ⟨head :: args, span⟩) :=
          throws_expand hI fun _ => hQ _
        exact hexpand.coincide.bind fun form => hre s hs hmacros form scope
      · exact coincide_application hI hQ hv hhead hargs

/-- **A form is analyzed the same in two ways that coincide on what is less high.** -/
theorem coincide_step {f : Form} (hf : f.height ≤ bound + 1) :
    Coincide lax I Q (step reenter visit f scope) (step reenter' visit' f scope) := by
  have hparts : ∀ g ∈ f.parts, g.height ≤ bound := fun g hg =>
    Nat.le_of_lt_succ (Nat.lt_of_lt_of_le (Form.height_lt_of_mem_parts hg) hf)
  have hcollection : Coincide lax I Q (all visit f.parts scope.operand)
      (all visit' f.parts scope.operand) := coincide_all hv hparts
  have hpush : ∀ make p, Coincide lax I Q (push make scope p) (push make scope p) :=
    fun make p => (throws_push hI make scope p).coincide
  cases f with
  | symbol x p => exact (throws_reference hI (fun _ => hQ _) scope).coincide
  | tuple d xs p =>
    cases d with
    | paren => exact coincide_parens hI hQ hv hre hparts
    | bracket => exact hcollection.bind fun _ => hpush _ _
  | table es p =>
    rw [Form.parts, ← entries_eq, ← entries_eq] at hcollection
    exact hcollection.bind fun _ => hpush _ _
  | set xs p => exact hcollection.bind fun _ => hpush _ _
  | array xs p => exact hcollection.bind fun _ => hpush _ _
  | _ => exact hpush _ _

omit hv in
/-- A form is analyzed to its own height as to every greater one. -/
theorem coincide_toDepth {f : Form} {h h' : Nat} (hf : f.height ≤ h) (hf' : f.height ≤ h') :
    Coincide lax I Q (toDepth reenter h f scope) (toDepth reenter' h' f scope) := by
  induction h generalizing f h' scope with
  | zero => exact absurd f.height_pos (Nat.not_lt.2 hf)
  | succ h ih =>
    have hpos : 0 < h' := Nat.lt_of_lt_of_le f.height_pos hf'
    obtain ⟨h', rfl⟩ := Nat.exists_eq_succ_of_ne_zero (Nat.ne_of_gt hpos)
    have hv : (toDepth reenter h).Coincide lax I Q (f.height - 1) (toDepth reenter' h') :=
      fun g hg scope => ih (by omega) (by omega)
    exact coincide_step hI hQ hv hre (by omega)

end Constructs

section Anything
variable {α : Type} (x : Analyze α)

theorem throws_any : Throws (fun _ => True) (fun _ => True) x := ⟨fun _ _ => trivial, fun _ _ => trivial⟩

theorem invariant_any : Invariant fun _ => True :=
  ⟨fun _ _ => trivial, fun _ => trivial, fun _ _ => trivial, fun _ _ _ => trivial, fun _ _ => trivial⟩

end Anything

/-- **Analysis as one equation:** a form is analyzed by its kind, its parts by analysis again. -/
theorem exists_form_eq : ∃ reenter : Visit, ∀ f scope, form f scope = step reenter form f scope := by
  obtain ⟨reenter, hform⟩ : ∃ reenter, ∀ f, form f = toDepth reenter f.height f := by
    unfold form
    cases expansionLimit with
    | zero => exact ⟨exhausted, fun _ => rfl⟩
    | succ n => exact ⟨withExpansions n, fun _ => rfl⟩
  have hdepth : ∀ f scope h, f.height ≤ h →
      Coincide False (fun _ => True) (fun _ => True) (toDepth reenter h f scope) (form f scope) := by
    intro f scope h hf
    rw [hform]
    exact coincide_toDepth invariant_any (fun _ => trivial) (fun _ _ _ _ _ => (throws_any _).coincide) hf
      (Nat.le_refl _)
  refine ⟨reenter, fun f scope => funext fun s => ?_⟩
  have hf := hdepth f scope (f.height + 1) (Nat.le_succ _)
  have hstep : Coincide False (fun _ => True) (fun _ => True)
      (step reenter (toDepth reenter f.height) f scope) (step reenter form f scope) :=
    coincide_step invariant_any (fun _ => trivial) (fun g hg scope => hdepth g scope _ hg)
      (fun _ _ _ _ _ => (throws_any _).coincide) (Nat.le_succ _)
  have hf : toDepth reenter (f.height + 1) f scope s = form f scope s := hf.eq trivial
  exact hf.symm.trans (hstep.eq trivial)

/-! ### Limits on expansions -/

/-- Analyzes the forms of a unit with at most the given number of macro expansions inside each other. -/
def unitWithin (expansions : Nat) (forms : List Form) (scope : Scope) : Analyze (List Node) :=
  withdrawing 0 (all (withExpansions expansions) forms scope)

/-- Where fewer expansions are enough, more of them change nothing. -/
theorem coincide_withExpansions {m n : Nat} (h : m ≤ n) (f : Form) (scope : Scope) :
    Coincide True (fun _ => True) (fun _ => True) (withExpansions m f scope)
      (withExpansions n f scope) := by
  induction m generalizing n f scope with
  | zero =>
    obtain ⟨reenter, hn⟩ := withExpansions_eq n f
    rw [hn]
    -- what a macro yields is given up at once
    have hexhausted : ∀ g scope, Coincide True (fun _ => True) (fun _ => True) (exhausted g scope)
        (reenter g scope) :=
      fun g scope => ⟨fun {s} _ => .inr ⟨trivial, s, rfl⟩, throws_any _⟩
    exact coincide_toDepth invariant_any (fun _ => trivial) (fun _ _ _ => hexhausted)
      (Nat.le_refl _) (Nat.le_refl _)
  | succ m ih =>
    obtain ⟨n, rfl⟩ := Nat.exists_eq_succ_of_ne_zero (Nat.ne_zero_of_lt h)
    exact coincide_toDepth invariant_any (fun _ => trivial)
      (fun _ _ _ => ih (Nat.le_of_succ_le_succ h)) (Nat.le_refl f.height) (Nat.le_refl f.height)

/-- **The limit on expansions does not matter.**  A unit has the same outcome under every greater limit,
unless the smaller one makes its analysis give up. -/
theorem unitWithin_of_le {m n : Nat} (h : m ≤ n) (forms : List Form) (scope : Scope) (s : State) :
    unitWithin m forms scope s = unitWithin n forms scope s ∨ GivesUp (unitWithin m forms scope) s := by
  have hall : Coincide True (fun _ => True) (fun _ => True) (all (withExpansions m) forms scope)
      (all (withExpansions n) forms scope) :=
    coincide_all (fun f _ scope => coincide_withExpansions h f scope)
      (heights_of_parts (Nat.le_refl (Form.parens forms).height))
  exact (hall.withdrawing (s := s) trivial 0).imp_right And.right

/-- The limit that is set is one of many: under any other one, a unit has the same outcome unless one of
the two makes its analysis give up. -/
theorem unitWithin_eq_unit (n : Nat) (forms : List Form) (scope : Scope) (s : State) :
    unitWithin n forms scope s = unit forms scope s ∨
      GivesUp (unitWithin n forms scope) s ∨ GivesUp (unit forms scope) s := by
  have hunit : unit forms scope = unitWithin expansionLimit forms scope := rfl
  rw [hunit]
  rcases Nat.le_total n expansionLimit with h | h
  · exact (unitWithin_of_le h forms scope s).imp_right .inl
  · exact (unitWithin_of_le h forms scope s).imp Eq.symm .inr

end Analysis

end LarkPhp
