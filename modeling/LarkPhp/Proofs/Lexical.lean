import LarkPhp.Proofs.FunctionScope
import LarkPhp.Proofs.Growth

/-!
Lexical scope.

`Lexical.Resolved` says what lexical scope means for a form and its node, with no word of scopes,
shadows or drawn symbols: it walks down both at once with the binders that enclose the place, and at
every name it demands the variable that was allocated to the innermost binder of that name.  The
binders are the leaves of `let` patterns, parameters and loop binders, and the leaves of patterns
among these.

Analysis without macros yields such nodes, and never allocates a variable to a `let` or to a loop
that is at hand already in the function around it.  The invariant is `Frame`: names stand for the
variables of their innermost binders, and every variable at hand was drawn before or is the name of
a local.
-/

namespace LarkPhp

namespace Lexical

/-! ### Binders -/

/-- Names with the variables of their binders, the innermost binder first. -/
abbrev Env := List (Symbol × Symbol)

/-- The name that a binder binds: its own, or a drawn one from which a pattern is taken later. -/
inductive Bound (others : List Symbol) : Form → Symbol → List (Form × Form) → Prop
  | name {n span} : n.isPlain "&" = false → Bound others (.symbol n span) n []
  | pattern {f n} :
    Pattern.isPlain f = false → n.generated = true → n ∉ others →
    Bound others f n [(f, .symbol n none)]

/-- The names that binders bind, and the patterns among them. -/
inductive AllBound : List Symbol → List Form → List Symbol → List (Form × Form) → Prop
  | nil {others} : AllBound others [] [] []
  | cons {others f fs n ps ns qs} :
    Bound others f n ps → AllBound (n :: others) fs ns qs →
    AllBound others (f :: fs) (n :: ns) (ps ++ qs)

/-- The names of parameters, and the patterns among them.  A rest marker may stand before the last
one. -/
inductive ParamsBound : List Form → List Symbol → (variadic : Bool) → List (Form × Form) → Prop
  | fixed {fs ns ps} :
    (∀ f ∈ fs, f.isRestMarker = false) → AllBound [] fs ns ps → ParamsBound fs ns false ps
  | variadic {fs marker rest ns ps} :
    (∀ f ∈ fs, f.isRestMarker = false) → marker.isRestMarker = true →
    AllBound [] (fs ++ [rest]) ns ps → ParamsBound (fs ++ [marker, rest]) ns true ps

/-! ### Forms and their nodes -/

mutual
/-- A form and a node for it, in which every name has the variable of its innermost binder. -/
inductive Resolved : Env → Form → Node → Prop
  | scalar {env f i} : f.isScalar = true → Resolved env f (.literal f i)
  | unit {env span i} : Resolved env (.tuple .paren [] span) (.literal (.tuple .paren [] span) i)
  | host {env n span i} : n.ofHost = true → Resolved env (.symbol n span) (.hostVar n i)
  | className {env n span i} :
    n.ofHost = false → n.isClassName = true → Resolved env (.symbol n span) (.className n i)
  | bound {env n span var i} :
    n.ofHost = false → n.isClassName = false → env.lookup n = some var →
    Resolved env (.symbol n span) (.localVar var i)
  | free {env n span home name i} :
    n.ofHost = false → n.isClassName = false → env.lookup n = none →
    Resolved env (.symbol n span) (.globalVar home name i)
  | tuple {env xs span ns i} :
    AllResolved env xs ns → Resolved env (.tuple .bracket xs span) (.tuple ns i)
  | table {env es span ns i} :
    AllResolved env (Analysis.flatten es) ns → Resolved env (.table es span) (.table ns i)
  | set {env xs span ns i} : AllResolved env xs ns → Resolved env (.set xs span) (.set ns i)
  | array {env xs span ns i} : AllResolved env xs ns → Resolved env (.array xs span) (.array ns i)
  | call {env head args span n ns i} :
    head.symbol?.bind SpecialForm.ofSymbol? = none →
    Resolved env head n → AllResolved env args ns →
    Resolved env (.tuple .paren (head :: args) span) (.call n ns i)
  | special {env head headSpan form args span n} :
    SpecialForm.ofSymbol? head = some form → SpecialResolved env form args n →
    Resolved env (.tuple .paren (.symbol head headSpan :: args) span) n

/-- Forms and their nodes in order. -/
inductive AllResolved : Env → List Form → List Node → Prop
  | nil {env} : AllResolved env [] []
  | cons {env f fs n ns} :
    Resolved env f n → AllResolved env fs ns → AllResolved env (f :: fs) (n :: ns)

/-- The forms of a block and its node. -/
inductive BlockResolved : Env → List Form → Node → Prop
  | empty {env i j} : BlockResolved env [] (.block [] (.literal .nil i) j)
  | forms {env fs f ns n i} :
    AllResolved env fs ns → Resolved env f n → BlockResolved env (fs ++ [f]) (.block ns n i)

/-- Bindings of plain symbols and their nodes, and the binders around what comes after them: each
binding sees the ones before it. -/
inductive ValuesResolved : Env → List (Symbol × Form) → List (Binding Node) → Env → Prop
  | nil {env} : ValuesResolved env [] [] env
  | cons {env name f flat var n bs after} :
    Resolved env f n → ValuesResolved ((name, var) :: env) flat bs after →
    ValuesResolved env ((name, f) :: flat) (⟨name, var, n⟩ :: bs) after

/-- Patterns with their values, the forms behind them, and the node. -/
inductive LetResolved : Env → List (Form × Form) → List Form → Node → Prop
  | intro {env pairs flat holders body bs after n i} :
    Pattern.Expands pairs flat holders → ValuesResolved env flat bs after →
    BlockResolved after body n → LetResolved env pairs body (.bindings bs n i)

/-- A body that takes patterns apart first, if there are any. -/
inductive BodyResolved : Env → List (Form × Form) → List Form → Node → Prop
  | plain {env body n} : BlockResolved env body n → BodyResolved env [] body n
  | patterns {env patterns body n} :
    patterns ≠ [] → LetResolved env patterns body n → BodyResolved env patterns body n

/-- The object or class whose member is meant. -/
inductive TargetResolved : Env → Form → (static : Bool) → Node → Prop
  | className {env n span i} : TargetResolved env (.symbol n span) true (.className n i)
  | form {env f static n} : Resolved env f n → TargetResolved env f static n

/-- The member that is meant: a call of a method, or a property. -/
inductive PartResolved : Env → Form → (method : Bool) → Node → Prop
  | method {env d name nameSpan args span ns i} :
    AllResolved env args ns →
    PartResolved env (.tuple d (.symbol name nameSpan :: args) span) true (.methodCall name ns i)
  | property {env n span i} : PartResolved env (.symbol n span) false (.property n i)

/-- A special form with its arguments, and its node. -/
inductive SpecialResolved : Env → SpecialForm → List Form → Node → Prop
  | quote {env value i} : SpecialResolved env .quote [value] (.literal value i)
  | block {env body n} : BlockResolved env body n → SpecialResolved env .block body n
  | branch {env test yes c t i j} :
    Resolved env test c → Resolved env yes t →
    SpecialResolved env .branch [test, yes] (.branch c t (.literal .nil i) j)
  | branchElse {env test yes no c t e i} :
    Resolved env test c → Resolved env yes t → Resolved env no e →
    SpecialResolved env .branch [test, yes, no] (.branch c t e i)
  | bindings {env d forms span pairs body n} :
    Analysis.pairUp forms = some pairs → LetResolved env pairs body n →
    SpecialResolved env .bindings (.tuple d forms span :: body) n
  | function {env d forms span params variadic patterns body uses n i} :
    ParamsBound forms params variadic patterns →
    BodyResolved (params.map (fun p => (p, p)) ++ env) patterns body n →
    SpecialResolved env .function (.tuple d forms span :: body)
      (.function params variadic uses n i)
  | definition {env name nameSpan value home n i} :
    Resolved env value n →
    SpecialResolved env .definition [.symbol name nameSpan, value] (.definition home name n i)
  | loop {env d v collection span body value patterns valueVar c n i} :
    Bound [] v value patterns → Resolved env collection c →
    BodyResolved ((value, valueVar) :: env) patterns body n →
    SpecialResolved env .loop (.tuple d [v, collection] span :: body) (.loop valueVar none c n i)
  | loopKey {env d k v collection span body key keyPatterns value valuePatterns valueVar keyVar c n
      i} :
    Bound [] k key keyPatterns → Bound [key] v value valuePatterns → Resolved env collection c →
    BodyResolved ((key, keyVar) :: (value, valueVar) :: env) (keyPatterns ++ valuePatterns) body n →
    SpecialResolved env .loop (.tuple d [k, v, collection] span :: body)
      (.loop valueVar (some keyVar) c n i)
  | throw {env exception n i} :
    Resolved env exception n → SpecialResolved env .throw [exception] (.throw n i)
  | new {env cls args c ns i} :
    Resolved env cls c → AllResolved env args ns →
    SpecialResolved env .new (cls :: args) (.new c ns i)
  | member {env object part method t c i} :
    TargetResolved env object false t → PartResolved env part method c →
    SpecialResolved env .member [object, part] (.member t c false method i)
  | staticMember {env cls part method t c i} :
    TargetResolved env cls true t → PartResolved env part method c →
    SpecialResolved env .staticMember [cls, part] (.member t c true method i)
  | arrayGet {env array index a j i} :
    Resolved env array a → Resolved env index j →
    SpecialResolved env .arrayGet [array, index] (.arrayGet a j i)
  | arraySet {env array index value a j v i} :
    Resolved env array a → Resolved env index j → Resolved env value v →
    SpecialResolved env .arraySet [array, index, value] (.arraySet a j v i)
end

end Lexical

/-! ### Allocated variables -/

namespace Node

/-- The variables that a `let` or a loop sets. -/
def allocated : Node → List Symbol
  | bindings bs _ _ => bs.map Binding.var
  | loop value key _ _ _ => value :: key.toList
  | _ => []

/-- The variables that the node sets differ from each other and from those at hand. -/
def Unclobbered (vars : List Symbol) (n : Node) : Prop :=
  n.allocated.Nodup ∧ ∀ v ∈ n.allocated, v ∉ n.entered vars

theorem unclobbered_of_allocated_eq_nil {vars : List Symbol} {n : Node} (h : n.allocated = []) :
    n.Unclobbered vars := by
  constructor <;> simp [h]

end Node

theorem Scope.variableOf_eq_or_mem (s : Scope) (n : Symbol) :
    s.variableOf n = n ∨ ∃ e ∈ s.shadows, s.variableOf n = e.2 := by
  unfold variableOf
  cases h : s.shadows.lookup n with
  | none => exact .inl rfl
  | some v =>
    obtain ⟨before, after, heq, -⟩ := List.lookup_eq_some_iff.1 h
    exact .inr ⟨(n, v), by simp [heq], rfl⟩

theorem Symbol.generation_eq_zero {x : Symbol} (h : ¬ x.generated = true) : x.generation = 0 := by
  simpa [generated] using h

namespace Analysis

/-! ### Names, binders and variables at hand -/

/-- At a place without macros, names stand for the variables of their innermost binders, and the
variables at hand were drawn before or are names of locals. -/
structure Frame (env : Lexical.Env) (vars : List Symbol) (scope : Scope) (s : State) : Prop where
  expanders : s.globals.expanders = []
  lookup : ∀ n, env.lookup n = if n ∈ scope.locals then some (scope.variableOf n) else none
  locals : ∀ n ∈ scope.locals, n.generation ≤ s.drawn
  shadowed : ∀ e ∈ scope.shadows, e.1 ∈ scope.locals
  shadows : ∀ e ∈ scope.shadows, e.2.generated = true ∧ e.2.generation ≤ s.drawn
  vars : ∀ v ∈ vars, v.generation ≤ s.drawn ∧ (v.generated = false → v ∈ scope.locals)

/-- A name that may be bound next: a drawn one is local already or not at hand. -/
def Available (scope : Scope) (vars : List Symbol) (s : State) (n : Symbol) : Prop :=
  n.generated = true → n ∈ scope.locals ∨ n ∉ vars ∧ n.generation ≤ s.drawn

section Frame
variable {env : Lexical.Env} {vars : List Symbol} {scope inner : Scope} {s s' : State}

theorem Frame.nil (hlocals : scope.locals = []) (hshadows : scope.shadows = [])
    (hexpanders : s.globals.expanders = []) : Frame [] [] scope s := by
  refine ⟨hexpanders, ?_, ?_, ?_, ?_, ?_⟩ <;> simp [hlocals, hshadows]

theorem Frame.grown (h : Frame env vars scope s) (hs : Grown s s') : Frame env vars scope s' where
  expanders := hs.expanders.trans h.expanders
  lookup := h.lookup
  locals n hn := Nat.le_trans (h.locals n hn) hs.drawn
  shadowed := h.shadowed
  shadows e he := ⟨(h.shadows e he).1, Nat.le_trans (h.shadows e he).2 hs.drawn⟩
  vars v hv := ⟨Nat.le_trans (h.vars v hv).1 hs.drawn, (h.vars v hv).2⟩

theorem Frame.withContext (h : Frame env vars scope s) (c : Context) :
    Frame env vars (scope.withContext c) s :=
  ⟨h.expanders, h.lookup, h.locals, h.shadowed, h.shadows, h.vars⟩

/-- What a local name stands for was drawn before or is a name of a local. -/
theorem Frame.variableOf (h : Frame env vars scope s) {n : Symbol} (hn : n ∈ scope.locals) :
    (scope.variableOf n).generation ≤ s.drawn ∧
      ((scope.variableOf n).generated = false → scope.variableOf n ∈ scope.locals) := by
  rcases scope.variableOf_eq_or_mem n with heq | ⟨e, he, heq⟩
  · rw [heq]
    exact ⟨h.locals n hn, fun _ => hn⟩
  · rw [heq]
    refine ⟨(h.shadows e he).2, fun hg => ?_⟩
    rw [(h.shadows e he).1] at hg
    cases hg

theorem Frame.entered (h : Frame env vars scope s) {n : Node} (hn : n.scope = scope) :
    Frame env (n.entered vars) scope s := by
  refine { h with vars := ?_ }
  unfold Node.entered
  split
  · rw [hn]
    intro v hv
    obtain ⟨m, hm, rfl⟩ := scope.mem_vars.1 hv
    exact h.variableOf hm
  · exact h.vars

/-- A name that is not local gets the variable of its own name. -/
theorem Frame.bind (h : Frame env vars scope s) {name : Symbol} (hnew : name ∉ scope.locals)
    (havail : Available scope vars s name) :
    name ∉ vars ∧ Frame ((name, name) :: env) (name :: vars) (scope.bind [name]) s := by
  -- a written name at hand would be local, and a drawn one may be bound
  have hout : name ∉ vars ∧ name.generation ≤ s.drawn := by
    by_cases hg : name.generated = true
    · exact (havail hg).resolve_left hnew
    · have hzero := Symbol.generation_eq_zero hg
      exact ⟨fun hv => hnew ((h.vars name hv).2 (Bool.eq_false_iff.2 hg)), by omega⟩
  have hlocals : ∀ m, m ∈ (scope.bind [name]).locals ↔ m ∈ scope.locals ∨ m = name := by
    intro m
    rw [scope.mem_locals_bind, List.mem_singleton]
  refine ⟨hout.1, h.expanders, fun m => ?_, fun m hm => ?_, fun e he => ?_, h.shadows, ?_⟩
  · by_cases hm : m = name
    · rw [hm, List.lookup_cons_self, if_pos ((hlocals name).2 (.inr rfl))]
      exact congrArg some (scope.variableOf_of_not_local h.shadowed hnew).symm
    · simp only [List.lookup_cons, beq_eq_false_iff_ne.2 hm, h.lookup, hlocals, or_iff_left hm]
      rfl
  · rcases (hlocals m).1 hm with hm | rfl
    · exact h.locals m hm
    · exact hout.2
  · exact (hlocals e.1).2 (.inl (h.shadowed e he))
  · refine List.forall_mem_cons.2 ⟨⟨hout.2, fun _ => (hlocals name).2 (.inr rfl)⟩, fun v hv => ?_⟩
    exact ⟨(h.vars v hv).1, fun hg => (hlocals v).2 (.inl ((h.vars v hv).2 hg))⟩

/-- A local name gets a variable that is drawn for it. -/
theorem Frame.shadow (h : Frame env vars scope s) {name : Symbol} (hlocal : name ∈ scope.locals) :
    .fresh (s.drawn + 1) ∉ vars ∧
      Frame ((name, .fresh (s.drawn + 1)) :: env) (.fresh (s.drawn + 1) :: vars)
        (scope.shadow name (.fresh (s.drawn + 1))) (s.drawnTo (s.drawn + 1)) := by
  have hlater := h.grown (grown_drawnTo (Nat.le_succ s.drawn))
  refine ⟨fun hv => ?_, h.expanders, fun m => ?_, hlater.locals, fun e he => ?_, fun e he => ?_, ?_⟩
  · exact absurd (h.vars _ hv).1 (Nat.not_succ_le_self _)
  · by_cases hm : m = name
    · rw [hm, List.lookup_cons_self, Scope.variableOf_shadow_self, Scope.locals_shadow,
        if_pos hlocal]
    · simp only [List.lookup_cons, beq_eq_false_iff_ne.2 hm, h.lookup, Scope.locals_shadow,
        scope.variableOf_shadow_of_ne hm]
  · rcases List.mem_cons.1 he with rfl | he
    · exact hlocal
    · exact h.shadowed e (List.mem_filter.1 he).1
  · rcases List.mem_cons.1 he with rfl | he
    · exact ⟨rfl, Nat.le_refl _⟩
    · exact hlater.shadows e (List.mem_filter.1 he).1
  · exact List.forall_mem_cons.2 ⟨⟨Nat.le_refl _, fun hg => by cases hg⟩, hlater.vars⟩

/-- **A name is bound to a variable that is not at hand,** and stands for it from then on. -/
theorem Frame.name (h : Frame env vars scope s) {name var : Symbol}
    (hname : Rules.Name name scope s var inner s') (havail : Available scope vars s name) :
    var ∉ vars ∧ Frame ((name, var) :: env) (var :: vars) inner s' := by
  cases hname with
  | own hlocal => exact h.bind (scope.isLocal_eq_false_iff.1 hlocal) havail
  | shadow hlocal => exact h.shadow (scope.isLocal_iff.1 hlocal)

theorem lookup_params (params : List Symbol) (n : Symbol) :
    (params.map fun p => (p, p)).lookup n = if n ∈ params then some n else none := by
  induction params with
  | nil => rfl
  | cons p params ih =>
    by_cases hp : n = p
    · subst hp
      simp
    · simp [List.lookup_cons, beq_eq_false_iff_ne.2 hp, ih, hp]

/-- In a function the parameters stand for themselves. -/
theorem Frame.function (h : Frame env vars scope s) {params : List Symbol}
    (hparams : ∀ p ∈ params, p.generation ≤ s.drawn) :
    Frame (params.map (fun p => (p, p)) ++ env) (params ++ scope.captured params)
      ((scope.unshadow params).bind params) s := by
  have hlocals : ∀ n, n ∈ ((scope.unshadow params).bind params).locals ↔
      n ∈ scope.locals ∨ n ∈ params := fun n => Scope.mem_locals_bind _
  refine ⟨h.expanders, fun n => ?_, fun n hn => ?_, fun e he => ?_, fun e he => ?_,
    List.forall_mem_append.2 ⟨fun p hp => ?_, fun v hv => ?_⟩⟩
  · show _ = if _ then some ((scope.unshadow params).variableOf n) else none
    rw [List.lookup_append, lookup_params, h.lookup]
    by_cases hp : n ∈ params
    · rw [if_pos hp, if_pos ((hlocals n).2 (.inr hp)), scope.variableOf_unshadow_of_mem hp]
      rfl
    · have hiff : n ∈ ((scope.unshadow params).bind params).locals ↔ n ∈ scope.locals := by
        rw [hlocals]
        exact or_iff_left hp
      rw [if_neg hp, scope.variableOf_unshadow_of_not_mem hp]
      simp only [hiff, Option.none_or]
  · rcases (hlocals n).1 hn with hn | hn
    · exact h.locals n hn
    · exact hparams n hn
  · exact (hlocals e.1).2 (.inl (h.shadowed e (List.mem_filter.1 he).1))
  · exact h.shadows e (List.mem_filter.1 he).1
  · exact ⟨hparams p hp, fun _ => (hlocals p).2 (.inr hp)⟩
  · obtain ⟨n, hn, -, rfl⟩ := scope.mem_captured.1 hv
    exact ⟨(h.variableOf hn).1, fun hg => (hlocals _).2 (.inl ((h.variableOf hn).2 hg))⟩

theorem locals_of_name {name var : Symbol} (h : Rules.Name name scope s var inner s') :
    name ∈ inner.locals ∧ ∀ n ∈ scope.locals, n ∈ inner.locals := by
  cases h with
  | own =>
    exact ⟨scope.mem_locals_bind.2 (.inr List.mem_cons_self),
      fun n hn => scope.mem_locals_bind.2 (.inl hn)⟩
  | shadow hlocal => exact ⟨scope.isLocal_iff.1 hlocal, fun n hn => hn⟩

theorem Available.grown {n : Symbol} (h : Available scope vars s n) (hs : Grown s s') :
    Available scope vars s' n :=
  fun hg => (h hg).imp id fun ⟨hout, hle⟩ => ⟨hout, Nat.le_trans hle hs.drawn⟩

/-- A name that may be bound next may still be bound after another one. -/
theorem Available.name {n name var : Symbol} (h : Available scope vars s n)
    (hname : Rules.Name name scope s var inner s') : Available inner (var :: vars) s' n := by
  intro hg
  rcases h hg with hlocal | ⟨hout, hle⟩
  · exact .inl ((locals_of_name hname).2 n hlocal)
  cases hname with
  | own hlocal =>
    by_cases hn : n = name
    · exact .inl (scope.mem_locals_bind.2 (.inr (List.mem_singleton.2 hn)))
    · exact .inr ⟨List.not_mem_cons_of_ne_of_not_mem hn hout, hle⟩
  | shadow hlocal =>
    refine .inr ⟨List.not_mem_cons_of_ne_of_not_mem ?_ hout, Nat.le_succ_of_le hle⟩
    rintro rfl
    exact absurd hle (Nat.not_succ_le_self _)

end Frame

/-! ### What analysis yields -/

/-- What is said of forms whose drawn symbols are all local: names are resolved lexically, and no
variable is clobbered. -/
def Resolves : Judgement := fun f scope s n s' =>
  Grown s s' ∧ ∀ {env vars}, Frame env vars scope s → f.Known scope.locals →
    Lexical.Resolved env f n ∧ n.Everywhere Node.Unclobbered vars

section Constructs
variable {env : Lexical.Env} {vars : List Symbol} {scope : Scope} {span : Option Span}
variable {s s' : State} {n : Node}

/-- A construct that sets no variable and is not written as a function. -/
theorem unclobbered_node (halloc : n.allocated = []) (hwrapped : n.wrapped = false)
    (hparts : n.parts vars = n.children.map fun c => (n.entered vars, c))
    (hc : ∀ c ∈ n.children, c.Everywhere Node.Unclobbered vars) :
    n.Everywhere Node.Unclobbered vars := by
  refine .node (Node.unclobbered_of_allocated_eq_nil halloc) hparts ?_
  rw [Node.entered, hwrapped]
  exact hc

theorem unclobbered_leaf (halloc : n.allocated = []) (hc : n.children = []) :
    n.Everywhere Node.Unclobbered vars :=
  .leaf (Node.unclobbered_of_allocated_eq_nil halloc) hc

open Rules

theorem resolves_all {fs : List Form} {ns : List Node} (h : All Resolves scope fs s ns s')
    (hframe : Frame env vars scope s) (hfs : ∀ f ∈ fs, f.Known scope.locals) :
    Lexical.AllResolved env fs ns ∧ ∀ n ∈ ns, n.Everywhere Node.Unclobbered vars := by
  induction h with
  | nil => exact ⟨.nil, by simp⟩
  | cons hf _ ih =>
    obtain ⟨hhead, htail⟩ := List.forall_mem_cons.1 hfs
    have hone := hf.2 hframe hhead
    have hrest := ih (hframe.grown hf.1) htail
    exact ⟨.cons hone.1 hrest.1, List.forall_mem_cons.2 ⟨hone.2, hrest.2⟩⟩

theorem resolves_statements {fs : List Form} {position : Nat} {ns : List Node}
    (h : Statements Resolves span scope fs position s ns s') (hframe : Frame env vars scope s)
    (hfs : ∀ f ∈ fs, f.Known scope.locals) :
    Lexical.AllResolved env fs ns ∧ ∀ n ∈ ns, n.Everywhere Node.Unclobbered vars := by
  induction h with
  | nil => exact ⟨.nil, by simp⟩
  | @cons f fs position s n s₁ ns s₂ hf _ ih =>
    obtain ⟨hhead, htail⟩ := List.forall_mem_cons.1 hfs
    have hframe := hframe.grown (grown_noting f position span)
    have hone := hf.2 hframe hhead
    have hrest := ih (hframe.grown hf.1) htail
    exact ⟨.cons hone.1 hrest.1, List.forall_mem_cons.2 ⟨hone.2, hrest.2⟩⟩

theorem resolves_block {fs : List Form} (h : Block Resolves scope span fs s n s')
    (hframe : Frame env vars scope s) (hfs : ∀ f ∈ fs, f.Known scope.locals) :
    Lexical.BlockResolved env fs n ∧ n.Everywhere Node.Unclobbered vars := by
  have hentered : Frame env (n.entered vars) scope s := hframe.entered (by cases h <;> rfl)
  cases h with
  | empty =>
    refine ⟨.empty, .node (Node.unclobbered_of_allocated_eq_nil rfl) rfl ?_⟩
    exact List.forall_mem_singleton.2 (unclobbered_leaf rfl rfl)
  | @single f _ n s₁ hf =>
    have hone := hf.2 hentered (hfs _ List.mem_cons_self)
    have hforms : Lexical.BlockResolved env ([] ++ [f]) (.block [] n (s₁.info scope span)) :=
      .forms .nil hone.1
    refine ⟨hforms, .node (Node.unclobbered_of_allocated_eq_nil rfl) rfl ?_⟩
    exact List.forall_mem_singleton.2 hone.2
  | sequence _ hs hf =>
    obtain ⟨hfs, hlast⟩ := List.forall_mem_append.1 hfs
    have hstmts := resolves_statements hs (hentered.withContext _) hfs
    have hgrown := grown_statements (fun h => h.1) hs
    have hone := hf.2 ((hentered.grown hgrown).withContext _) (hlast _ List.mem_cons_self)
    refine ⟨.forms hstmts.1 hone.1, .node (Node.unclobbered_of_allocated_eq_nil rfl) rfl ?_⟩
    exact List.forall_mem_append.2 ⟨hstmts.2, List.forall_mem_singleton.2 hone.2⟩

/-- Bindings that are right: they lead from the binders and variables before them to those after
them. -/
structure ValuesRight (env : Lexical.Env) (vars : List Symbol) (scope : Scope)
    (flat : List (Symbol × Form)) (bs : List (Binding Node)) (after : Lexical.Env)
    (varsAfter : List Symbol) (last : Scope) (s' : State) : Prop where
  resolved : Lexical.ValuesResolved env flat bs after
  frame : Frame after varsAfter last s'
  locals : ∀ n ∈ scope.locals, n ∈ last.locals
  nodup : (bs.map Binding.var).Nodup
  new : ∀ v ∈ bs.map Binding.var, v ∉ vars
  parts : ∀ body : Node, body.Everywhere Node.Unclobbered varsAfter →
    ∀ p ∈ Node.bindingParts vars bs body, p.2.Everywhere Node.Unclobbered p.1

theorem resolves_values {flat : List (Symbol × Form)} {bs : List (Binding Node)} {last : Scope}
    (h : Values Resolves flat scope s bs last s') (hframe : Frame env vars scope s)
    (hsupplied : Pattern.Supplied scope.locals flat)
    (havail : ∀ e ∈ flat, Available scope vars s e.1) :
    ∃ after varsAfter, ValuesRight env vars scope flat bs after varsAfter last s' := by
  induction h generalizing env vars with
  | nil =>
    exact ⟨env, vars, .nil, hframe, fun _ => id, List.nodup_nil, by simp,
      fun body hbody => List.forall_mem_singleton.2 hbody⟩
  | @cons name f rest scope s init s₁ var inner s₂ bs last s₃ hf hname _ ih =>
    obtain ⟨hfirst, hrest⟩ := List.forall_mem_cons.1 havail
    have hone := hf.2 (hframe.withContext .expression) hsupplied.1
    obtain ⟨hnew, hinner⟩ := (hframe.grown hf.1).name hname (hfirst.grown hf.1)
    obtain ⟨hin, hlocals⟩ := locals_of_name hname
    have hmore : Pattern.Supplied inner.locals rest :=
      hsupplied.2.mono (List.forall_mem_cons.2 ⟨hin, hlocals⟩)
    obtain ⟨after, varsAfter, hright⟩ := ih hinner hmore fun e he =>
      ((hrest e he).grown hf.1).name hname
    refine ⟨after, varsAfter, .cons hone.1 hright.resolved, hright.frame,
      fun m hm => hright.locals m (hlocals m hm), ?_, ?_, fun body hbody => ?_⟩
    · refine List.nodup_cons.2 ⟨fun hmem => ?_, hright.nodup⟩
      exact hright.new var hmem List.mem_cons_self
    · refine List.forall_mem_cons.2 ⟨hnew, fun v hv hmem => ?_⟩
      exact hright.new v hv (List.mem_cons_of_mem var hmem)
    · exact List.forall_mem_cons.2 ⟨hone.2, hright.parts body hbody⟩

theorem resolves_let {pairs : List (Form × Form)} {body : List Form}
    (h : Let Resolves pairs body scope span s n s') (hframe : Frame env vars scope s)
    (hpairs : ∀ e ∈ pairs, e.1.Known scope.locals ∧ e.2.Known scope.locals)
    (hbody : ∀ f ∈ body, f.Known scope.locals) :
    Lexical.LetResolved env pairs body n ∧ n.Everywhere Node.Unclobbered vars := by
  have hentered : Frame env (n.entered vars) scope s := hframe.entered (by cases h; rfl)
  cases h with
  | @intro b bs inner s₁ node s₂ hb hvalues hblock =>
    obtain ⟨hle, holders, hexp, hbounds⟩ := Pattern.expands_bindAll hb
    obtain ⟨hsupplied, hnames⟩ := hexp.ordered hpairs
    obtain ⟨after, varsAfter, hright⟩ :=
      resolves_values hvalues (hentered.grown (grown_drawnTo hle)) hsupplied (by
        -- a holder was drawn after all variables at hand
        intro e he hg
        refine (hnames e he hg).imp id fun hholder => ⟨fun hmem => ?_, (hbounds _ hholder).2⟩
        have hearly := (hentered.vars _ hmem).1
        have hlate := (hbounds _ hholder).1
        omega)
    have hlast := resolves_block hblock (hright.frame.withContext _) fun f hf =>
      (hbody f hf).mono hright.locals
    exact ⟨.intro hexp hright.resolved hlast.1,
      .intro ⟨hright.nodup, hright.new⟩ (hright.parts node hlast.2)⟩

theorem resolves_body {patterns : List (Form × Form)} {body : List Form}
    (h : Body Resolves patterns body scope span s n s') (hframe : Frame env vars scope s)
    (hpatterns : ∀ e ∈ patterns, e.1.Known scope.locals ∧ e.2.Known scope.locals)
    (hbody : ∀ f ∈ body, f.Known scope.locals) :
    Lexical.BodyResolved env patterns body n ∧ n.Everywhere Node.Unclobbered vars := by
  cases h with
  | plain hnil h =>
    subst hnil
    have hblock := resolves_block h hframe hbody
    exact ⟨.plain hblock.1, hblock.2⟩
  | patterns hne h =>
    have hlet := resolves_let h hframe hpatterns hbody
    exact ⟨.patterns hne hlet.1, hlet.2⟩

/-- A name that is bound, with the patterns to be taken from it. -/
structure NameRight (scope : Scope) (vars : List Symbol) (n : Symbol) (ps : List (Form × Form))
    (s' : State) : Prop where
  drawn : n.generation ≤ s'.drawn
  available : Available scope vars s' n
  known : ∀ names, n ∈ names → (∀ x ∈ scope.locals, x ∈ names) →
    ∀ e ∈ ps, e.1.Known names ∧ e.2.Known names

theorem resolves_binder {f : Form} {name : Symbol} {ps : List (Form × Form)}
    (h : Binder f s name ps s') (hframe : Frame env vars scope s) (hf : f.Known scope.locals)
    (others : List Symbol) (hothers : ∀ x ∈ others, x.generation ≤ s.drawn) :
    Lexical.Bound others f name ps ∧ NameRight scope vars name ps s' := by
  cases h with
  | name hplain =>
    have hlocal : name.generated = true → name ∈ scope.locals := hf name (by simp [Form.symbols])
    refine ⟨.name hplain, ?_, fun hg => .inl (hlocal hg), by simp⟩
    by_cases hg : name.generated = true
    · exact hframe.locals name (hlocal hg)
    · have hzero := Symbol.generation_eq_zero hg
      omega
  | pattern hpattern =>
    have hlate : ∀ x : Symbol, x.generation ≤ s.drawn → x ≠ .fresh (s.drawn + 1) := by
      rintro x hle rfl
      exact absurd hle (Nat.not_succ_le_self _)
    refine ⟨.pattern hpattern rfl fun hmem => hlate _ (hothers _ hmem) rfl, Nat.le_refl _,
      fun _ => .inr ⟨fun hmem => hlate _ (hframe.vars _ hmem).1 rfl, Nat.le_refl _⟩,
      fun names hname hlocals => List.forall_mem_singleton.2 ⟨hf.mono hlocals, ?_⟩⟩
    exact Form.known_symbol fun _ => hname

theorem resolves_binders {fs : List Form} {names : List Symbol} {ps : List (Form × Form)}
    (h : Binders fs s names ps s') (hframe : Frame env vars scope s)
    (hfs : ∀ f ∈ fs, f.Known scope.locals) (others : List Symbol)
    (hothers : ∀ x ∈ others, x.generation ≤ s.drawn) :
    Lexical.AllBound others fs names ps ∧ (∀ n ∈ names, n.generation ≤ s'.drawn) ∧
      ∀ all, (∀ n ∈ names, n ∈ all) → (∀ x ∈ scope.locals, x ∈ all) →
        ∀ e ∈ ps, e.1.Known all ∧ e.2.Known all := by
  induction h generalizing others with
  | nil => exact ⟨.nil, by simp, by simp⟩
  | @cons f fs s n ps s₁ ns qs s₂ hf hrest ih =>
    obtain ⟨hhead, htail⟩ := List.forall_mem_cons.1 hfs
    have hgrown := grown_binder hf
    obtain ⟨hbound, hright⟩ := resolves_binder hf hframe hhead others hothers
    obtain ⟨hall, hdrawn, hknown⟩ := ih (hframe.grown hgrown) htail (n :: others) (List.forall_mem_cons.2
      ⟨hright.drawn, fun x hx => Nat.le_trans (hothers x hx) hgrown.drawn⟩)
    refine ⟨.cons hbound hall, List.forall_mem_cons.2
      ⟨Nat.le_trans hright.drawn (grown_binders hrest).drawn, hdrawn⟩, fun all hnames hlocals => ?_⟩
    obtain ⟨hn, hns⟩ := List.forall_mem_cons.1 hnames
    exact List.forall_mem_append.2 ⟨hright.known all hn hlocals, hknown all hns hlocals⟩

theorem resolves_params {fs : List Form} {ps : Parameters} (h : Params fs s ps s')
    (hframe : Frame env vars scope s) (hfs : ∀ f ∈ fs, f.Known scope.locals) :
    Lexical.ParamsBound fs ps.names ps.variadic ps.patterns ∧
      (∀ n ∈ ps.names, n.generation ≤ s'.drawn) ∧
      ∀ all, (∀ n ∈ ps.names, n ∈ all) → (∀ x ∈ scope.locals, x ∈ all) →
        ∀ e ∈ ps.patterns, e.1.Known all ∧ e.2.Known all := by
  cases h with
  | fixed hmarkers h =>
    obtain ⟨hall, hrest⟩ := resolves_binders h hframe hfs [] (by simp)
    exact ⟨.fixed hmarkers hall, hrest⟩
  | variadic hmarkers hmarker h =>
    obtain ⟨hfront, hback⟩ := List.forall_mem_append.1 hfs
    obtain ⟨hall, hrest⟩ := resolves_binders h hframe (List.forall_mem_append.2
      ⟨hfront, List.forall_mem_singleton.2 (hback _ (by simp))⟩) [] (by simp)
    exact ⟨.variadic hmarkers hmarker hall, hrest⟩

theorem resolves_target {f : Form} {static : Bool} (h : Target Resolves scope f static s n s')
    (hframe : Frame env vars scope s) (hf : f.Known scope.locals) :
    Lexical.TargetResolved env f static n ∧ n.Everywhere Node.Unclobbered vars := by
  cases h with
  | className => exact ⟨.className, unclobbered_leaf rfl rfl⟩
  | form h =>
    have hone := h.2 hframe hf
    exact ⟨.form hone.1, hone.2⟩

theorem resolves_part {f : Form} {method : Bool} (h : Part Resolves scope f method s n s')
    (hframe : Frame env vars scope s) (hf : f.Known scope.locals) :
    Lexical.PartResolved env f method n ∧ n.Everywhere Node.Unclobbered vars := by
  cases h with
  | method h =>
    obtain ⟨-, hargs⟩ := List.forall_mem_cons.1 (Form.known_tuple.1 hf)
    have hall := resolves_all h hframe hargs
    exact ⟨.method hall.1, unclobbered_node rfl rfl rfl hall.2⟩
  | property => exact ⟨.property, unclobbered_leaf rfl rfl⟩

theorem resolves_loop {v collection : Form} {body : List Form} {value valueVar : Symbol}
    {patterns : List (Form × Form)} {inner : Scope} {s₁ s₂ s₃ s₄ : State} {coll node : Node}
    (hb : Binder v s value patterns s₁) (hcoll : Resolves collection scope.operand s₁ coll s₂)
    (hname : Name value scope s₂ valueVar inner s₃)
    (h : Body Resolves patterns body (inner.withContext .statement) span s₃ node s₄)
    (hframe : Frame env vars scope s) (hv : v.Known scope.locals)
    (hcollection : collection.Known scope.locals) (hbody : ∀ f ∈ body, f.Known scope.locals)
    {d : Delimiter} {headSpan : Option Span} {i : Node.Info} (hi : i.scope = scope) :
    Lexical.SpecialResolved env .loop (.tuple d [v, collection] headSpan :: body)
        (.loop valueVar none coll node i) ∧
      (Node.loop valueVar none coll node i).Everywhere Node.Unclobbered vars := by
  have hentered := hframe.entered (n := .loop valueVar none coll node i) hi
  obtain ⟨hbound, hright⟩ := resolves_binder hb hentered hv [] (by simp)
  have hbefore := hentered.grown (grown_binder hb)
  have hcoll' := hcoll.2 (hbefore.withContext .expression) hcollection
  obtain ⟨hnew, hinner⟩ := (hbefore.grown hcoll.1).name hname (hright.available.grown hcoll.1)
  obtain ⟨hin, hlocals⟩ := locals_of_name hname
  have hnode := resolves_body h (hinner.withContext .statement) (hright.known _ hin hlocals)
    fun f hf => (hbody f hf).mono hlocals
  refine ⟨.loop hbound hcoll'.1 hnode.1, .intro ⟨?_, ?_⟩ (List.forall_mem_cons.2 ⟨hcoll'.2, ?_⟩)⟩
  · simp [Node.allocated]
  · exact List.forall_mem_singleton.2 hnew
  · exact List.forall_mem_singleton.2 hnode.2

theorem resolves_loopKey {k v collection : Form} {body : List Form}
    {key value keyVar valueVar : Symbol} {keyPatterns valuePatterns : List (Form × Form)}
    {inner inner' : Scope} {s₁ s₂ s₃ s₄ s₅ s₆ : State} {coll node : Node}
    (hk : Binder k s key keyPatterns s₁) (hb : Binder v s₁ value valuePatterns s₂)
    (hcoll : Resolves collection scope.operand s₂ coll s₃)
    (hname : Name value scope s₃ valueVar inner s₄) (hkey : Name key inner s₄ keyVar inner' s₅)
    (h : Body Resolves (keyPatterns ++ valuePatterns) body (inner'.withContext .statement) span s₅
      node s₆)
    (hframe : Frame env vars scope s) (hk' : k.Known scope.locals) (hv : v.Known scope.locals)
    (hcollection : collection.Known scope.locals) (hbody : ∀ f ∈ body, f.Known scope.locals)
    {d : Delimiter} {headSpan : Option Span} {i : Node.Info} (hi : i.scope = scope) :
    Lexical.SpecialResolved env .loop (.tuple d [k, v, collection] headSpan :: body)
        (.loop valueVar (some keyVar) coll node i) ∧
      (Node.loop valueVar (some keyVar) coll node i).Everywhere Node.Unclobbered vars := by
  have hentered := hframe.entered (n := .loop valueVar (some keyVar) coll node i) hi
  obtain ⟨hkeyBound, hkeyRight⟩ := resolves_binder hk hentered hk' [] (by simp)
  have hgrown := grown_binder hb
  have hafter := hentered.grown (grown_binder hk)
  obtain ⟨hbound, hright⟩ := resolves_binder hb hafter hv [key]
    (List.forall_mem_singleton.2 hkeyRight.drawn)
  have hbefore := hafter.grown hgrown
  have hcoll' := hcoll.2 (hbefore.withContext .expression) hcollection
  obtain ⟨hnew, hinner⟩ := (hbefore.grown hcoll.1).name hname (hright.available.grown hcoll.1)
  obtain ⟨hkeyNew, hinner'⟩ := hinner.name hkey
    (((hkeyRight.available.grown hgrown).grown hcoll.1).name hname)
  obtain ⟨hin, hlocals⟩ := locals_of_name hname
  obtain ⟨hkeyIn, hlocals'⟩ := locals_of_name hkey
  have hall : ∀ x ∈ scope.locals, x ∈ inner'.locals := fun x hx => hlocals' x (hlocals x hx)
  have hnode := resolves_body h (hinner'.withContext .statement) (List.forall_mem_append.2
    ⟨hkeyRight.known _ hkeyIn hall, hright.known _ (hlocals' _ hin) hall⟩)
    fun f hf => (hbody f hf).mono hall
  refine ⟨.loopKey hkeyBound hbound hcoll'.1 hnode.1,
    .intro ⟨?_, ?_⟩ (List.forall_mem_cons.2 ⟨hcoll'.2, ?_⟩)⟩
  · have hne : valueVar ≠ keyVar := fun heq => hkeyNew (heq ▸ List.mem_cons_self)
    simp [Node.allocated, hne]
  · refine List.forall_mem_cons.2 ⟨hnew, List.forall_mem_singleton.2 fun hmem => ?_⟩
    exact hkeyNew (List.mem_cons_of_mem _ hmem)
  · exact List.forall_mem_singleton.2 hnode.2

theorem resolves_function {forms body : List Form} {ps : Parameters} {s₁ s₂ : State} {node : Node}
    (hps : Params forms s ps s₁)
    (h : Body Resolves ps.patterns body (((scope.unshadow ps.names).bind ps.names).withContext
      .result) span s₁ node s₂)
    (hframe : Frame env vars scope s) (hforms : ∀ f ∈ forms, f.Known scope.locals)
    (hbody : ∀ f ∈ body, f.Known scope.locals) {d : Delimiter} {headSpan : Option Span}
    {i : Node.Info} :
    Lexical.SpecialResolved env .function (.tuple d forms headSpan :: body)
        (.function ps.names ps.variadic (scope.captured ps.names) node i) ∧
      (Node.function ps.names ps.variadic (scope.captured ps.names) node i).Everywhere
        Node.Unclobbered vars := by
  obtain ⟨hbound, hdrawn, hknown⟩ := resolves_params hps hframe hforms
  have hinner := (hframe.grown (grown_params hps)).function hdrawn
  have hlocals : ∀ x, x ∈ scope.locals ∨ x ∈ ps.names →
      x ∈ ((scope.unshadow ps.names).bind ps.names).locals :=
    fun x => (Scope.mem_locals_bind _).2
  have hnode := resolves_body h (hinner.withContext .result)
    (hknown _ (fun x hx => hlocals x (.inr hx)) fun x hx => hlocals x (.inl hx))
    fun f hf => (hbody f hf).mono fun x hx => hlocals x (.inl hx)
  refine ⟨.function hbound hnode.1, .intro (Node.unclobbered_of_allocated_eq_nil rfl) ?_⟩
  exact List.forall_mem_singleton.2 hnode.2

theorem resolves_special {form : SpecialForm} {args : List Form}
    (h : Special Resolves scope span form args s n s') (hframe : Frame env vars scope s)
    (hargs : ∀ f ∈ args, f.Known scope.locals) :
    Lexical.SpecialResolved env form args n ∧ n.Everywhere Node.Unclobbered vars := by
  have hoperand := hframe.withContext .expression
  cases h with
  | quote => exact ⟨.quote, unclobbered_leaf rfl rfl⟩
  | block h =>
    have hblock := resolves_block h hframe hargs
    exact ⟨.block hblock.1, hblock.2⟩
  | branch hc ht =>
    have hyes := hargs _ (List.mem_cons_of_mem _ List.mem_cons_self)
    have hc' := hc.2 hoperand (hargs _ List.mem_cons_self)
    have ht' := ht.2 (hframe.grown hc.1) hyes
    refine ⟨.branch hc'.1 ht'.1, unclobbered_node rfl rfl rfl (List.forall_mem_cons.2 ⟨hc'.2, ?_⟩)⟩
    exact List.forall_mem_cons.2 ⟨ht'.2, List.forall_mem_singleton.2 (unclobbered_leaf rfl rfl)⟩
  | branchElse hc ht he =>
    have hc' := hc.2 hoperand (hargs _ (by simp))
    have ht' := ht.2 (hframe.grown hc.1) (hargs _ (by simp))
    have he' := he.2 ((hframe.grown hc.1).grown ht.1) (hargs _ (by simp))
    refine ⟨.branchElse hc'.1 ht'.1 he'.1,
      unclobbered_node rfl rfl rfl (List.forall_mem_cons.2 ⟨hc'.2, ?_⟩)⟩
    exact List.forall_mem_cons.2 ⟨ht'.2, List.forall_mem_singleton.2 he'.2⟩
  | bindings hpairs h =>
    obtain ⟨hhead, hbody⟩ := List.forall_mem_cons.1 hargs
    have hforms := Form.known_tuple.1 hhead
    have hlet := resolves_let h hframe (fun e he => ⟨hforms _ (mem_of_pairUp hpairs e he).1,
      hforms _ (mem_of_pairUp hpairs e he).2⟩) hbody
    exact ⟨.bindings hpairs hlet.1, hlet.2⟩
  | function hps h =>
    obtain ⟨hhead, hbody⟩ := List.forall_mem_cons.1 hargs
    exact resolves_function hps h hframe (Form.known_tuple.1 hhead) hbody
  | definition _ h =>
    have hvalue := h.2 (hoperand.grown (grown_announcing _ _ _)) (hargs _ (by simp))
    exact ⟨.definition hvalue.1, unclobbered_node rfl rfl rfl (List.forall_mem_singleton.2 hvalue.2)⟩
  | loop hb hcoll hname h =>
    obtain ⟨hhead, hbody⟩ := List.forall_mem_cons.1 hargs
    have hhead := Form.known_tuple.1 hhead
    exact resolves_loop hb hcoll hname h hframe (hhead _ (by simp)) (hhead _ (by simp)) hbody rfl
  | loopKey hk hb hcoll hname hkey h =>
    obtain ⟨hhead, hbody⟩ := List.forall_mem_cons.1 hargs
    have hhead := Form.known_tuple.1 hhead
    exact resolves_loopKey hk hb hcoll hname hkey h hframe (hhead _ (by simp)) (hhead _ (by simp))
      (hhead _ (by simp)) hbody rfl
  | throw h =>
    have hx := h.2 hoperand (hargs _ List.mem_cons_self)
    exact ⟨.throw hx.1, unclobbered_node rfl rfl rfl (List.forall_mem_singleton.2 hx.2)⟩
  | new hc hnodes =>
    obtain ⟨hhead, htail⟩ := List.forall_mem_cons.1 hargs
    have hc' := hc.2 hoperand hhead
    have hall := resolves_all hnodes (hoperand.grown hc.1) htail
    exact ⟨.new hc'.1 hall.1,
      unclobbered_node rfl rfl rfl (List.forall_mem_cons.2 ⟨hc'.2, hall.2⟩)⟩
  | member ht hc =>
    have ht' := resolves_target ht hoperand (hargs _ (by simp))
    have hc' := resolves_part hc (hoperand.grown (grown_target (fun h => h.1) ht)) (hargs _ (by simp))
    refine ⟨.member ht'.1 hc'.1, unclobbered_node rfl rfl rfl ?_⟩
    exact List.forall_mem_cons.2 ⟨ht'.2, List.forall_mem_singleton.2 hc'.2⟩
  | staticMember ht hc =>
    have ht' := resolves_target ht hoperand (hargs _ (by simp))
    have hc' := resolves_part hc (hoperand.grown (grown_target (fun h => h.1) ht)) (hargs _ (by simp))
    refine ⟨.staticMember ht'.1 hc'.1, unclobbered_node rfl rfl rfl ?_⟩
    exact List.forall_mem_cons.2 ⟨ht'.2, List.forall_mem_singleton.2 hc'.2⟩
  | arrayGet ha hi =>
    have ha' := ha.2 hoperand (hargs _ (by simp))
    have hi' := hi.2 (hoperand.grown ha.1) (hargs _ (by simp))
    refine ⟨.arrayGet ha'.1 hi'.1, unclobbered_node rfl rfl rfl ?_⟩
    exact List.forall_mem_cons.2 ⟨ha'.2, List.forall_mem_singleton.2 hi'.2⟩
  | arraySet ha hi hx =>
    have ha' := ha.2 hoperand (hargs _ (by simp))
    have hi' := hi.2 (hoperand.grown ha.1) (hargs _ (by simp))
    have hx' := hx.2 ((hoperand.grown ha.1).grown hi.1) (hargs _ (by simp))
    refine ⟨.arraySet ha'.1 hi'.1 hx'.1,
      unclobbered_node rfl rfl rfl (List.forall_mem_cons.2 ⟨ha'.2, ?_⟩)⟩
    exact List.forall_mem_cons.2 ⟨hi'.2, List.forall_mem_singleton.2 hx'.2⟩

theorem resolves_reference {symbol : Symbol} (h : Reference scope span symbol s n)
    (hframe : Frame env vars scope s) :
    Lexical.Resolved env (.symbol symbol span) n ∧ n.Everywhere Node.Unclobbered vars := by
  have hlookup := hframe.lookup symbol
  cases h with
  | host hh => exact ⟨.host hh, unclobbered_leaf rfl rfl⟩
  | className hh hc => exact ⟨.className hh hc, unclobbered_leaf rfl rfl⟩
  | localVar hh hc hl =>
    rw [if_pos (scope.isLocal_iff.1 hl)] at hlookup
    exact ⟨.bound hh hc hlookup, unclobbered_leaf rfl rfl⟩
  | globalVar hh hc hl =>
    rw [if_neg (scope.isLocal_eq_false_iff.1 hl)] at hlookup
    exact ⟨.free hh hc hlookup, unclobbered_leaf rfl rfl⟩

theorem known_flatten {names : List Symbol} {es : List (Form × Form)}
    (h : (Form.table es span).Known names) : ∀ f ∈ flatten es, f.Known names := by
  intro f hf
  obtain ⟨e, he, hf⟩ := List.mem_flatMap.1 hf
  obtain ⟨hk, hv⟩ := Form.known_table.1 h e he
  exact List.forall_mem_cons.2 ⟨hk, List.forall_mem_singleton.2 hv⟩ f hf

/-- **Names are resolved lexically if they are so in the parts of a form.** -/
theorem resolves_step {f : Form} (h : Step Resolves scope f s n s') : Resolves f scope s n s' := by
  refine ⟨grown_step (fun h => h.1) h, fun {env vars} hframe hf => ?_⟩
  have hoperand := hframe.withContext .expression
  cases h with
  | scalar hs => exact ⟨.scalar hs, unclobbered_leaf rfl rfl⟩
  | unit => exact ⟨.unit, unclobbered_leaf rfl rfl⟩
  | reference h => exact resolves_reference h hframe
  | special hform h =>
    obtain ⟨-, hargs⟩ := List.forall_mem_cons.1 (Form.known_tuple.1 hf)
    have hright := resolves_special h hframe hargs
    exact ⟨.special hform hright.1, hright.2⟩
  | expansion _ _ hr => exact absurd hr (resolve_ne_expander hframe.expanders _ _ _ _)
  | call hform _ _ _ hhead hnodes =>
    obtain ⟨hf, hargs⟩ := List.forall_mem_cons.1 (Form.known_tuple.1 hf)
    have hone := hhead.2 hoperand hf
    have hall := resolves_all hnodes (hoperand.grown hhead.1) hargs
    exact ⟨.call hform hone.1 hall.1,
      unclobbered_node rfl rfl rfl (List.forall_mem_cons.2 ⟨hone.2, hall.2⟩)⟩
  | tuple h =>
    have hall := resolves_all h hoperand (Form.known_tuple.1 hf)
    exact ⟨.tuple hall.1, unclobbered_node rfl rfl rfl hall.2⟩
  | table h =>
    have hall := resolves_all h hoperand (known_flatten hf)
    exact ⟨.table hall.1, unclobbered_node rfl rfl rfl hall.2⟩
  | set h =>
    have hall := resolves_all h hoperand (Form.known_set.1 hf)
    exact ⟨.set hall.1, unclobbered_node rfl rfl rfl hall.2⟩
  | array h =>
    have hall := resolves_all h hoperand (Form.known_array.1 hf)
    exact ⟨.array hall.1, unclobbered_node rfl rfl rfl hall.2⟩

end Constructs

/-- **Variables are allocated lexically.**  In a unit without macros and drawn symbols, whose scope
binds nothing, every name has the variable that was allocated to the innermost binder of that name
around it, and no `let` and no loop is allocated a variable that is at hand already in the function
around it. -/
theorem unit_lexical {forms : List Form} {scope : Scope} {s s' : State} {nodes : List Node}
    (hmacros : s.globals.expanders = [])
    (hforms : ∀ f ∈ forms, ∀ x ∈ f.symbols, x.generated = false)
    (hlocals : scope.locals = []) (hshadows : scope.shadows = [])
    (h : unit forms scope s = .ok nodes s') :
    Lexical.AllResolved [] forms nodes ∧ ∀ n ∈ nodes, n.Everywhere Node.Unclobbered [] := by
  refine resolves_all (unit_induction resolves_step h) (.nil hlocals hshadows hmacros) ?_
  intro f hf x hx hg
  rw [hforms f hf x hx] at hg
  cases hg

theorem unit_lexical_rebinding :
    (State.start default 0).globals.expanders = [] ∧
      (∀ f ∈ [rebindingForm], ∀ x ∈ f.symbols, x.generated = false) ∧
      Scope.empty.locals = [] ∧ Scope.empty.shadows = [] ∧
      ∃ nodes s, unit [rebindingForm] .empty (.start default 0) = .ok nodes s ∧
        Lexical.AllResolved [] [rebindingForm] nodes ∧
        ∀ n ∈ nodes, n.Everywhere Node.Unclobbered [] := by
  have hforms : ∀ f ∈ [rebindingForm], ∀ x ∈ f.symbols, x.generated = false := by decide
  refine ⟨rfl, hforms, rfl, rfl, ?_⟩
  have hok : (match unit [rebindingForm] .empty (.start default 0) with
      | .ok _ _ => true
      | .error _ _ => false) = true := by
    decide +kernel
  cases hrun : unit [rebindingForm] .empty (.start default 0) with
  | ok nodes s => exact ⟨nodes, s, rfl, unit_lexical rfl hforms rfl rfl hrun⟩
  | error e s =>
    rw [hrun] at hok
    cases hok

end Analysis

end LarkPhp
