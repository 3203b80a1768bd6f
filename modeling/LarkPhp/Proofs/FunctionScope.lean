import LarkPhp.Php.Code
import LarkPhp.Proofs.Rules
import LarkPhp.Proofs.Tree

/-!
Variables and the functions they belong to.

Variables of the host belong to a whole function: to the program itself, to the body of a `fn`, or
to a block that had to be written as a function that is called on the spot.  `Node.parts` follows
a tree downwards and keeps account of the variables that are at hand in the function around each
node.  Every variable that is read, or taken over into a function, is at hand there, since the names
of a scope always stand for variables at hand (`Covers`).
-/

namespace LarkPhp

/-! ### What names stand for -/

section Lookup
variable {κ α : Type} [BEq κ] [LawfulBEq κ] {p : κ × α → Bool} {n : κ}

theorem lookup_filter_of_pos (hp : ∀ v, p (n, v) = true) (es : List (κ × α)) :
    (es.filter p).lookup n = es.lookup n := by
  induction es with
  | nil => rfl
  | cons e es ih =>
    obtain ⟨m, v⟩ := e
    by_cases hm : n = m
    · subst hm
      rw [List.filter_cons_of_pos (hp v), List.lookup_cons_self, List.lookup_cons_self]
    · have hm : (n == m) = false := by simpa using hm
      rw [List.filter_cons]
      split <;> simp only [List.lookup_cons, hm, ih]

theorem lookup_filter_of_neg (hp : ∀ v, p (n, v) = false) (es : List (κ × α)) :
    (es.filter p).lookup n = none := by
  rw [List.lookup_eq_none_iff]
  rintro ⟨m, v⟩ he
  have hv := (List.mem_filter.1 he).2
  refine bne_iff_ne.2 ?_
  rintro rfl
  rw [hp] at hv
  cases hv

end Lookup

namespace Scope

section VariableOf
variable (s : Scope) {names : List Symbol} {n m v : Symbol}

theorem isLocal_iff : s.isLocal n = true ↔ n ∈ s.locals := by
  rw [isLocal, List.contains_iff_mem]

theorem isLocal_eq_false_iff : s.isLocal n = false ↔ n ∉ s.locals := by
  rw [← s.isLocal_iff, Bool.not_eq_true]

/-- Where only local names are shadowed, other names stand for themselves. -/
theorem variableOf_of_not_local (hs : ∀ e ∈ s.shadows, e.1 ∈ s.locals) (h : n ∉ s.locals) :
    s.variableOf n = n := by
  have hnone : s.shadows.lookup n = none := by
    rw [List.lookup_eq_none_iff]
    intro e he
    refine bne_iff_ne.2 ?_
    rintro rfl
    exact h (hs e he)
  unfold variableOf
  rw [hnone]
  rfl

theorem variableOf_shadow_of_ne (h : m ≠ n) : (s.shadow n v).variableOf m = s.variableOf m := by
  unfold variableOf shadow
  simp only [List.lookup_cons, beq_eq_false_iff_ne.2 h]
  rw [lookup_filter_of_pos]
  simpa using h

theorem variableOf_unshadow_of_mem (h : n ∈ names) : (s.unshadow names).variableOf n = n := by
  unfold variableOf unshadow
  dsimp only
  rw [lookup_filter_of_neg]
  · rfl
  · simpa using h

theorem variableOf_unshadow_of_not_mem (h : n ∉ names) :
    (s.unshadow names).variableOf n = s.variableOf n := by
  unfold variableOf unshadow
  dsimp only
  rw [lookup_filter_of_pos]
  simpa using h

theorem mem_vars : v ∈ s.vars ↔ ∃ n ∈ s.locals, s.variableOf n = v := by
  rw [vars, Distinct.mem_ofList, List.mem_map]

theorem mem_captured :
    v ∈ s.captured names ↔ ∃ n ∈ s.locals, n ∉ names ∧ s.variableOf n = v := by
  rw [captured, Distinct.mem_ofList, List.mem_map]
  simp [and_assoc]

theorem mem_locals_bind : n ∈ (s.bind names).locals ↔ n ∈ s.locals ∨ n ∈ names := by
  rw [bind, Distinct.mem_addAll]

end VariableOf

end Scope

namespace Node

/-! ### Functions around nodes -/

/-- Whether the node is written as a function that is called on the spot. -/
def wrapped : Node → Bool
  | block stmts _ i => i.scope.context == .expression && !stmts.isEmpty
  | bindings _ _ i | loop _ _ _ _ i => i.scope.context == .expression
  | _ => false

/-- The node with its value as the result of the function around it, where it can be wrapped. -/
def asResult : Node → Node
  | block stmts last i => block stmts last { i with scope := i.scope.withContext .result }
  | bindings bs body i => bindings bs body { i with scope := i.scope.withContext .result }
  | loop value key coll body i =>
    loop value key coll body { i with scope := i.scope.withContext .result }
  | n => n

/-- The variables at hand inside a node, when `vars` are at hand around it.  A function that is
called on the spot has only what it takes over. -/
def entered (vars : List Symbol) (n : Node) : List Symbol := if n.wrapped then n.scope.vars else vars

/-- The values of bindings, each with the variables of the earlier ones at hand, then the body. -/
def bindingParts (vars : List Symbol) : List (Binding Node) → Node → List (List Symbol × Node)
  | [], body => [(vars, body)]
  | b :: bs, body => (vars, b.init) :: bindingParts (b.var :: vars) bs body

/-- The nodes directly below, each with the variables at hand in the function around it. -/
def parts (vars : List Symbol) (n : Node) : List (List Symbol × Node) :=
  match n with
  | bindings bs body _ => bindingParts (n.entered vars) bs body
  | function params _ uses body _ => [(params ++ uses, body)]
  | loop value key coll body _ =>
    [(n.entered vars, coll), (key.toList ++ value :: n.entered vars, body)]
  | _ => n.children.map fun c => (n.entered vars, c)

/-- `P` holds of the node and of all nodes below it, with the variables at hand at each. -/
inductive Everywhere (P : List Symbol → Node → Prop) : List Symbol → Node → Prop
  | intro {vars n} :
    P vars n → (∀ p ∈ n.parts vars, Everywhere P p.1 p.2) → Everywhere P vars n

/-- The variables that a node reads by itself in the function around it: its own, or those that it
takes over into a function. -/
def reads : Node → List Symbol
  | localVar v _ => [v]
  | function _ _ uses _ _ => uses
  | n => if n.wrapped then n.scope.vars else []

/-- All that the node reads is at hand. -/
def Defined (vars : List Symbol) (n : Node) : Prop := ∀ v ∈ n.reads, v ∈ vars

theorem bindingParts_snd (vars : List Symbol) (bs : List (Binding Node)) (body : Node) :
    (bindingParts vars bs body).map Prod.snd = bs.map Binding.init ++ [body] := by
  induction bs generalizing vars with
  | nil => rfl
  | cons b bs ih => simp [bindingParts, ih]

/-- No node is left out. -/
theorem parts_snd (vars : List Symbol) (n : Node) : (n.parts vars).map Prod.snd = n.children := by
  have hmap : ∀ (vs : List Symbol) (ns : List Node),
      (ns.map fun c => (vs, c)).map Prod.snd = ns := by
    intro vs ns
    rw [List.map_map]
    exact List.map_id ns
  cases n with
  | bindings bs body i => exact bindingParts_snd _ bs body
  | function | loop => rfl
  | _ => exact hmap _ _

section Everywhere
variable {P Q : List Symbol → Node → Prop} {vars : List Symbol} {n : Node}

theorem Everywhere.self (h : n.Everywhere P vars) : P vars n := by
  cases h with
  | intro h _ => exact h

theorem Everywhere.part (h : n.Everywhere P vars) {p : List Symbol × Node} (hp : p ∈ n.parts vars) :
    p.2.Everywhere P p.1 := by
  cases h with
  | intro _ h => exact h p hp

theorem mem_children_of_parts {p : List Symbol × Node} (hp : p ∈ n.parts vars) : p.2 ∈ n.children :=
  n.parts_snd vars ▸ List.mem_map_of_mem hp

theorem everywhere_of_forall (h : ∀ m ∈ n.nodes, ∀ vars, P vars m) (vars : List Symbol) :
    n.Everywhere P vars := by
  induction n using ind generalizing vars with
  | h n ih =>
    refine .intro (h n n.mem_nodes_self vars) fun p hp => ?_
    have hchild := mem_children_of_parts hp
    exact ih p.2 hchild (fun m hm => h m (mem_nodes_of_child hchild hm)) p.1

theorem Everywhere.imp_of_mem (h : n.Everywhere P vars)
    (himp : ∀ m ∈ n.nodes, ∀ vars, P vars m → Q vars m) : n.Everywhere Q vars := by
  induction h with
  | @intro vars n hn _ ih =>
    refine .intro (himp n n.mem_nodes_self vars hn) fun p hp => ?_
    exact ih p hp fun m hm => himp m (mem_nodes_of_child (mem_children_of_parts hp) hm)

end Everywhere

theorem Everywhere.leaf {P : List Symbol → Node → Prop} {vars : List Symbol} {n : Node}
    (h : P vars n) (hc : n.children = []) : n.Everywhere P vars := by
  refine .intro h fun p hp => ?_
  have hchild := mem_children_of_parts hp
  rw [hc] at hchild
  cases hchild

theorem Everywhere.node {P : List Symbol → Node → Prop} {vars : List Symbol} {n : Node}
    (h : P vars n) (hparts : n.parts vars = n.children.map fun c => (n.entered vars, c))
    (hc : ∀ c ∈ n.children, c.Everywhere P (n.entered vars)) : n.Everywhere P vars := by
  refine .intro h ?_
  rw [hparts]
  exact List.forall_mem_map.2 hc

end Node

/-- A wrapped node is written as a function, called on the spot, that takes over what its scope
makes visible; inside stands what the node would be as the result of a function. -/
theorem Php.code_of_wrapped (config : Config) {n : Node} (h : n.wrapped = true) (depth : Nat) :
    code config n depth = closure config n.scope depth (code config n.asResult (depth + 1)) := by
  cases n with
  | block stmts last i =>
    simp only [Node.wrapped, Bool.and_eq_true, beq_iff_eq] at h
    simp only [Node.asResult, code]
    rw [if_pos h, if_neg (by simp)]
    rfl
  | bindings bs body i =>
    simp only [Node.wrapped, beq_iff_eq] at h
    simp only [Node.asResult, code]
    rw [if_pos h, if_neg (by simp)]
    rfl
  | loop v key coll body i =>
    simp only [Node.wrapped, beq_iff_eq] at h
    simp only [Node.asResult, code, h]
    rfl
  | _ => cases h

namespace Analysis

/-! ### Names stand for variables at hand -/

/-- Only local names are shadowed, and the local names stand for variables among `vars`. -/
structure Covers (scope : Scope) (vars : List Symbol) : Prop where
  shadows : ∀ e ∈ scope.shadows, e.1 ∈ scope.locals
  vars : ∀ name ∈ scope.locals, scope.variableOf name ∈ vars

section Covers
variable {scope inner : Scope} {vars : List Symbol} {s s' : State}

theorem Covers.nil (hlocals : scope.locals = []) (hshadows : scope.shadows = []) :
    Covers scope [] := by
  constructor
  · rw [hshadows]
    intro e he
    cases he
  · rw [hlocals]
    intro name hname
    cases hname

theorem Covers.withContext (h : Covers scope vars) (c : Context) :
    Covers (scope.withContext c) vars := ⟨h.shadows, h.vars⟩

theorem Covers.vars_subset (h : Covers scope vars) : ∀ v ∈ scope.vars, v ∈ vars := by
  intro v hv
  obtain ⟨name, hname, rfl⟩ := scope.mem_vars.1 hv
  exact h.vars name hname

/-- What a function that is called on the spot takes over is enough for its names. -/
theorem Covers.entered (h : Covers scope vars) {n : Node} (hn : n.scope = scope) :
    Covers scope (n.entered vars) := by
  unfold Node.entered
  split
  · exact ⟨h.shadows, fun name hname => hn ▸ scope.mem_vars.2 ⟨name, hname, rfl⟩⟩
  · exact h

theorem Covers.name {name var : Symbol} (h : Covers scope vars)
    (hname : Rules.Name name scope s var inner s') : Covers inner (var :: vars) := by
  cases hname with
  | own hlocal =>
    have hself := scope.variableOf_of_not_local h.shadows (scope.isLocal_eq_false_iff.1 hlocal)
    constructor
    · intro e he
      exact scope.mem_locals_bind.2 (.inl (h.shadows e he))
    · intro m hm
      rcases scope.mem_locals_bind.1 hm with hm | hm
      · exact List.mem_cons_of_mem _ (h.vars m hm)
      · rw [List.mem_singleton.1 hm]
        show scope.variableOf name ∈ _
        rw [hself]
        exact List.mem_cons_self
  | shadow hlocal =>
    rw [scope.isLocal_iff] at hlocal
    constructor
    · intro e he
      rcases List.mem_cons.1 he with rfl | he
      · exact hlocal
      · exact h.shadows e (List.mem_filter.1 he).1
    · intro m hm
      by_cases heq : m = name
      · rw [heq, Scope.variableOf_shadow_self]
        exact List.mem_cons_self
      · rw [scope.variableOf_shadow_of_ne heq]
        exact List.mem_cons_of_mem _ (h.vars m hm)

/-- A function has its parameters, and takes over what the other names stand for. -/
theorem Covers.function (h : Covers scope vars) (params : List Symbol) :
    Covers ((scope.unshadow params).bind params) (params ++ scope.captured params) := by
  constructor
  · intro e he
    exact Scope.mem_locals_bind _ |>.2 (.inl (h.shadows e (List.mem_filter.1 he).1))
  · intro m hm
    show (scope.unshadow params).variableOf m ∈ _
    by_cases hp : m ∈ params
    · rw [scope.variableOf_unshadow_of_mem hp]
      exact List.mem_append_left _ hp
    · have hm : m ∈ scope.locals := (Scope.mem_locals_bind _ |>.1 hm).resolve_right hp
      rw [scope.variableOf_unshadow_of_not_mem hp]
      exact List.mem_append_right _ (scope.mem_captured.2 ⟨m, hm, hp, rfl⟩)

end Covers

/-! ### What analysis yields -/

/-- Whatever covers the scope is enough for the node. -/
def Fits (scope : Scope) (n : Node) : Prop :=
  ∀ vars, Covers scope vars → n.Everywhere Node.Defined vars

section Fits
variable {scope : Scope} {n : Node}

theorem Fits.of_withContext {c : Context} (h : Fits (scope.withContext c) n) : Fits scope n :=
  fun vars hvars => h vars (hvars.withContext c)

theorem fits_leaf (hreads : n.reads = []) (hc : n.children = []) : Fits scope n := by
  refine fun vars _ => .leaf (fun v hv => ?_) hc
  rw [hreads] at hv
  cases hv

theorem defined_of_wrapping {vars : List Symbol} (h : Covers scope vars) (hn : n.scope = scope)
    (hreads : n.reads = if n.wrapped then n.scope.vars else []) : n.Defined vars := by
  intro v hv
  rw [hreads] at hv
  split at hv
  · exact h.vars_subset v (hn ▸ hv)
  · cases hv

/-- A construct that binds nothing. -/
theorem fits_node (hn : n.scope = scope)
    (hreads : n.reads = if n.wrapped then n.scope.vars else [])
    (hparts : ∀ vars, n.parts vars = n.children.map fun c => (n.entered vars, c))
    (hc : ∀ c ∈ n.children, Fits scope c) : Fits scope n := by
  intro vars h
  exact .node (defined_of_wrapping h hn hreads) (hparts vars) fun c hmem =>
    hc c hmem _ (h.entered hn)

end Fits

section Constructs
variable {scope : Scope} {s s' : State} {n : Node}

/-- What is said of forms. -/
def FitsScope : Judgement := fun _ scope _ n _ => Fits scope n

open Rules

theorem fits_all {fs : List Form} {ns : List Node} (h : All FitsScope scope fs s ns s') :
    ∀ n ∈ ns, Fits scope n := by
  induction h with
  | nil => simp
  | cons hf _ ih => exact List.forall_mem_cons.2 ⟨hf, ih⟩

theorem fits_statements {span : Option Span} {fs : List Form} {position : Nat} {ns : List Node}
    (h : Statements FitsScope span scope fs position s ns s') : ∀ n ∈ ns, Fits scope n := by
  induction h with
  | nil => simp
  | cons hf _ ih => exact List.forall_mem_cons.2 ⟨hf, ih⟩

theorem fits_block {span : Option Span} {fs : List Form}
    (h : Block FitsScope scope span fs s n s') : Fits scope n := by
  refine fits_node ?_ ?_ ?_ ?_
  · cases h <;> rfl
  · cases h <;> rfl
  · cases h <;> exact fun _ => rfl
  · cases h with
    | empty => exact List.forall_mem_singleton.2 (fits_leaf rfl rfl)
    | single hf => exact List.forall_mem_singleton.2 hf
    | sequence _ hs hf =>
      intro c hc
      rcases List.mem_append.1 hc with hc | hc
      · exact (fits_statements hs c hc).of_withContext
      · rw [List.mem_singleton.1 hc]
        exact Fits.of_withContext hf

theorem fits_values {pairs : List (Symbol × Form)} {last : Scope} {bs : List (Binding Node)}
    {body : Node} {vars : List Symbol} (h : Values FitsScope pairs scope s bs last s')
    (hvars : Covers scope vars) (hbody : Fits last body) :
    ∀ p ∈ Node.bindingParts vars bs body, p.2.Everywhere Node.Defined p.1 := by
  induction h generalizing vars with
  | nil => exact List.forall_mem_singleton.2 (hbody vars hvars)
  | cons hf hname _ ih =>
    exact List.forall_mem_cons.2 ⟨hf vars (hvars.withContext _), ih (hvars.name hname) hbody⟩

theorem fits_let {pairs : List (Form × Form)} {body : List Form} {span : Option Span}
    (h : Let FitsScope pairs body scope span s n s') : Fits scope n := by
  cases h with
  | intro _ hvalues hbody =>
    intro vars hvars
    refine .intro (defined_of_wrapping hvars rfl rfl) ?_
    exact fits_values hvalues (hvars.entered rfl) (fits_block hbody).of_withContext

theorem fits_body {patterns : List (Form × Form)} {body : List Form} {span : Option Span}
    (h : Body FitsScope patterns body scope span s n s') : Fits scope n := by
  cases h with
  | plain _ h => exact fits_block h
  | patterns _ h => exact fits_let h

theorem fits_loop {value : Symbol} {key : Option Symbol} {coll body : Node} {i : Node.Info}
    (hi : i.scope = scope) (hcoll : Fits scope.operand coll)
    (hbody : ∀ vars, Covers scope vars →
      body.Everywhere Node.Defined (key.toList ++ value :: vars)) :
    Fits scope (.loop value key coll body i) := by
  intro vars hvars
  have hin := hvars.entered (n := .loop value key coll body i) hi
  refine .intro (defined_of_wrapping hvars hi rfl) (List.forall_mem_cons.2 ⟨?_, ?_⟩)
  · exact hcoll.of_withContext _ hin
  · exact List.forall_mem_singleton.2 (hbody _ hin)

theorem fits_target {f : Form} {static : Bool} (h : Target FitsScope scope f static s n s') :
    Fits scope n := by
  cases h with
  | className => exact fits_leaf rfl rfl
  | form h => exact h

theorem fits_part {f : Form} {method : Bool} (h : Part FitsScope scope f method s n s') :
    Fits scope n := by
  cases h with
  | method h => exact fits_node rfl rfl (fun _ => rfl) (fits_all h)
  | property => exact fits_leaf rfl rfl

/-- A construct that binds nothing and whose parts are operands. -/
theorem fits_operands (hn : n.scope = scope)
    (hreads : n.reads = if n.wrapped then n.scope.vars else [])
    (hparts : ∀ vars, n.parts vars = n.children.map fun c => (n.entered vars, c))
    (hc : ∀ c ∈ n.children, Fits scope.operand c) : Fits scope n :=
  fits_node hn hreads hparts fun c hmem => (hc c hmem).of_withContext

theorem fits_special {span : Option Span} {form : SpecialForm} {args : List Form}
    (h : Special FitsScope scope span form args s n s') : Fits scope n := by
  cases h with
  | quote => exact fits_leaf rfl rfl
  | block h => exact fits_block h
  | branch hc ht =>
    refine fits_node rfl rfl (fun _ => rfl) (List.forall_mem_cons.2 ⟨Fits.of_withContext hc, ?_⟩)
    exact List.forall_mem_cons.2 ⟨ht, List.forall_mem_singleton.2 (fits_leaf rfl rfl)⟩
  | branchElse hc ht he =>
    refine fits_node rfl rfl (fun _ => rfl) (List.forall_mem_cons.2 ⟨Fits.of_withContext hc, ?_⟩)
    exact List.forall_mem_cons.2 ⟨ht, List.forall_mem_singleton.2 he⟩
  | bindings _ h => exact fits_let h
  | @function _ _ _ _ _ ps _ _ _ _ h =>
    intro vars hvars
    refine .intro ?_ (List.forall_mem_singleton.2 ?_)
    · intro v hv
      obtain ⟨name, hname, -, rfl⟩ := scope.mem_captured.1 hv
      exact hvars.vars name hname
    · exact fits_body h _ ((hvars.function ps.names).withContext .result)
  | definition _ h =>
    exact fits_operands rfl rfl (fun _ => rfl) (List.forall_mem_singleton.2 h)
  | loop _ hcoll hname h =>
    refine fits_loop rfl hcoll fun vars hvars => ?_
    exact fits_body h _ ((hvars.name hname).withContext .statement)
  | loopKey _ _ hcoll hname hkey h =>
    refine fits_loop rfl hcoll fun vars hvars => ?_
    exact fits_body h _ (((hvars.name hname).name hkey).withContext .statement)
  | throw h => exact fits_operands rfl rfl (fun _ => rfl) (List.forall_mem_singleton.2 h)
  | new hc hargs =>
    exact fits_operands rfl rfl (fun _ => rfl) (List.forall_mem_cons.2 ⟨hc, fits_all hargs⟩)
  | member ht hc | staticMember ht hc =>
    refine fits_operands rfl rfl (fun _ => rfl) (List.forall_mem_cons.2 ⟨fits_target ht, ?_⟩)
    exact List.forall_mem_singleton.2 (fits_part hc)
  | arrayGet ha hi =>
    refine fits_operands rfl rfl (fun _ => rfl) (List.forall_mem_cons.2 ⟨ha, ?_⟩)
    exact List.forall_mem_singleton.2 hi
  | arraySet ha hi hx =>
    refine fits_operands rfl rfl (fun _ => rfl) (List.forall_mem_cons.2 ⟨ha, ?_⟩)
    exact List.forall_mem_cons.2 ⟨hi, List.forall_mem_singleton.2 hx⟩

/-- **A node fits the scope of its form,** whatever macros take part. -/
theorem fits_step {f : Form} (h : Step FitsScope scope f s n s') : FitsScope f scope s n s' := by
  cases h with
  | scalar | unit => exact fits_leaf rfl rfl
  | @reference symbol _ _ _ h =>
    cases h with
    | localVar _ _ hlocal =>
      refine fun vars hvars => .leaf (List.forall_mem_singleton.2 ?_) rfl
      exact hvars.vars symbol (scope.isLocal_iff.1 hlocal)
    | _ => exact fits_leaf rfl rfl
  | special _ h => exact fits_special h
  | expansion _ _ _ _ h => exact h
  | call _ _ _ _ hf hargs =>
    exact fits_operands rfl rfl (fun _ => rfl) (List.forall_mem_cons.2 ⟨hf, fits_all hargs⟩)
  | tuple h | table h | set h | array h =>
    exact fits_operands rfl rfl (fun _ => rfl) (fits_all h)

end Constructs

/-- In the nodes of a unit whose scope binds nothing, all that is read is at hand. -/
theorem defined_unit {forms : List Form} {scope : Scope} {s s' : State} {nodes : List Node}
    (hlocals : scope.locals = []) (hshadows : scope.shadows = [])
    (h : unit forms scope s = .ok nodes s') : ∀ n ∈ nodes, n.Everywhere Node.Defined [] := by
  intro n hn
  exact fits_all (unit_induction fits_step h) n hn [] (.nil hlocals hshadows)

/-- `(fn [[a b] x] (php/f (let [y x x y] (foreach [k [a y] b] (php/g k a b x y)) (fn [] x))))`: a
block that is an expression binds names of its function again, one of them twice, and has one of them
taken over into another function. -/
def rebindingForm : Form :=
  let host (name : String) : Form := .symbol (.qualified "php" name) none
  .parens [.name "fn", .brackets [.brackets [.name "a", .name "b"], .name "x"], .parens [host "f",
    .parens [.name "let", .brackets [.name "y", .name "x", .name "x", .name "y"],
      .parens [.name "foreach", .brackets [.name "k", .brackets [.name "a", .name "y"], .name "b"],
        .parens [host "g", .name "k", .name "a", .name "b", .name "x", .name "y"]],
      .parens [.name "fn", .brackets [], .name "x"]]]]

end Analysis

end LarkPhp
