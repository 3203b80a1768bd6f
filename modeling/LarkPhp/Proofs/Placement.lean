import LarkPhp.Proofs.Rules
import LarkPhp.Proofs.Tree

/-!
Contexts of nodes.

The context that a node carries says how its own value is used, and a construct writes its parts each
for one use only: operands as expressions, all forms of a block but the last as statements, the body
of a function as its result.  Analysis hands every part the context that the construct around it
writes it for (`Sits`), at any depth and through any number of macro expansions.
-/

namespace LarkPhp

namespace Node

/-! ### Parts and their uses -/

/-- How a node is used by the one around it: for its value, or as the member that is written behind
an object or class. -/
inductive Use where
  | value (context : Context)
  | part

/-- The context that a node so used has to carry. -/
def Use.context : Use → Context
  | value c => c
  | part => .expression

/-- How the node can be used. -/
def use : Node → Use
  | methodCall .. | property .. => .part
  | n => .value n.context

/-- The nodes directly below, each with the use that the node makes of it. -/
def places : Node → List (Use × Node)
  | block stmts last i =>
    stmts.map (.value .statement, ·) ++
      [(.value (if stmts.isEmpty then i.scope.context else i.scope.context.tail), last)]
  | branch test yes no i =>
    [(.value .expression, test), (.value i.scope.context, yes), (.value i.scope.context, no)]
  | bindings bs body i =>
    bs.map (fun b => (.value .expression, b.init)) ++ [(.value i.scope.context.tail, body)]
  | function _ _ _ body _ => [(.value .result, body)]
  | loop _ _ coll body _ => [(.value .expression, coll), (.value .statement, body)]
  | member target part _ _ _ => [(.value .expression, target), (.part, part)]
  | n => n.children.map (.value .expression, ·)

/-- The node carries the context of its use, and the nodes directly below can be used as it does. -/
def Placed (n : Node) : Prop := n.context = n.use.context ∧ ∀ p ∈ n.places, p.2.use = p.1

/-- The node can be used as said, and it and all nodes below are placed. -/
def Sits (u : Use) (n : Node) : Prop := n.use = u ∧ ∀ m ∈ n.nodes, m.Placed

/-- No node is left out. -/
theorem places_snd (n : Node) : n.places.map Prod.snd = n.children := by
  have hmap : ∀ (u : Use) (ns : List Node), (ns.map fun m => (u, m)).map Prod.snd = ns := by
    intro u ns
    rw [List.map_map]
    exact List.map_id ns
  cases n with
  | block stmts last i =>
    simp only [places, children, List.map_append, hmap]
    rfl
  | bindings bs body i =>
    simp only [places, children, List.map_append, List.map_map]
    rfl
  | branch | function | loop | member => rfl
  | _ => exact hmap _ _

theorem mem_children_of_places {n : Node} {p : Use × Node} (hp : p ∈ n.places) :
    p.2 ∈ n.children := n.places_snd ▸ List.mem_map_of_mem hp

theorem Sits.placed {u : Use} {n : Node} (h : n.Sits u) : n.Placed :=
  h.2 n n.mem_nodes_self

theorem Sits.context {u : Use} {n : Node} (h : n.Sits u) : n.context = u.context := by
  rw [h.placed.1, h.1]

/-- The parts of a node that sits well sit well in the uses that it makes of them. -/
theorem Sits.part {u : Use} {n : Node} (h : n.Sits u) {p : Use × Node} (hp : p ∈ n.places) :
    p.2.Sits p.1 := by
  exact ⟨h.placed.2 p hp, fun m hm => h.2 m (mem_nodes_of_child (mem_children_of_places hp) hm)⟩

/-- All nodes below sit well in their own uses. -/
theorem Sits.of_mem {u : Use} {n m : Node} (h : n.Sits u) (hm : m ∈ n.nodes) : m.Sits m.use :=
  ⟨rfl, fun k hk => h.2 k (mem_nodes_trans hm hk)⟩

theorem sits_of_places {u : Use} {n : Node} (hu : n.use = u) (hc : n.context = u.context)
    (hp : ∀ p ∈ n.places, p.2.Sits p.1) : n.Sits u := by
  refine ⟨hu, fun m hm => ?_⟩
  rw [nodes_eq] at hm
  rcases List.mem_append.1 hm with hm | hm
  · obtain ⟨child, hchild, hm⟩ := List.mem_flatMap.1 hm
    rw [← n.places_snd] at hchild
    obtain ⟨p, hmem, rfl⟩ := List.mem_map.1 hchild
    exact (hp p hmem).2 m hm
  · rw [List.mem_singleton.1 hm]
    exact ⟨hu ▸ hc, fun p hmem => (hp p hmem).1⟩

end Node

namespace Analysis

open Rules

/-! ### What analysis yields -/

/-- What is said of forms. -/
def SitsInScope : Judgement := fun _ scope _ n _ => n.Sits (.value scope.context)

section Constructs
variable {scope : Scope} {span : Option Span} {s s' : State} {n : Node}

/-- A construct all of whose parts are operands. -/
theorem sits_operands {u : Node.Use} (hn : n.use = u) (hcontext : n.context = u.context)
    (hplaces : n.places = n.children.map (.value .expression, ·))
    (hc : ∀ c ∈ n.children, c.Sits (.value .expression)) : n.Sits u := by
  refine Node.sits_of_places hn hcontext ?_
  rw [hplaces]
  exact List.forall_mem_map.2 hc

theorem sits_all {fs : List Form} {ns : List Node} (h : All SitsInScope scope fs s ns s') :
    ∀ n ∈ ns, n.Sits (.value scope.context) := by
  induction h with
  | nil => simp
  | cons hf _ ih => exact List.forall_mem_cons.2 ⟨hf, ih⟩

theorem sits_statements {fs : List Form} {position : Nat} {ns : List Node}
    (h : Statements SitsInScope span scope fs position s ns s') :
    ∀ n ∈ ns, n.Sits (.value scope.context) := by
  induction h with
  | nil => simp
  | cons hf _ ih => exact List.forall_mem_cons.2 ⟨hf, ih⟩

theorem statements_ne_nil {J : Judgement} {fs : List Form} {position : Nat} {ns : List Node}
    (h : Statements J span scope fs position s ns s') (hfs : fs ≠ []) : ns ≠ [] := by
  cases h with
  | nil => exact absurd rfl hfs
  | cons => exact List.cons_ne_nil _ _

theorem sits_block {fs : List Form} (h : Block SitsInScope scope span fs s n s') :
    n.Sits (.value scope.context) := by
  cases h with
  | empty =>
    refine Node.sits_of_places rfl rfl (List.forall_mem_singleton.2 ?_)
    exact sits_operands rfl rfl rfl nofun
  | single hf => exact Node.sits_of_places rfl rfl (List.forall_mem_singleton.2 hf)
  | @sequence fs f _ ns _ last _ hfs hs hf =>
    refine Node.sits_of_places rfl rfl ?_
    have hns : ns.isEmpty = false := by
      cases ns with
      | nil => exact absurd rfl (statements_ne_nil hs hfs)
      | cons => rfl
    simp only [Node.places, hns]
    refine List.forall_mem_append.2 ⟨?_, List.forall_mem_singleton.2 hf⟩
    exact List.forall_mem_map.2 (sits_statements hs)

theorem sits_values {pairs : List (Symbol × Form)} {last : Scope} {bs : List (Binding Node)}
    (h : Values SitsInScope pairs scope s bs last s') :
    ∀ b ∈ bs, b.init.Sits (.value .expression) := by
  induction h with
  | nil => simp
  | cons hf _ _ ih => exact List.forall_mem_cons.2 ⟨hf, ih⟩

theorem sits_let {pairs : List (Form × Form)} {body : List Form}
    (h : Let SitsInScope pairs body scope span s n s') : n.Sits (.value scope.context) := by
  cases h with
  | intro _ hvalues hbody =>
    refine Node.sits_of_places rfl rfl (List.forall_mem_append.2 ⟨?_, ?_⟩)
    · exact List.forall_mem_map.2 (sits_values hvalues)
    · exact List.forall_mem_singleton.2 (sits_block hbody)

theorem sits_body {patterns : List (Form × Form)} {body : List Form}
    (h : Body SitsInScope patterns body scope span s n s') : n.Sits (.value scope.context) := by
  cases h with
  | plain _ h => exact sits_block h
  | patterns _ h => exact sits_let h

theorem sits_target {f : Form} {static : Bool}
    (h : Target SitsInScope scope.operand f static s n s') : n.Sits (.value .expression) := by
  cases h with
  | className => exact sits_operands rfl rfl rfl nofun
  | form h => exact h

theorem sits_part {f : Form} {method : Bool} (h : Part SitsInScope scope.operand f method s n s') :
    n.Sits .part := by
  cases h with
  | method h => exact sits_operands rfl rfl rfl (sits_all h)
  | property => exact sits_operands rfl rfl rfl nofun

theorem sits_loop {value : Symbol} {key : Option Symbol} {coll body : Node} {i : Node.Info}
    (hi : i.scope = scope) (hcoll : coll.Sits (.value .expression))
    (hbody : body.Sits (.value .statement)) :
    (Node.loop value key coll body i).Sits (.value scope.context) := by
  refine Node.sits_of_places (congrArg (Node.Use.value ∘ Scope.context) hi)
    (congrArg Scope.context hi) ?_
  exact List.forall_mem_cons.2 ⟨hcoll, List.forall_mem_singleton.2 hbody⟩

theorem sits_branch {c t e : Node} {i : Node.Info} (hi : i.scope = scope)
    (hc : c.Sits (.value .expression)) (ht : t.Sits (.value scope.context))
    (he : e.Sits (.value scope.context)) :
    (Node.branch c t e i).Sits (.value scope.context) := by
  subst hi
  refine Node.sits_of_places rfl rfl (List.forall_mem_cons.2 ⟨hc, ?_⟩)
  exact List.forall_mem_cons.2 ⟨ht, List.forall_mem_singleton.2 he⟩

theorem sits_special {form : SpecialForm} {args : List Form}
    (h : Special SitsInScope scope span form args s n s') : n.Sits (.value scope.context) := by
  cases h with
  | quote => exact sits_operands rfl rfl rfl nofun
  | block h => exact sits_block h
  | branch hc ht => exact sits_branch rfl hc ht (sits_operands rfl rfl rfl nofun)
  | branchElse hc ht he => exact sits_branch rfl hc ht he
  | bindings _ h => exact sits_let h
  | function _ h =>
    exact Node.sits_of_places rfl rfl (List.forall_mem_singleton.2 (sits_body h))
  | definition _ h =>
    exact sits_operands rfl rfl rfl (List.forall_mem_singleton.2 h)
  | loop _ hcoll _ h => exact sits_loop rfl hcoll (sits_body h)
  | loopKey _ _ hcoll _ _ h => exact sits_loop rfl hcoll (sits_body h)
  | throw h => exact sits_operands rfl rfl rfl (List.forall_mem_singleton.2 h)
  | new hc hargs =>
    exact sits_operands rfl rfl rfl (List.forall_mem_cons.2 ⟨hc, sits_all hargs⟩)
  | member ht hc | staticMember ht hc =>
    refine Node.sits_of_places rfl rfl (List.forall_mem_cons.2 ⟨sits_target ht, ?_⟩)
    exact List.forall_mem_singleton.2 (sits_part hc)
  | arrayGet ha hi =>
    exact sits_operands rfl rfl rfl (List.forall_mem_cons.2 ⟨ha, List.forall_mem_singleton.2 hi⟩)
  | arraySet ha hi hx =>
    refine sits_operands rfl rfl rfl (List.forall_mem_cons.2 ⟨ha, ?_⟩)
    exact List.forall_mem_cons.2 ⟨hi, List.forall_mem_singleton.2 hx⟩

/-- **A node sits in the context of its form,** and all its parts in the contexts that it uses them
in, if that holds of the parts of the form. -/
theorem sits_step {f : Form} (h : Step SitsInScope scope f s n s') : SitsInScope f scope s n s' := by
  cases h with
  | scalar | unit => exact sits_operands rfl rfl rfl nofun
  | reference h => cases h <;> exact sits_operands rfl rfl rfl nofun
  | special _ h => exact sits_special h
  | expansion _ _ _ _ h => exact h
  | call _ _ _ _ hf hargs =>
    exact sits_operands rfl rfl rfl (List.forall_mem_cons.2 ⟨hf, sits_all hargs⟩)
  | tuple h | table h | set h | array h => exact sits_operands rfl rfl rfl (sits_all h)

end Constructs

/-- The nodes of a unit sit in the context of its scope. -/
theorem sits_unit {forms : List Form} {scope : Scope} {s s' : State} {nodes : List Node}
    (h : unit forms scope s = .ok nodes s') : ∀ n ∈ nodes, n.Sits (.value scope.context) :=
  sits_all (unit_induction sits_step h)

end Analysis

end LarkPhp
