import LarkPhp.Node

/-!
Nodes as trees.

A node stands above its children, and every node above finitely many others.  `Node.ind` is the
induction from the children to the node, and `Node.nodes` lists a node and all nodes below it in the
order in which they are made, the node itself last.
-/

namespace LarkPhp

namespace Node

/-! ### Induction -/

theorem sizeOf_lt_of_mem_children {n c : Node} (h : c ∈ n.children) : sizeOf c < sizeOf n := by
  cases n with
  | bindings bs body i =>
    rcases List.mem_append.1 h with h | h
    · obtain ⟨b, hb, rfl⟩ := List.mem_map.1 h
      have h₁ : sizeOf b < sizeOf bs := List.sizeOf_lt_of_mem hb
      have h₂ : sizeOf b.init < sizeOf b := by
        cases b
        simp only [Binding.mk.sizeOf_spec]
        omega
      simp
      omega
    · cases List.mem_singleton.1 h
      simp
      omega
  | block stmts last i =>
    rcases List.mem_append.1 h with h | h
    · have h₁ : sizeOf c < sizeOf stmts := List.sizeOf_lt_of_mem h
      simp
      omega
    · cases List.mem_singleton.1 h
      simp
      omega
  | call callee args i | new callee args i =>
    rcases List.mem_cons.1 h with rfl | h
    · simp
      omega
    · have h₁ : sizeOf c < sizeOf args := List.sizeOf_lt_of_mem h
      simp
      omega
  | table items i | array items i | set items i | tuple items i | methodCall name items i =>
    have h₁ : sizeOf c < sizeOf items := List.sizeOf_lt_of_mem h
    simp
    omega
  | function | definition | throw =>
    cases List.mem_singleton.1 h
    simp
    omega
  | loop | member | arrayGet =>
    simp only [children, List.mem_cons, List.not_mem_nil, or_false] at h
    rcases h with rfl | rfl <;> simp <;> omega
  | branch | arraySet =>
    simp only [children, List.mem_cons, List.not_mem_nil, or_false] at h
    rcases h with rfl | rfl | rfl <;> simp <;> omega
  | _ => cases h

/-- Induction on nodes: from the nodes directly below to the node. -/
theorem ind {P : Node → Prop} (h : ∀ n, (∀ c ∈ n.children, P c) → P n) (n : Node) : P n :=
  h n fun c _ => ind h c
termination_by sizeOf n
decreasing_by exact sizeOf_lt_of_mem_children ‹_›

/-! ### All nodes -/

/-- The nodes below, then the node. -/
def nodes (n : Node) : List Node := (n.children.attach.flatMap fun c => nodes c.1) ++ [n]
termination_by sizeOf n
decreasing_by exact sizeOf_lt_of_mem_children c.2

theorem nodes_eq (n : Node) : n.nodes = n.children.flatMap nodes ++ [n] := by
  rw [nodes]
  congr 1
  rw [List.flatMap_subtype (g := nodes) (fun _ _ => rfl), List.unattach_attach]

theorem mem_nodes_self (n : Node) : n ∈ n.nodes := by
  rw [nodes_eq]
  exact List.mem_append_right _ (List.mem_singleton.2 rfl)

theorem mem_nodes_of_child {n c m : Node} (hc : c ∈ n.children) (hm : m ∈ c.nodes) :
    m ∈ n.nodes := by
  rw [nodes_eq]
  exact List.mem_append_left _ (List.mem_flatMap.2 ⟨c, hc, hm⟩)

/-- Below what is below a node is below the node. -/
theorem mem_nodes_trans {n m k : Node} (hm : m ∈ n.nodes) (hk : k ∈ m.nodes) : k ∈ n.nodes := by
  induction n using ind with
  | h n ih =>
    rw [nodes_eq] at hm
    rcases List.mem_append.1 hm with hm | hm
    · obtain ⟨c, hc, hm⟩ := List.mem_flatMap.1 hm
      exact mem_nodes_of_child hc (ih c hc hm)
    · rwa [← List.mem_singleton.1 hm]

/-- What a node defines by itself: a name with its namespace. -/
def defined? : Node → Option (String × String)
  | definition home name _ _ => some (home, name.name)
  | _ => none

/-- What the definitions among the nodes define, in the order of the nodes. -/
def definitions (n : Node) : List (String × String) := n.nodes.filterMap defined?

theorem definitions_eq (n : Node) :
    n.definitions = n.children.flatMap definitions ++ n.defined?.toList := by
  unfold definitions
  rw [nodes_eq, List.filterMap_append, List.filterMap_flatMap]
  cases n <;> rfl

end Node

end LarkPhp
