import LarkPhp.Arena
import LarkPhp.Proofs.Rules
import LarkPhp.Proofs.Tree

/-!
Numbers of nodes.

Analysis numbers all nodes that it makes one after another, the parts of a node before the node, and
every number that is given away is the number of a node of the result (`Made`).  A table in which the
nodes are stored in that order is a forest: entries refer to earlier ones only, and every entry is
either a root or a part of exactly one other (`Arena.IsForest`).
-/

namespace LarkPhp

/-! ### Consecutive numbers -/

/-- The nodes are numbered one after another from `a`, and `b` is the next number. -/
def Made (a : Nat) (ns : List Node) (b : Nat) : Prop :=
  ns.map Node.serial = List.range' a ns.length ∧ b = a + ns.length

section Made
variable {a b c : Nat} {n : Node} {ns ms : List Node}

theorem Made.nil : Made a [] a := ⟨rfl, rfl⟩

theorem Made.append (h : Made a ns b) (h' : Made b ms c) : Made a (ns ++ ms) c := by
  obtain ⟨hns, rfl⟩ := h
  obtain ⟨hms, rfl⟩ := h'
  constructor
  · rw [List.map_append, hns, hms, List.length_append, List.range'_append_1]
  · rw [List.length_append, Nat.add_assoc]

theorem Made.of_append (h : Made a (ns ++ ms) c) : ∃ b, Made a ns b ∧ Made b ms c := by
  obtain ⟨hserials, rfl⟩ := h
  rw [List.map_append, List.length_append, ← List.range'_append_1] at hserials
  obtain ⟨hns, hms⟩ := List.append_inj hserials (by simp)
  exact ⟨a + ns.length, ⟨hns, rfl⟩, hms, by rw [List.length_append, Nat.add_assoc]⟩

/-- The parts of a node, then the node. -/
theorem Made.node (h : Made a (n.children.flatMap Node.nodes) b) (hn : n.serial = b) :
    Made a n.nodes (b + 1) := by
  rw [Node.nodes_eq]
  refine h.append ⟨?_, rfl⟩
  rw [List.map_singleton, hn]
  rfl

theorem Made.leaf (hn : n.serial = a) (hc : n.children = []) : Made a n.nodes (a + 1) := by
  refine Made.node ?_ hn
  rw [hc]
  exact .nil

theorem Made.cons (hn : Made a n.nodes b) (h : Made b (ns.flatMap Node.nodes) c) :
    Made a ((n :: ns).flatMap Node.nodes) c := by
  rw [List.flatMap_cons]
  exact hn.append h

theorem Made.single (h : Made a n.nodes b) : Made a ([n].flatMap Node.nodes) b := h.cons .nil

theorem Made.concat (h : Made a (ns.flatMap Node.nodes) b) (hn : Made b n.nodes c) :
    Made a ((ns ++ [n]).flatMap Node.nodes) c := by
  rw [List.flatMap_append]
  exact h.append hn.single

theorem Made.lt_of_mem (h : Made a ns b) (hn : n ∈ ns) : n.serial < b := by
  obtain ⟨hserials, rfl⟩ := h
  have hmem : n.serial ∈ List.range' a ns.length := hserials ▸ List.mem_map_of_mem hn
  exact (List.mem_range'_1.1 hmem).2

theorem Made.of_mem (h : Made a (ns.flatMap Node.nodes) b) (hn : n ∈ ns) :
    ∃ c d, Made c n.nodes d := by
  obtain ⟨before, after, rfl⟩ := List.append_of_mem hn
  rw [List.flatMap_append, List.flatMap_cons] at h
  obtain ⟨c, -, hrest⟩ := h.of_append
  obtain ⟨d, hnodes, -⟩ := hrest.of_append
  exact ⟨c, d, hnodes⟩

/-- Parts have smaller numbers. -/
theorem Made.child_lt (h : Made a n.nodes b) :
    ∀ m ∈ n.nodes, ∀ k ∈ m.children, k.serial < m.serial := by
  induction n using Node.ind generalizing a b with
  | h n ih =>
    rw [Node.nodes_eq] at h ⊢
    obtain ⟨b', hchildren, hself⟩ := h.of_append
    have hserial : n.serial = b' := (List.cons.inj hself.1).1
    refine List.forall_mem_append.2 ⟨?_, List.forall_mem_singleton.2 fun k hk => ?_⟩
    · intro m hm
      obtain ⟨child, hchild, hm⟩ := List.mem_flatMap.1 hm
      obtain ⟨c, d, hnodes⟩ := hchildren.of_mem hchild
      exact ih child hchild hnodes m hm
    · rw [hserial]
      exact hchildren.lt_of_mem (List.mem_flatMap.2 ⟨k, hk, k.mem_nodes_self⟩)

end Made

namespace Analysis

open Rules

/-! ### What analysis yields -/

section Quiet
variable (s : State) (span : Option Span) (n : Nat) (f : Form) (home name : String)

@[simp] theorem nodes_noting : (s.noting f n span).nodes = s.nodes := by
  unfold State.noting
  split <;> rfl

@[simp] theorem nodes_announcing : (s.announcing home name span).nodes = s.nodes := by
  unfold State.announcing
  split <;> rfl

end Quiet

/-- What is said of forms. -/
def MakesNodes : Judgement := fun _ _ s n s' => Made s.nodes n.nodes s'.nodes

section Constructs
variable {scope : Scope} {span : Option Span} {s s' : State} {n : Node}

theorem nodes_name {name var : Symbol} {inner : Scope} (h : Name name scope s var inner s') :
    s'.nodes = s.nodes := by
  cases h <;> rfl

theorem nodes_binder {f : Form} {name : Symbol} {ps : List (Form × Form)}
    (h : Binder f s name ps s') : s'.nodes = s.nodes := by
  cases h <;> rfl

theorem nodes_params {fs : List Form} {ps : Parameters} (h : Params fs s ps s') :
    s'.nodes = s.nodes := by
  have hbinders : ∀ {fs s ns qs s'}, Binders fs s ns qs s' → s'.nodes = s.nodes := by
    intro fs s ns qs s' h
    induction h with
    | nil => rfl
    | cons hf _ ih => rw [ih, nodes_binder hf]
  cases h with
  | fixed _ h => exact hbinders h
  | variadic _ _ h => exact hbinders h

theorem made_all {fs : List Form} {ns : List Node} (h : All MakesNodes scope fs s ns s') :
    Made s.nodes (ns.flatMap Node.nodes) s'.nodes := by
  induction h with
  | nil => exact .nil
  | cons hf _ ih => exact hf.append ih

theorem made_statements {fs : List Form} {position : Nat} {ns : List Node}
    (h : Statements MakesNodes span scope fs position s ns s') :
    Made s.nodes (ns.flatMap Node.nodes) s'.nodes := by
  induction h with
  | nil => exact .nil
  | cons hf _ ih =>
    unfold MakesNodes at hf
    rw [nodes_noting] at hf
    exact hf.append ih

theorem made_block {fs : List Form} (h : Block MakesNodes scope span fs s n s') :
    Made s.nodes n.nodes s'.nodes := by
  cases h with
  | empty => exact Made.node (Made.single (Made.leaf rfl rfl)) rfl
  | single hf => exact Made.node (Made.single hf) rfl
  | sequence _ hs hf => exact Made.node (Made.concat (made_statements hs) hf) rfl

theorem made_values {pairs : List (Symbol × Form)} {last : Scope} {bs : List (Binding Node)}
    (h : Values MakesNodes pairs scope s bs last s') :
    Made s.nodes ((bs.map Binding.init).flatMap Node.nodes) s'.nodes := by
  induction h with
  | nil => exact .nil
  | cons hf hname _ ih =>
    rw [nodes_name hname] at ih
    exact Made.cons hf ih

theorem made_let {pairs : List (Form × Form)} {body : List Form}
    (h : Let MakesNodes pairs body scope span s n s') : Made s.nodes n.nodes s'.nodes := by
  cases h with
  | intro _ hvalues hbody =>
    have hinits := made_values hvalues
    exact Made.node (Made.concat hinits (made_block hbody)) rfl

theorem made_body {patterns : List (Form × Form)} {body : List Form}
    (h : Body MakesNodes patterns body scope span s n s') : Made s.nodes n.nodes s'.nodes := by
  cases h with
  | plain _ h => exact made_block h
  | patterns _ h => exact made_let h

theorem made_target {f : Form} {static : Bool} (h : Target MakesNodes scope f static s n s') :
    Made s.nodes n.nodes s'.nodes := by
  cases h with
  | className => exact Made.leaf rfl rfl
  | form h => exact h

theorem made_part {f : Form} {method : Bool} (h : Part MakesNodes scope f method s n s') :
    Made s.nodes n.nodes s'.nodes := by
  cases h with
  | method h => exact Made.node (made_all h) rfl
  | property => exact Made.leaf rfl rfl

theorem made_special {form : SpecialForm} {args : List Form}
    (h : Special MakesNodes scope span form args s n s') : Made s.nodes n.nodes s'.nodes := by
  cases h with
  | quote => exact Made.leaf rfl rfl
  | block h => exact made_block h
  | branch hc ht =>
    exact Made.node (Made.cons hc (Made.cons ht (Made.single (Made.leaf rfl rfl)))) rfl
  | branchElse hc ht he => exact Made.node (Made.cons hc (Made.cons ht (Made.single he))) rfl
  | bindings _ h => exact made_let h
  | function hps h =>
    have hbody := made_body h
    rw [nodes_params hps] at hbody
    exact Made.node hbody.single rfl
  | definition _ h =>
    unfold MakesNodes at h
    rw [nodes_announcing] at h
    exact Made.node h.single rfl
  | loop hb hcoll hname h =>
    have hbody := made_body h
    unfold MakesNodes at hcoll
    rw [nodes_name hname] at hbody
    rw [nodes_binder hb] at hcoll
    exact Made.node (hcoll.cons hbody.single) rfl
  | loopKey hk hb hcoll hname hkey h =>
    have hbody := made_body h
    unfold MakesNodes at hcoll
    rw [nodes_name hkey, nodes_name hname] at hbody
    rw [nodes_binder hb, nodes_binder hk] at hcoll
    exact Made.node (hcoll.cons hbody.single) rfl
  | throw h => exact Made.node (Made.single h) rfl
  | new hc hargs => exact Made.node (Made.cons hc (made_all hargs)) rfl
  | member ht hc | staticMember ht hc =>
    exact Made.node (Made.cons (made_target ht) (made_part hc).single) rfl
  | arrayGet ha hi => exact Made.node (Made.cons ha (Made.single hi)) rfl
  | arraySet ha hi hx => exact Made.node (Made.cons ha (Made.cons hi (Made.single hx))) rfl

/-- **All nodes that are made are nodes of the result,** numbered in the order in which they are
made. -/
theorem made_step {f : Form} (h : Step MakesNodes scope f s n s') : MakesNodes f scope s n s' := by
  cases h with
  | scalar | unit => exact Made.leaf rfl rfl
  | reference h => cases h <;> exact Made.leaf rfl rfl
  | special _ h => exact made_special h
  | expansion _ _ _ he h =>
    unfold MakesNodes at h ⊢
    rw [expand_ok he] at h
    exact h
  | call _ _ _ _ hf hargs => exact Made.node (Made.cons hf (made_all hargs)) rfl
  | tuple h | table h | set h | array h => exact Made.node (made_all h) rfl

end Constructs

theorem visits_unit {forms : List Form} {scope : Scope} {s s' : State} {nodes : List Node}
    (h : unit forms scope s = .ok nodes s') :
    All (fun f scope s n s' => form f scope s = .ok n s') scope forms s nodes s' :=
  all_sound id (withdrawing_ok h)

theorem made_unit {forms : List Form} {scope : Scope} {s s' : State} {nodes : List Node}
    (h : unit forms scope s = .ok nodes s') :
    Made s.nodes (nodes.flatMap Node.nodes) s'.nodes :=
  made_all (unit_induction made_step h)

end Analysis

namespace Node

/-! ### Nodes and their parts -/

theorem flatMap_nodes_perm {ns : List Node}
    (h : ∀ n ∈ ns, n.nodes.Perm (n :: n.nodes.flatMap children)) :
    (ns.flatMap nodes).Perm (ns ++ (ns.flatMap nodes).flatMap children) := by
  induction ns with
  | nil => exact .nil
  | cons n ns ih =>
    obtain ⟨hn, hns⟩ := List.forall_mem_cons.1 h
    rw [List.flatMap_cons, List.flatMap_append]
    refine (hn.append (ih hns)).trans ?_
    exact (List.perm_append_comm_assoc _ _ _).cons n

theorem sublist_flatMap_nodes (ns : List Node) : ns.Sublist (ns.flatMap nodes) := by
  induction ns with
  | nil => exact .slnil
  | cons n ns ih =>
    rw [List.flatMap_cons]
    exact (List.singleton_sublist.2 n.mem_nodes_self).append ih

/-- Among all nodes each is the topmost one or a part of another, once. -/
theorem nodes_perm (n : Node) : n.nodes.Perm (n :: n.nodes.flatMap children) := by
  induction n using ind with
  | h n ih =>
    have hparts := flatMap_nodes_perm ih
    rw [nodes_eq, List.flatMap_append, List.flatMap_singleton]
    refine (List.perm_append_singleton n _).trans (.cons n (hparts.trans ?_))
    exact List.perm_append_comm

end Node

namespace Arena

/-! ### Forests -/

/-- The numbers of the parts of the node with a number. -/
def childrenAt (arena : Arena) (number : Nat) : List Nat :=
  match arena.get? number with
  | some entry => arena.children entry.kind
  | none => []

/-- A table whose entries refer to earlier ones only, and in which every node is exactly one of the
roots or exactly one part of exactly one node. -/
structure IsForest (arena : Arena) (roots : List Nat) : Prop where
  earlier : ∀ i entry, arena.get? i = some entry → ∀ c ∈ arena.children entry.kind, c < i
  inside : ∀ i entry, arena.get? i = some entry →
    ∀ range, entry.kind.range? = some range → range.start + range.length ≤ arena.parts.size
  present : ∀ r ∈ roots, r < arena.size
  once : ∀ i < arena.size,
    (roots ++ (List.range arena.size).flatMap arena.childrenAt).count i = 1

/-- The node is stored under its number, with the numbers of its parts. -/
def Holds (arena : Arena) (n : Node) : Prop :=
  ∃ range, arena.get? n.serial = some ⟨.ofNode n range, n.scope, n.location⟩ ∧
    range.start + range.length ≤ arena.parts.size ∧
    arena.list? range = some (n.listed.map Node.serial)

section Store
variable {arena : Arena} {n m : Node}

theorem list?_of_le {range : Range} (h : range.start + range.length ≤ arena.parts.size) :
    arena.list? range = some ((arena.parts.toList.drop range.start).take range.length) := by
  unfold list?
  by_cases hlength : range.length = 0
  · rw [if_pos hlength, hlength, List.take_zero]
  · rw [if_neg hlength, if_pos h, Array.toList_extract, List.extract_eq_take_drop,
      Nat.add_sub_cancel_left]

theorem entries_allocList (numbers : List Nat) :
    (arena.allocList numbers).2.entries = arena.entries := by
  unfold allocList
  split <;> rfl

theorem parts_allocList (numbers : List Nat) :
    (arena.allocList numbers).2.parts.toList = arena.parts.toList ++ numbers := by
  unfold allocList
  split
  · next h => rw [List.isEmpty_iff.1 h, List.append_nil]
  · rw [Array.toList_append]

theorem allocList_le (numbers : List Nat) :
    (arena.allocList numbers).1.start + (arena.allocList numbers).1.length ≤
      (arena.allocList numbers).2.parts.size := by
  unfold allocList
  split
  · exact Nat.zero_le _
  · simp

/-- What was appended is read back. -/
theorem list?_allocList (numbers : List Nat) :
    (arena.allocList numbers).2.list? (arena.allocList numbers).1 = some numbers := by
  rw [list?_of_le (arena.allocList_le numbers), parts_allocList]
  unfold allocList
  split
  · next h => rw [List.isEmpty_iff.1 h, List.take_zero]
  · simp

theorem entries_store :
    (arena.store n).entries = arena.entries.push
      ⟨.ofNode n (arena.allocList (n.listed.map Node.serial)).1, n.scope, n.location⟩ := by
  show (arena.allocList (n.listed.map Node.serial)).2.entries.push
    ⟨.ofNode n (arena.allocList (n.listed.map Node.serial)).1, n.scope, n.location⟩ = _
  rw [entries_allocList]

theorem size_store : (arena.store n).size = arena.size + 1 := by
  unfold size
  rw [entries_store, Array.size_push]

theorem parts_store :
    (arena.store n).parts.toList = arena.parts.toList ++ n.listed.map Node.serial :=
  parts_allocList _

theorem get?_store_of_ne {i : Nat} (h : i ≠ arena.size) :
    (arena.store n).get? i = arena.get? i := by
  unfold size at h
  unfold get?
  rw [entries_store, Array.getElem?_push, if_neg h]

theorem holds_store (hn : n.serial = arena.size) : (arena.store n).Holds n := by
  refine ⟨(arena.allocList (n.listed.map Node.serial)).1, ?_, allocList_le _, list?_allocList _⟩
  unfold size at hn
  unfold get?
  rw [entries_store, Array.getElem?_push, if_pos hn]

/-- Stored nodes stay stored. -/
theorem Holds.store (h : arena.Holds n) (m : Node) : (arena.store m).Holds n := by
  obtain ⟨range, hentry, hle, hlist⟩ := h
  have hlt : n.serial < arena.size := by
    obtain ⟨hlt, -⟩ := Array.getElem?_eq_some_iff.1 hentry
    exact hlt
  have hle' : range.start + range.length ≤ (arena.store m).parts.size := by
    rw [← Array.length_toList, parts_store, List.length_append, Array.length_toList]
    omega
  refine ⟨range, ?_, hle', ?_⟩
  · rw [get?_store_of_ne (Nat.ne_of_lt hlt), hentry]
  · rw [list?_of_le hle] at hlist
    rw [list?_of_le hle', parts_store, ← hlist]
    rw [List.drop_append_of_le_length, List.take_append_of_le_length]
    · rw [List.length_drop, Array.length_toList]
      omega
    · rw [Array.length_toList]
      omega

/-- The nodes that are stored one after another are all there in the end. -/
theorem holds_foldl {made : List Node} {b : Nat} (h : Made arena.size made b) :
    (made.foldl store arena).size = b ∧ (∀ n, arena.Holds n → (made.foldl store arena).Holds n) ∧
      ∀ n ∈ made, (made.foldl store arena).Holds n := by
  induction made generalizing arena with
  | nil => exact ⟨h.2.symm, fun _ hn => hn, nofun⟩
  | cons n made ih =>
    have h : Made arena.size ([n] ++ made) b := h
    obtain ⟨c, ⟨hserial, rfl⟩, hrest⟩ := h.of_append
    have hn : n.serial = arena.size := (List.cons.inj hserial).1
    have hrest : Made (arena.store n).size made b := by
      rw [size_store]
      exact hrest
    obtain ⟨hsize, hkept, hmade⟩ := ih hrest
    refine ⟨hsize, fun m hm => hkept m (hm.store n), ?_⟩
    exact List.forall_mem_cons.2 ⟨hkept n (holds_store hn), hmade⟩

/-- An entry that holds a node refers to the parts of the node. -/
theorem children_ofNode {range : Range} (h : arena.list? range = some (n.listed.map Node.serial)) :
    arena.children (.ofNode n range) = n.children.map Node.serial := by
  cases n <;> simp_all [children, Kind.ofNode, Kind.range?, Node.listed, Node.children]

theorem range_eq_of_ofNode {range stretch : Range}
    (h : (Kind.ofNode n stretch).range? = some range) : range = stretch := by
  cases n <;> first | exact (Option.some.inj h).symm | cases h

end Store

/-! ### The table of a unit -/

section Forest
variable {nodes : List Node} {b : Nat}

/-- The table of all nodes of some trees, in the order in which they are made. -/
def ofTrees (nodes : List Node) : Arena := ofNodes (nodes.flatMap Node.nodes)

theorem size_ofTrees (h : Made 0 (nodes.flatMap Node.nodes) b) : (ofTrees nodes).size = b := by
  have h : Made empty.size (nodes.flatMap Node.nodes) b := h
  exact (holds_foldl h).1

theorem holds_ofTrees (h : Made 0 (nodes.flatMap Node.nodes) b) :
    ∀ n ∈ nodes.flatMap Node.nodes, (ofTrees nodes).Holds n := by
  have h : Made empty.size (nodes.flatMap Node.nodes) b := h
  exact (holds_foldl h).2.2

/-- Every entry is that of a node. -/
theorem exists_of_get? (h : Made 0 (nodes.flatMap Node.nodes) b) {i : Nat} {entry : Entry}
    (he : (ofTrees nodes).get? i = some entry) :
    ∃ n ∈ nodes.flatMap Node.nodes, n.serial = i ∧ ∃ range, entry.kind = .ofNode n range ∧
      range.start + range.length ≤ (ofTrees nodes).parts.size ∧
      (ofTrees nodes).list? range = some (n.listed.map Node.serial) := by
  have hlt : i < (ofTrees nodes).size := (Array.getElem?_eq_some_iff.1 he).1
  have hmem : i ∈ (nodes.flatMap Node.nodes).map Node.serial := by
    rw [h.1, List.mem_range'_1]
    rw [size_ofTrees h, h.2] at hlt
    exact ⟨Nat.zero_le _, hlt⟩
  obtain ⟨n, hn, rfl⟩ := List.mem_map.1 hmem
  obtain ⟨range, hentry, hle, hlist⟩ := holds_ofTrees h n hn
  rw [he] at hentry
  cases hentry
  exact ⟨n, hn, rfl, range, rfl, hle, hlist⟩

theorem childrenAt_ofTrees (h : Made 0 (nodes.flatMap Node.nodes) b) {n : Node}
    (hn : n ∈ nodes.flatMap Node.nodes) :
    (ofTrees nodes).childrenAt n.serial = n.children.map Node.serial := by
  obtain ⟨range, hentry, -, hlist⟩ := holds_ofTrees h n hn
  unfold childrenAt
  rw [hentry]
  exact children_ofNode hlist

/-- **The table of trees that are numbered in order is a forest.** -/
theorem isForest_ofTrees (h : Made 0 (nodes.flatMap Node.nodes) b) :
    (ofTrees nodes).IsForest (nodes.map Node.serial) where
  earlier := by
    intro i entry he c hc
    obtain ⟨n, hn, rfl, range, hkind, -, hlist⟩ := exists_of_get? h he
    rw [hkind, children_ofNode hlist] at hc
    obtain ⟨child, hchild, rfl⟩ := List.mem_map.1 hc
    obtain ⟨root, hroot, hn⟩ := List.mem_flatMap.1 hn
    obtain ⟨c, d, hnodes⟩ := h.of_mem hroot
    exact hnodes.child_lt n hn child hchild
  inside := by
    intro i entry he range hrange
    obtain ⟨n, -, -, stretch, hkind, hle, -⟩ := exists_of_get? h he
    rw [hkind] at hrange
    rw [range_eq_of_ofNode hrange]
    exact hle
  present := by
    rw [size_ofTrees h]
    exact List.forall_mem_map.2 fun n hn =>
      h.lt_of_mem (List.mem_flatMap.2 ⟨n, hn, n.mem_nodes_self⟩)
  once := by
    intro i hi
    have hall : (nodes.flatMap Node.nodes).map Node.serial = List.range (ofTrees nodes).size := by
      rw [h.1, size_ofTrees h, h.2, List.range_eq_range', Nat.zero_add]
    have hchildren : (List.range (ofTrees nodes).size).flatMap (ofTrees nodes).childrenAt =
        ((nodes.flatMap Node.nodes).flatMap Node.children).map Node.serial := by
      rw [← hall, List.flatMap_map, List.map_flatMap, List.flatMap_def, List.flatMap_def]
      exact congrArg _ (List.map_congr_left fun n hn => childrenAt_ofTrees h hn)
    -- the numbers of the roots and of all parts are those of all nodes
    have hperm : (nodes.map Node.serial ++
        (List.range (ofTrees nodes).size).flatMap (ofTrees nodes).childrenAt).Perm
          (List.range (ofTrees nodes).size) := by
      rw [hchildren, ← List.map_append, ← hall]
      exact ((Node.flatMap_nodes_perm fun n _ => n.nodes_perm).map Node.serial).symm
    rw [hperm.count_eq, List.nodup_range.count, if_pos (List.mem_range.2 hi)]

end Forest

end Arena

end LarkPhp
