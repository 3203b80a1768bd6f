import LarkPhp.Php.Code
import LarkPhp.Proofs.Tree

/-!
Nodes up to their serial numbers.

The serial numbers of the nodes of a form depend on what was analyzed before it.  Everything else
about a node is in `Node.unnumbered`, and the code of a node is read off that: two nodes that are
alike up to their numbers are written as the same text.
-/

namespace LarkPhp

namespace Node

/-! ### Changing what nodes carry -/

mutual
/-- The node with what it carries changed, at every level. -/
def mapInfo (f : Info → Info) : Node → Node
  | literal v i => literal v (f i)
  | localVar v i => localVar v (f i)
  | globalVar home name i => globalVar home name (f i)
  | hostVar name i => hostVar name (f i)
  | className name i => className name (f i)
  | call callee args i => call (callee.mapInfo f) (mapInfoAll f args) (f i)
  | block stmts last i => block (mapInfoAll f stmts) (last.mapInfo f) (f i)
  | branch test yes no i => branch (test.mapInfo f) (yes.mapInfo f) (no.mapInfo f) (f i)
  | bindings bs body i => bindings (mapInfoInits f bs) (body.mapInfo f) (f i)
  | function params variadic uses body i => function params variadic uses (body.mapInfo f) (f i)
  | definition home name init i => definition home name (init.mapInfo f) (f i)
  | loop value key coll body i => loop value key (coll.mapInfo f) (body.mapInfo f) (f i)
  | throw x i => throw (x.mapInfo f) (f i)
  | table items i => table (mapInfoAll f items) (f i)
  | array items i => array (mapInfoAll f items) (f i)
  | set items i => set (mapInfoAll f items) (f i)
  | tuple items i => tuple (mapInfoAll f items) (f i)
  | new cls args i => new (cls.mapInfo f) (mapInfoAll f args) (f i)
  | member object part static method i =>
    member (object.mapInfo f) (part.mapInfo f) static method (f i)
  | methodCall name args i => methodCall name (mapInfoAll f args) (f i)
  | property name i => property name (f i)
  | arrayGet base index i => arrayGet (base.mapInfo f) (index.mapInfo f) (f i)
  | arraySet base index value i =>
    arraySet (base.mapInfo f) (index.mapInfo f) (value.mapInfo f) (f i)

/-- The nodes with what they carry changed. -/
def mapInfoAll (f : Info → Info) : List Node → List Node
  | [] => []
  | n :: ns => n.mapInfo f :: mapInfoAll f ns

/-- The bindings with what the nodes of their values carry changed. -/
def mapInfoInits (f : Info → Info) : List (Binding Node) → List (Binding Node)
  | [] => []
  | ⟨name, var, init⟩ :: bs => ⟨name, var, init.mapInfo f⟩ :: mapInfoInits f bs
end

section MapInfo
variable (f : Info → Info)

theorem mapInfoAll_eq (ns : List Node) : mapInfoAll f ns = ns.map (mapInfo f) := by
  induction ns with
  | nil => rfl
  | cons n ns ih => simp [mapInfoAll, ih]

theorem mapInfoInits_eq (bs : List (Binding Node)) :
    mapInfoInits f bs = bs.map fun b => { b with init := b.init.mapInfo f } := by
  induction bs with
  | nil => rfl
  | cons b bs ih => simp [mapInfoInits, ih]

theorem info_mapInfo (n : Node) : (n.mapInfo f).info = f n.info := by
  cases n <;> rfl

theorem mapInfo_id (n : Node) : n.mapInfo id = n := by
  induction n using Node.ind with
  | _ n ih =>
    have hall : ∀ ns : List Node, ns ⊆ n.children → mapInfoAll id ns = ns := by
      intro ns hns
      rw [mapInfoAll_eq, List.map_congr_left fun c hc => ih c (hns hc), List.map_id']
    cases n with
    | bindings bs body i =>
      have hbs : mapInfoInits id bs = bs := by
        rw [mapInfoInits_eq]
        refine (List.map_congr_left fun b hb => ?_).trans (List.map_id' bs)
        rw [ih b.init (List.mem_append_left _ (List.mem_map_of_mem hb))]
      rw [mapInfo, hbs, ih body (by simp [children]), id_eq]
    | call callee args i | new callee args i =>
      rw [mapInfo, ih callee (by simp [children]), hall args (by simp [children]), id_eq]
    | block stmts last i =>
      rw [mapInfo, ih last (by simp [children]), hall stmts (by simp [children]), id_eq]
    | table items i | array items i | set items i | tuple items i | methodCall name items i =>
      rw [mapInfo, hall items (by simp [children]), id_eq]
    | branch a b c i | arraySet a b c i =>
      rw [mapInfo, ih a (by simp [children]), ih b (by simp [children]),
        ih c (by simp [children]), id_eq]
    | loop v key a b i | member a b static method i | arrayGet a b i =>
      rw [mapInfo, ih a (by simp [children]), ih b (by simp [children]), id_eq]
    | function params variadic uses a i | definition home name a i | throw a i =>
      rw [mapInfo, ih a (by simp [children]), id_eq]
    | _ => rfl

end MapInfo

/-! ### Serial numbers -/

/-- What a node carries beside its number. -/
def Info.unnumbered (i : Info) : Info := { i with serial := 0 }

/-- The node without its numbers. -/
def unnumbered : Node → Node := mapInfo Info.unnumbered

end Node

/-- The binding without the numbers of its value. -/
def Binding.unnumbered (b : Binding Node) : Binding Node := { b with init := b.init.unnumbered }

/-! ### Code -/

namespace Php

section Code
variable {f : Node.Info → Node.Info} (hf : ∀ i, (f i).scope = i.scope) (config : Config)

theorem assignable_mapInfo (n : Node) : assignable (n.mapInfo f) = assignable n := by
  induction n using Node.ind with
  | _ n ih =>
    cases n with
    | arrayGet base index i =>
      simp only [Node.mapInfo, assignable]
      exact ih base (List.mem_cons_self ..)
    | _ => rfl

theorem application_mapInfo (n : Node) (text : String) (args : List String) :
    application (n.mapInfo f) text args = application n text args := by
  cases n <;> rfl

theorem target_mapInfo (n : Node) (text : String) : target (n.mapInfo f) text = target n text := by
  cases n <;> rfl

theorem subscript_mapInfo (n : Node) (text index : String) :
    subscript (n.mapInfo f) text index = subscript n text index := by
  unfold subscript
  rw [assignable_mapInfo]

theorem assignments_eq (bs : List (Binding Node)) (depth : Nat) :
    assignments config bs depth = String.join (bs.map fun b =>
      line config depth (var b.var ++ " = " ++ code config b.init depth ++ ";")) := by
  induction bs with
  | nil => rfl
  | cons b bs ih => simp [assignments, ih]

include hf in
/-- **The code of a node does not depend on its numbers and places.**  Of what a node carries, only
the scope decides how it is written. -/
theorem code_mapInfo (n : Node) (depth : Nat) :
    code config (n.mapInfo f) depth = code config n depth := by
  induction n using Node.ind generalizing depth with
  | _ n ih =>
    -- the codes of a list of children stay the same one by one
    have hall : ∀ ns : List Node, (∀ c ∈ ns, c ∈ n.children) → ∀ depth,
        codes config (Node.mapInfoAll f ns) depth = codes config ns depth := by
      intro ns hns depth
      rw [Node.mapInfoAll_eq, codes_eq, codes_eq, List.map_map]
      exact List.map_congr_left fun c hc => ih c (hns c hc) depth
    cases n with
    | bindings bs body i =>
      have hbody := ih body (by simp [Node.children])
      have hbs : ∀ depth, assignments config (Node.mapInfoInits f bs) depth =
          assignments config bs depth := by
        intro depth
        rw [Node.mapInfoInits_eq, assignments_eq, assignments_eq, List.map_map]
        congr 1
        refine List.map_congr_left fun b hb => ?_
        have hb := ih b.init (List.mem_append_left _ (List.mem_map_of_mem hb)) depth
        simp only [Function.comp_apply, hb]
      simp only [Node.mapInfo, code, hf, hbs, hbody]
    | block stmts last i =>
      have hstmts := hall stmts fun c hc => List.mem_append_left _ hc
      have hlast := ih last (by simp [Node.children])
      have hempty : (Node.mapInfoAll f stmts).isEmpty = stmts.isEmpty := by cases stmts <;> rfl
      simp only [Node.mapInfo, code, hf, hstmts, hlast, hempty]
    | call callee args i | new callee args i =>
      have hargs := hall args fun c hc => List.mem_cons_of_mem _ hc
      have hcallee := ih callee (List.mem_cons_self ..)
      simp only [Node.mapInfo, code, hf, hargs, hcallee, application_mapInfo, target_mapInfo]
    | table items i | array items i | set items i | tuple items i | methodCall name items i =>
      have hitems := hall items fun c hc => hc
      simp only [Node.mapInfo, code, hf, hitems]
    | branch a b c i | arraySet a b c i =>
      have ha := ih a (by simp [Node.children])
      have hb := ih b (by simp [Node.children])
      have hc := ih c (by simp [Node.children])
      simp only [Node.mapInfo, code, hf, ha, hb, hc, subscript_mapInfo]
    | loop v key a b i =>
      have ha := ih a (by simp [Node.children])
      have hb := ih b (by simp [Node.children])
      simp only [Node.mapInfo, code, hf, ha, hb]
    | member a b static method i =>
      have ha := ih a (by simp [Node.children])
      have hb := ih b (by simp [Node.children])
      simp only [Node.mapInfo, code, hf, ha, hb, target_mapInfo]
    | arrayGet a b i =>
      have ha := ih a (by simp [Node.children])
      have hb := ih b (by simp [Node.children])
      simp only [Node.mapInfo, code, hf, ha, hb, subscript_mapInfo]
    | function params variadic uses a i =>
      have ha := ih a (by simp [Node.children])
      simp only [Node.mapInfo, code, hf, ha]
    | definition home name a i =>
      have ha := ih a (by simp [Node.children])
      simp only [Node.mapInfo, code, hf, ha]
    | throw a i =>
      have ha := ih a (by simp [Node.children])
      simp only [Node.mapInfo, code, hf, ha]
    | _ => simp only [Node.mapInfo, code, hf]

end Code

theorem root_unnumbered (config : Config) (n : Node) :
    root config n.unnumbered = root config n := by
  have hcode := code_mapInfo (f := Node.Info.unnumbered) (fun _ => rfl) config n 0
  have hlocation : n.unnumbered.location = n.location := by
    show (n.mapInfo _).info.location = n.info.location
    rw [Node.info_mapInfo]
    rfl
  unfold root
  rw [hlocation]
  unfold Node.unnumbered
  rw [hcode]

/-- Nodes that are alike up to their numbers are written as the same text. -/
theorem roots_eq_of_unnumbered_eq (config : Config) {ns ms : List Node}
    (h : ns.map Node.unnumbered = ms.map Node.unnumbered) :
    ns.map (root config) = ms.map (root config) := by
  have hroot : root config ∘ Node.unnumbered = root config := funext (root_unnumbered config)
  rw [← hroot, ← List.map_map, ← List.map_map, h]

end Php

end LarkPhp
