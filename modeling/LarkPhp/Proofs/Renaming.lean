import LarkPhp.Proofs.View

/-!
Renaming symbols in forms, scopes and nodes.

Where a view compares everything, what it relates to a form, a scope or a node is the form, scope or
node itself with its symbols renamed (`View.Nodes.eq_rename`).
-/

namespace LarkPhp

/-! ### Forms -/

namespace Form

mutual
/-- The form with its symbols renamed. -/
def rename (ρ : Symbol → Symbol) : Form → Form
  | .symbol x p => .symbol (ρ x) p
  | .tuple d xs p => .tuple d (renameAll ρ xs) p
  | .table es p => .table (renameEntries ρ es) p
  | .set xs p => .set (renameAll ρ xs) p
  | .array xs p => .array (renameAll ρ xs) p
  | scalar => scalar

/-- The forms with their symbols renamed. -/
def renameAll (ρ : Symbol → Symbol) : List Form → List Form
  | [] => []
  | f :: fs => f.rename ρ :: renameAll ρ fs

/-- The keys and values with their symbols renamed. -/
def renameEntries (ρ : Symbol → Symbol) : List (Form × Form) → List (Form × Form)
  | [] => []
  | (k, f) :: es => (k.rename ρ, f.rename ρ) :: renameEntries ρ es
end

theorem flatten_renameEntries (ρ : Symbol → Symbol) (es : List (Form × Form)) :
    Analysis.flatten (renameEntries ρ es) = renameAll ρ (Analysis.flatten es) := by
  induction es with
  | nil => rfl
  | cons e es ih =>
    obtain ⟨k, f⟩ := e
    exact congrArg (fun fs => k.rename ρ :: f.rename ρ :: fs) ih

end Form

/-! ### Scopes and nodes -/

/-- The scope with its symbols renamed. -/
def Scope.rename (ρ : Symbol → Symbol) (s : Scope) : Scope :=
  { s with
    locals := s.locals.map ρ
    shadows := s.shadows.map fun e => (ρ e.1, ρ e.2) }

namespace Node

/-- What a node carries, with its symbols renamed. -/
def Info.rename (ρ : Symbol → Symbol) (i : Info) : Info := { i with scope := i.scope.rename ρ }

mutual
/-- The node with its symbols renamed, at every level. -/
def rename (ρ : Symbol → Symbol) : Node → Node
  | literal f i => literal (f.rename ρ) (i.rename ρ)
  | localVar x i => localVar (ρ x) (i.rename ρ)
  | globalVar home x i => globalVar home (ρ x) (i.rename ρ)
  | hostVar x i => hostVar (ρ x) (i.rename ρ)
  | className x i => className (ρ x) (i.rename ρ)
  | call f args i => call (f.rename ρ) (renameAll ρ args) (i.rename ρ)
  | block stmts last i => block (renameAll ρ stmts) (last.rename ρ) (i.rename ρ)
  | branch test yes no i => branch (test.rename ρ) (yes.rename ρ) (no.rename ρ) (i.rename ρ)
  | bindings bs body i => bindings (renameBindings ρ bs) (body.rename ρ) (i.rename ρ)
  | function params variadic uses body i =>
    function (params.map ρ) variadic (uses.map ρ) (body.rename ρ) (i.rename ρ)
  | definition home x init i => definition home (ρ x) (init.rename ρ) (i.rename ρ)
  | loop value key coll body i =>
    loop (ρ value) (key.map ρ) (coll.rename ρ) (body.rename ρ) (i.rename ρ)
  | throw x i => throw (x.rename ρ) (i.rename ρ)
  | table items i => table (renameAll ρ items) (i.rename ρ)
  | array items i => array (renameAll ρ items) (i.rename ρ)
  | set items i => set (renameAll ρ items) (i.rename ρ)
  | tuple items i => tuple (renameAll ρ items) (i.rename ρ)
  | new cls args i => new (cls.rename ρ) (renameAll ρ args) (i.rename ρ)
  | member object part static method i =>
    member (object.rename ρ) (part.rename ρ) static method (i.rename ρ)
  | methodCall x args i => methodCall (ρ x) (renameAll ρ args) (i.rename ρ)
  | property x i => property (ρ x) (i.rename ρ)
  | arrayGet base index i => arrayGet (base.rename ρ) (index.rename ρ) (i.rename ρ)
  | arraySet base index value i =>
    arraySet (base.rename ρ) (index.rename ρ) (value.rename ρ) (i.rename ρ)

/-- The nodes with their symbols renamed. -/
def renameAll (ρ : Symbol → Symbol) : List Node → List Node
  | [] => []
  | n :: ns => n.rename ρ :: renameAll ρ ns

/-- The bindings with their symbols renamed. -/
def renameBindings (ρ : Symbol → Symbol) : List (Binding Node) → List (Binding Node)
  | [] => []
  | ⟨name, var, init⟩ :: bs => ⟨ρ name, ρ var, init.rename ρ⟩ :: renameBindings ρ bs
end

theorem renameAll_eq (ρ : Symbol → Symbol) (ns : List Node) :
    renameAll ρ ns = ns.map (rename ρ) := by
  induction ns with
  | nil => rfl
  | cons n ns ih => rw [renameAll, ih, List.map_cons]

/-- Bindings are renamed by renaming names, variables and values. -/
theorem eq_renameBindings {ρ : Symbol → Symbol} {bs cs : List (Binding Node)}
    (hnames : cs.map Binding.name = bs.map fun b => ρ b.name)
    (hvars : cs.map Binding.var = bs.map fun b => ρ b.var)
    (hinits : cs.map Binding.init = (bs.map Binding.init).map (rename ρ)) :
    cs = renameBindings ρ bs := by
  induction bs generalizing cs with
  | nil => exact List.map_eq_nil_iff.1 hnames
  | cons b bs ih =>
    cases cs with
    | nil => cases hnames
    | cons c cs =>
      obtain ⟨hname, hnames⟩ := List.cons.inj hnames
      obtain ⟨hvar, hvars⟩ := List.cons.inj hvars
      obtain ⟨hinit, hinits⟩ := List.cons.inj hinits
      dsimp only at hname hvar
      rw [renameBindings, ← ih hnames hvars hinits, ← hname, ← hvar, ← hinit]

end Node

/-! ### What a view relates -/

namespace View

variable {v : View}

theorem Forms.eq_rename {f g : Form} (h : v.Forms f g) (hp : v.places = true) :
    g = f.rename v.rename := by
  induction f using Form.ind generalizing g with
  | _ f ih =>
    have hall : ∀ {xs ys : List Form}, List.Forall₂ (fun x y => y = x.rename v.rename) xs ys →
        ys = Form.renameAll v.rename xs := by
      intro xs ys hxy
      induction hxy with
      | nil => rfl
      | cons hx _ ihxs => rw [Form.renameAll, ← hx, ← ihxs]
    have hparts : g.parts = Form.renameAll v.rename f.parts :=
      hall (((List.forall₂_and_left _ _).2 ⟨ih, h.parts⟩).imp fun x y hxy => hxy.1 hxy.2)
    cases h with
    | scalar hs => cases f <;> first | rfl | cases hs
    | symbol hpq => rw [Form.rename, hpq hp]
    | tuple _ hpq => exact congrArg₂ _ hparts (hpq hp).symm
    | table _ hpq =>
      have hentries := hparts.trans (Form.flatten_renameEntries v.rename _).symm
      exact congrArg₂ _ (Form.flatten_injective hentries) (hpq hp).symm
    | set _ hpq => exact congrArg₂ _ hparts (hpq hp).symm
    | array _ hpq => exact congrArg₂ _ hparts (hpq hp).symm

theorem Scopes.eq_rename {s t : Scope} (h : v.Scopes s t) (hc : v.contexts = true) :
    t = s.rename v.rename := by
  obtain ⟨locals, shadows, context, home⟩ := t
  obtain rfl : locals = s.locals.map v.rename := h.locals
  obtain rfl : shadows = s.shadows.map fun e => (v.rename e.1, v.rename e.2) := h.shadows
  obtain rfl : s.context = context := h.context hc
  obtain rfl : s.home = home := h.home
  rfl

theorem Infos.eq_rename {i j : Node.Info} (h : v.Infos i j) (hp : v.places = true)
    (hc : v.contexts = true) (hn : v.numbers = true) : j = i.rename v.rename := by
  obtain ⟨serial, scope, location⟩ := j
  obtain rfl : i.serial = serial := h.serial hn
  obtain rfl : scope = i.scope.rename v.rename := h.scope.eq_rename hc
  obtain rfl : i.location = location := h.location hp
  rfl

/-- **Where everything is compared, the right node is the left one with its symbols renamed.** -/
theorem Nodes.eq_rename {n m : Node} (h : v.Nodes n m) (hp : v.places = true)
    (hc : v.contexts = true) (hn : v.numbers = true) : m = n.rename v.rename := by
  induction n using Node.ind generalizing m with
  | _ n ih =>
    have hall : ∀ {ns ms : List Node}, ns ⊆ n.children → List.Forall₂ v.Nodes ns ms →
        ms = ns.map (Node.rename v.rename) := by
      intro ns ms hsub hns
      induction hns with
      | nil => rfl
      | cons hn _ ihns =>
        rw [List.cons_subset] at hsub
        rw [List.map_cons, ← ih _ hsub.1 hn, ← ihns hsub.2]
    have hnode : ∀ {c d : Node}, c ∈ n.children → v.Nodes c d → d = c.rename v.rename :=
      fun hmem hcd => ih _ hmem hcd
    have hinfo : ∀ {i j : Node.Info}, v.Infos i j → j = i.rename v.rename :=
      fun hij => hij.eq_rename hp hc hn
    cases h with
    | literal hf hij => rw [Node.rename, ← hf.eq_rename hp, ← hinfo hij]
    | bindings hnames hvars hinits hbody hij =>
      have hinits := hall (by simp [Node.children]) hinits
      have hbody := hnode (by simp [Node.children]) hbody
      rw [Node.rename, ← Node.eq_renameBindings hnames hvars hinits, ← hbody, ← hinfo hij]
    | localVar hij | globalVar hij | hostVar hij | className hij | property hij =>
      rw [Node.rename, ← hinfo hij]
    | call hf hxs hij | new hf hxs hij =>
      have hf := hnode (by simp [Node.children]) hf
      have hxs := hall (by simp [Node.children]) hxs
      rw [Node.rename, Node.renameAll_eq, ← hf, ← hxs, ← hinfo hij]
    | block hxs hf hij =>
      have hf := hnode (by simp [Node.children]) hf
      have hxs := hall (by simp [Node.children]) hxs
      rw [Node.rename, Node.renameAll_eq, ← hf, ← hxs, ← hinfo hij]
    | branch ha hb hc hij | arraySet ha hb hc hij =>
      have ha := hnode (by simp [Node.children]) ha
      have hb := hnode (by simp [Node.children]) hb
      have hc := hnode (by simp [Node.children]) hc
      rw [Node.rename, ← ha, ← hb, ← hc, ← hinfo hij]
    | loop ha hb hij | member ha hb hij | arrayGet ha hb hij =>
      have ha := hnode (by simp [Node.children]) ha
      have hb := hnode (by simp [Node.children]) hb
      rw [Node.rename, ← ha, ← hb, ← hinfo hij]
    | function ha hij | definition ha hij | throw ha hij =>
      have ha := hnode (by simp [Node.children]) ha
      rw [Node.rename, ← ha, ← hinfo hij]
    | table hxs hij | array hxs hij | set hxs hij | tuple hxs hij | methodCall hxs hij =>
      have hxs := hall (by simp [Node.children]) hxs
      rw [Node.rename, Node.renameAll_eq, ← hxs, ← hinfo hij]

theorem eq_map_rename {ns ms : List Node} (h : List.Forall₂ v.Nodes ns ms) (hp : v.places = true)
    (hc : v.contexts = true) (hn : v.numbers = true) : ms = ns.map (Node.rename v.rename) := by
  induction h with
  | nil => rfl
  | cons hnm _ ih => rw [List.map_cons, ← ih, ← hnm.eq_rename hp hc hn]

end View

end LarkPhp
