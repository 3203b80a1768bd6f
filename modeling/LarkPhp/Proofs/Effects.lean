import LarkPhp.Proofs.Rules
import LarkPhp.Proofs.Tree

/-!
What definitions do to the state.

Of all that is analyzed, only definitions change what is defined, and they define names of the
namespace around them.  A relation of the state before, the names that are defined and the state
after which holds of the single steps (`Effect`) holds of every form that is analyzed, with the names
that the definitions among its nodes define (`Effect.form`).
-/

namespace LarkPhp.Analysis

/-- What the definition of names in a namespace does to the state, in whatever order the names are
defined.  Nothing is done where no name is defined. -/
structure Effect (home : String) (E : State → List (String × String) → State → Prop) : Prop where
  draw (s : State) (n : Nat) : E s [] (s.drawnTo n)
  number (s : State) : E s [] s.numbered
  note (s : State) (f : Form) (position : Nat) (span : Option Span) : E s [] (s.noting f position span)
  announce (s : State) (name : String) (span : Option Span) :
    E s [(home, name)] (s.announcing home name span)
  trans {s names s₁ more s₂} : E s names s₁ → E s₁ more s₂ → E s (names ++ more) s₂
  perm {s s'} {names more : List (String × String)} : names.Perm more → E s names s' → E s more s'

namespace Effect

variable {home : String} {E : State → List (String × String) → State → Prop} (hE : Effect home E)
  {s s' : State} {scope : Scope} {span : Option Span} {n : Node} {ns : List Node} {fs : List Form}

/-- What is said of forms in the namespace: the effect is that of the definitions among the nodes. -/
def Of (home : String) (E : State → List (String × String) → State → Prop) : Judgement :=
  fun _ scope s n s' => scope.homeName = home → E s n.definitions s'

open Rules

include hE

theorem refl (s : State) : E s [] s := hE.draw s s.drawn

/-- The node of a construct that defines nothing by itself. -/
theorem node (h : E s (n.children.flatMap Node.definitions) s') (hn : n.defined? = none) :
    E s n.definitions s'.numbered := by
  rw [Node.definitions_eq, hn]
  exact hE.trans h (hE.number s')

theorem leaf (hc : n.children = []) (hn : n.defined? = none) : E s n.definitions s.numbered := by
  refine hE.node ?_ hn
  rw [hc]
  exact hE.refl s

/-! ### Sequences -/

theorem all (h : All (Of home E) scope fs s ns s') (hs : scope.homeName = home) :
    E s (ns.flatMap Node.definitions) s' := by
  induction h with
  | nil => exact hE.refl _
  | cons hf _ ih => exact hE.trans (hf hs) ih

theorem statements {position : Nat} (h : Statements (Of home E) span scope fs position s ns s')
    (hs : scope.homeName = home) :
    E s (ns.flatMap Node.definitions) s' := by
  induction h with
  | nil => exact hE.refl _
  | @cons f fs position s n s₁ ns s₂ hf _ ih =>
    exact hE.trans (hE.trans (hE.note s f position span) (hf hs)) ih

theorem block (h : Block (Of home E) scope span fs s n s') (hs : scope.homeName = home) :
    E s n.definitions s' := by
  cases h with
  | empty =>
    refine hE.node ?_ rfl
    rw [Node.children, List.nil_append, List.flatMap_singleton]
    exact hE.leaf rfl rfl
  | single hf =>
    refine hE.node ?_ rfl
    rw [Node.children, List.nil_append, List.flatMap_singleton]
    exact hf hs
  | sequence _ hstmts hf =>
    refine hE.node ?_ rfl
    rw [Node.children, List.flatMap_append, List.flatMap_singleton]
    exact hE.trans (hE.statements hstmts hs) (hf hs)

/-! ### Bindings -/

theorem name {x var : Symbol} {inner : Scope} (h : Name x scope s var inner s') :
    E s [] s' ∧ inner.homeName = scope.homeName := by
  cases h with
  | own => exact ⟨hE.refl s, rfl⟩
  | shadow => exact ⟨hE.draw _ _, rfl⟩

theorem values {pairs : List (Symbol × Form)} {last : Scope} {bs : List (Binding Node)}
    (h : Values (Of home E) pairs scope s bs last s') (hs : scope.homeName = home) :
    E s ((bs.map Binding.init).flatMap Node.definitions) s' ∧ last.homeName = home := by
  induction h with
  | nil => exact ⟨hE.refl _, hs⟩
  | cons hf hname _ ih =>
    obtain ⟨hbound, hinner⟩ := hE.name hname
    obtain ⟨hrest, hlast⟩ := ih (hinner.trans hs)
    exact ⟨hE.trans (hf hs) (hE.trans hbound hrest), hlast⟩

theorem bindings {pairs : List (Form × Form)} {body : List Form}
    (h : Let (Of home E) pairs body scope span s n s') (hs : scope.homeName = home) :
    E s n.definitions s' := by
  cases h with
  | intro _ hvalues hbody =>
    obtain ⟨hvalues, hinner⟩ := hE.values hvalues hs
    refine hE.node ?_ rfl
    rw [Node.children, List.flatMap_append, List.flatMap_singleton]
    exact hE.trans (hE.trans (hE.draw _ _) hvalues) (hE.block hbody hinner)

theorem body {patterns : List (Form × Form)} {body : List Form}
    (h : Body (Of home E) patterns body scope span s n s') (hs : scope.homeName = home) :
    E s n.definitions s' := by
  cases h with
  | plain _ h => exact hE.block h hs
  | patterns _ h => exact hE.bindings h hs

theorem binder {f : Form} {x : Symbol} {ps : List (Form × Form)} (h : Binder f s x ps s') :
    E s [] s' := by
  cases h with
  | name => exact hE.refl s
  | pattern => exact hE.draw _ _

theorem binders {xs : List Symbol} {ps : List (Form × Form)} (h : Binders fs s xs ps s') :
    E s [] s' := by
  induction h with
  | nil => exact hE.refl _
  | cons hf _ ih => exact hE.trans (hE.binder hf) ih

theorem params {ps : Parameters} (h : Params fs s ps s') : E s [] s' := by
  cases h with
  | fixed _ h => exact hE.binders h
  | variadic _ _ h => exact hE.binders h

/-! ### Special forms -/

theorem target {f : Form} {static : Bool} (h : Target (Of home E) scope f static s n s')
    (hs : scope.homeName = home) : E s n.definitions s' := by
  cases h with
  | className => exact hE.leaf rfl rfl
  | form h => exact h hs

theorem part {f : Form} {method : Bool} (h : Part (Of home E) scope f method s n s')
    (hs : scope.homeName = home) : E s n.definitions s' := by
  cases h with
  | method h => exact hE.node (hE.all h hs) rfl
  | property => exact hE.leaf rfl rfl

/-- The name is defined before the definitions of its value, which come first among the nodes. -/
theorem definition {x : Symbol} {init : Node} {i : Node.Info}
    (h : E (s.announcing scope.homeName x.name span) init.definitions s')
    (hs : scope.homeName = home) :
    E s (Node.definition scope.homeName x init i).definitions s'.numbered := by
  subst hs
  have hboth := hE.trans (hE.trans (hE.announce s x.name span) h) (hE.number s')
  rw [List.append_nil] at hboth
  refine hE.perm ?_ hboth
  have hnames : (Node.definition scope.homeName x init i).definitions =
      init.definitions ++ [(scope.homeName, x.name)] := by
    rw [Node.definitions_eq, Node.children, List.flatMap_singleton]
    rfl
  rw [hnames]
  exact (List.perm_append_singleton _ _).symm

theorem special {form : SpecialForm} {args : List Form}
    (h : Special (Of home E) scope span form args s n s') (hs : scope.homeName = home) :
    E s n.definitions s' := by
  cases h with
  | quote => exact hE.leaf rfl rfl
  | block h => exact hE.block h hs
  | branch hc ht =>
    refine hE.node ?_ rfl
    simpa [Node.children] using
      hE.trans (hc hs) (hE.trans (ht hs) (hE.leaf (n := .literal .nil _) rfl rfl))
  | branchElse hc ht he =>
    refine hE.node ?_ rfl
    simpa [Node.children] using hE.trans (hc hs) (hE.trans (ht hs) (he hs))
  | bindings _ h => exact hE.bindings h hs
  | function hps h =>
    refine hE.node ?_ rfl
    simpa [Node.children] using hE.trans (hE.params hps) (hE.body h hs)
  | definition _ h => exact hE.definition (h hs) hs
  | loop hb hcoll hname h =>
    obtain ⟨hbound, hinner⟩ := hE.name hname
    refine hE.node ?_ rfl
    simpa [Node.children] using hE.trans (hE.binder hb) (hE.trans (hcoll hs)
      (hE.trans hbound (hE.body h (hinner.trans hs))))
  | loopKey hk hb hcoll hname hkey h =>
    obtain ⟨hbound, hinner⟩ := hE.name hname
    obtain ⟨hbound', hinner'⟩ := hE.name hkey
    refine hE.node ?_ rfl
    simpa [Node.children] using hE.trans (hE.binder hk) (hE.trans (hE.binder hb)
      (hE.trans (hcoll hs) (hE.trans hbound (hE.trans hbound'
        (hE.body h (hinner'.trans (hinner.trans hs)))))))
  | throw h =>
    refine hE.node ?_ rfl
    simpa [Node.children] using h hs
  | new hc hargs => exact hE.node (hE.trans (hc hs) (hE.all hargs hs)) rfl
  | member ht hc | staticMember ht hc =>
    refine hE.node ?_ rfl
    simpa [Node.children] using hE.trans (hE.target ht hs) (hE.part hc hs)
  | arrayGet ha hi =>
    refine hE.node ?_ rfl
    simpa [Node.children] using hE.trans (ha hs) (hi hs)
  | arraySet ha hi hv =>
    refine hE.node ?_ rfl
    simpa [Node.children] using hE.trans (ha hs) (hE.trans (hi hs) (hv hs))

/-! ### Forms -/

/-- **The effect of a form is that of the definitions among its nodes.** -/
theorem form : Analysis.form.Sound (Of home E) := by
  refine form_induction ?_
  intro f scope s n s' h hs
  cases h with
  | scalar => exact hE.leaf rfl rfl
  | reference h => cases h <;> exact hE.leaf rfl rfl
  | unit => exact hE.leaf rfl rfl
  | special _ h => exact hE.special h hs
  | expansion _ _ _ he h =>
    rw [expand_ok he] at h
    exact hE.trans (hE.draw _ _) (h hs)
  | call _ _ _ _ hf hargs => exact hE.node (hE.trans (hf hs) (hE.all hargs hs)) rfl
  | tuple h | table h | set h | array h => exact hE.node (hE.all h hs) rfl

theorem unit {forms : List Form} (h : Analysis.unit forms scope s = .ok ns s')
    (hs : scope.homeName = home) : E s (ns.flatMap Node.definitions) s' :=
  hE.all (all_sound hE.form (withdrawing_ok h)) hs

end Effect

end LarkPhp.Analysis
