import LarkPhp.Proofs.Destructuring
import LarkPhp.Proofs.Rules

/-!
What only grows.

While forms are analyzed, symbols are drawn and never put back, and no macro comes or goes
(`Grown`).  If that holds of the parts of a form, it holds of the form.
-/

namespace LarkPhp.Analysis

/-- Symbols were drawn, and the macros are the same. -/
structure Grown (s s' : State) : Prop where
  drawn : s.drawn ≤ s'.drawn
  expanders : s'.globals.expanders = s.globals.expanders

section Grown
variable {s s₁ s₂ s' : State}

theorem Grown.refl (s : State) : Grown s s := ⟨Nat.le_refl _, rfl⟩

theorem Grown.trans (h : Grown s s₁) (h' : Grown s₁ s₂) : Grown s s₂ :=
  ⟨Nat.le_trans h.drawn h'.drawn, h'.expanders.trans h.expanders⟩

theorem Grown.numbered (h : Grown s s') : Grown s s'.numbered := ⟨h.drawn, h.expanders⟩

theorem grown_drawnTo {n : Nat} (h : s.drawn ≤ n) : Grown s (s.drawnTo n) := ⟨h, rfl⟩

theorem grown_noting (f : Form) (position : Nat) (span : Option Span) :
    Grown s (s.noting f position span) := by
  constructor
  · exact Nat.le_of_eq (State.drawn_noting ..).symm
  · rw [State.globals_noting]

theorem grown_announcing (home name : String) (span : Option Span) :
    Grown s (s.announcing home name span) := by
  constructor
  · exact Nat.le_of_eq (State.drawn_announcing ..).symm
  · rw [State.globals_announcing, Globals.expanders_define]

theorem grown_expand {name : Symbol} {expander : Expander} {call : Call} {f : Form}
    (h : expand name expander call s = .ok f s') : Grown s s' := by
  rw [expand_ok h]
  exact grown_drawnTo (Nat.le_add_right _ _)

open Rules

theorem grown_name {name var : Symbol} {scope inner : Scope} (h : Name name scope s var inner s') :
    Grown s s' := by
  cases h with
  | own => exact .refl s
  | shadow => exact grown_drawnTo (Nat.le_succ _)

theorem grown_binder {f : Form} {n : Symbol} {ps : List (Form × Form)} (h : Binder f s n ps s') :
    Grown s s' := by
  cases h with
  | name => exact .refl s
  | pattern => exact grown_drawnTo (Nat.le_succ _)

theorem grown_binders {fs : List Form} {ns : List Symbol} {ps : List (Form × Form)}
    (h : Binders fs s ns ps s') : Grown s s' := by
  induction h with
  | nil => exact .refl _
  | cons hf _ ih => exact (grown_binder hf).trans ih

theorem grown_params {fs : List Form} {ps : Parameters} (h : Params fs s ps s') : Grown s s' := by
  cases h with
  | fixed _ h => exact grown_binders h
  | variadic _ _ h => exact grown_binders h

end Grown

/-! ### Forms -/

section Forms
variable {J : Judgement} (hJ : ∀ {f scope s n s'}, J f scope s n s' → Grown s s')
variable {scope : Scope} {span : Option Span} {s s' : State} {n : Node}
include hJ

open Rules

theorem grown_all {fs : List Form} {ns : List Node} (h : All J scope fs s ns s') : Grown s s' := by
  induction h with
  | nil => exact .refl _
  | cons hf _ ih => exact (hJ hf).trans ih

theorem grown_statements {fs : List Form} {position : Nat} {ns : List Node}
    (h : Statements J span scope fs position s ns s') : Grown s s' := by
  induction h with
  | nil => exact .refl _
  | cons hf _ ih => exact (grown_noting _ _ _).trans ((hJ hf).trans ih)

theorem grown_block {fs : List Form} (h : Block J scope span fs s n s') : Grown s s' := by
  cases h with
  | empty => exact (Grown.refl s).numbered.numbered
  | single hf => exact (hJ hf).numbered
  | sequence _ hs hf => exact ((grown_statements hJ hs).trans (hJ hf)).numbered

theorem grown_values {pairs : List (Symbol × Form)} {last : Scope} {bs : List (Binding Node)}
    (h : Values J pairs scope s bs last s') : Grown s s' := by
  induction h with
  | nil => exact .refl _
  | cons hf hname _ ih => exact (hJ hf).trans ((grown_name hname).trans ih)

theorem grown_let {pairs : List (Form × Form)} {body : List Form}
    (h : Let J pairs body scope span s n s') : Grown s s' := by
  cases h with
  | intro hb hvalues hbody =>
    have hdraw := grown_drawnTo (Pattern.expands_bindAll hb).1
    exact (hdraw.trans ((grown_values hJ hvalues).trans (grown_block hJ hbody))).numbered

theorem grown_body {patterns : List (Form × Form)} {body : List Form}
    (h : Body J patterns body scope span s n s') : Grown s s' := by
  cases h with
  | plain _ h => exact grown_block hJ h
  | patterns _ h => exact grown_let hJ h

theorem grown_target {f : Form} {static : Bool} (h : Target J scope f static s n s') :
    Grown s s' := by
  cases h with
  | className => exact (Grown.refl s).numbered
  | form h => exact hJ h

theorem grown_part {f : Form} {method : Bool} (h : Part J scope f method s n s') : Grown s s' := by
  cases h with
  | method h => exact (grown_all hJ h).numbered
  | property => exact (Grown.refl s).numbered

theorem grown_special {form : SpecialForm} {args : List Form}
    (h : Special J scope span form args s n s') : Grown s s' := by
  cases h with
  | quote => exact (Grown.refl s).numbered
  | block h => exact grown_block hJ h
  | branch hc ht => exact ((hJ hc).trans (hJ ht)).numbered.numbered
  | branchElse hc ht he => exact ((hJ hc).trans ((hJ ht).trans (hJ he))).numbered
  | bindings _ h => exact grown_let hJ h
  | function hps h => exact ((grown_params hps).trans (grown_body hJ h)).numbered
  | definition _ h => exact ((grown_announcing _ _ _).trans (hJ h)).numbered
  | loop hb hcoll hname h =>
    exact ((grown_binder hb).trans ((hJ hcoll).trans ((grown_name hname).trans
      (grown_body hJ h)))).numbered
  | loopKey hk hb hcoll hname hkey h =>
    exact ((grown_binder hk).trans ((grown_binder hb).trans ((hJ hcoll).trans
      ((grown_name hname).trans ((grown_name hkey).trans (grown_body hJ h)))))).numbered
  | throw h => exact (hJ h).numbered
  | new hc hargs => exact ((hJ hc).trans (grown_all hJ hargs)).numbered
  | member ht hc | staticMember ht hc =>
    exact ((grown_target hJ ht).trans (grown_part hJ hc)).numbered
  | arrayGet ha hi => exact ((hJ ha).trans (hJ hi)).numbered
  | arraySet ha hi hx => exact ((hJ ha).trans ((hJ hi).trans (hJ hx))).numbered

/-- **Analysis only grows the state,** if it does so for the parts. -/
theorem grown_step {f : Form} (h : Step J scope f s n s') : Grown s s' := by
  cases h with
  | scalar | reference | unit => exact (Grown.refl s).numbered
  | special _ h => exact grown_special hJ h
  | expansion _ _ _ he h => exact (grown_expand he).trans (hJ h)
  | call _ _ _ _ hf hargs => exact ((hJ hf).trans (grown_all hJ hargs)).numbered
  | tuple h | table h | set h | array h => exact (grown_all hJ h).numbered

end Forms

end LarkPhp.Analysis
