import LarkPhp.Session
import LarkPhp.Proofs.CodeGrammar
import LarkPhp.Proofs.Lexical
import Mathlib.Logic.Relation

/-!
Names of variables.

Code spells a variable by its munged bare name alone: qualifiers and generations are dropped.  Names are
munged to one identifier exactly if they are respellings of each other (`munge_eq_iff`), that is, if
one becomes the other as characters are replaced by what is written for them, or the other way.

Where a name is bound a second time it stands for a drawn symbol, and drawn symbols are spelled apart.
So there are two ways for locals to share a variable of the code (`Scope.Shares`): both stand for
themselves and are respellings of each other, or one stands for itself and is written like the drawn
symbol that the other one stands for.
-/

namespace LarkPhp

/-- The symbol is the one that a supply yields in its generation. -/
def Symbol.Drawn (v : Symbol) : Prop := v = .fresh v.generation

instance (v : Symbol) : Decidable v.Drawn := inferInstanceAs (Decidable (v = _))

namespace Php

/-! ### Respellings -/

/-- The characters that no identifier takes, and what is written for them. -/
def spellings : List (Char × String) :=
  [('-', "_"), ('?', "__Q"), ('!', "__E"), ('*', "__S"), ('>', "__GT"), ('<', "__LT"), ('=', "__EQ"),
    ('/', "__SL"), ('+', "__P"), ('%', "__PC"), ('&', "__A"), ('.', "__D"), ('\'', "__QT")]

/-- A name with such a character, and the name with what is written for it instead. -/
inductive Respelling : String → String → Prop
  | intro (before after : String) {c : Char} {text : String} :
    (c, text) ∈ spellings →
    Respelling (before ++ String.singleton c ++ after) (before ++ text ++ after)

/-- Names that become one another by respellings, in either direction. -/
def Respelled : String → String → Prop := Relation.EqvGen Respelling

/-- The name with underscores for its dashes. -/
def underscored (name : String) : String := name.map fun c => if c = '-' then '_' else c

section Respelled
variable {a b : String} {c : Char}

theorem toList_munge (name : String) : (munge name).toList = name.toList.flatMap mungeChar :=
  String.toList_ofList

theorem munge_append (a b : String) : munge (a ++ b) = munge a ++ munge b := by
  apply String.ext
  rw [String.toList_append, toList_munge, toList_munge, toList_munge, String.toList_append,
    List.flatMap_append]

/-- A character either stays as it is or is in the table. -/
theorem mungeChar_self_or_spelled (c : Char) :
    mungeChar c = [c] ∨ ∃ text, (c, text) ∈ spellings ∧ mungeChar c = text.toList := by
  by_cases h : c ∈ spellings.map Prod.fst
  · obtain ⟨⟨d, text⟩, hmem, rfl⟩ := List.mem_map.1 h
    have htable : spellings.all (fun e => mungeChar e.1 == e.2.toList) = true := by decide
    exact .inr ⟨text, hmem, beq_iff_eq.1 (List.all_eq_true.1 htable _ hmem)⟩
  · left
    unfold mungeChar
    split
    iterate 13 exact absurd (by decide) h
    rfl

/-- What is written for a character is munged to the same identifier as the character. -/
theorem munge_of_mem_spellings {text : String} (h : (c, text) ∈ spellings) :
    munge (String.singleton c) = munge text := by
  have htable : spellings.all (fun e => mungeChar e.1 == e.2.toList.flatMap mungeChar) = true := by
    decide
  have hchar : mungeChar c = text.toList.flatMap mungeChar :=
    beq_iff_eq.1 (List.all_eq_true.1 htable _ h)
  apply String.ext
  rw [toList_munge, toList_munge, String.toList_singleton, List.flatMap_singleton, hchar]

theorem munge_eq_of_respelling (h : Respelling a b) : munge a = munge b := by
  obtain ⟨before, after, hmem⟩ := h
  simp only [munge_append, munge_of_mem_spellings hmem]

theorem Respelled.trans {c : String} (hab : Respelled a b) (hbc : Respelled b c) : Respelled a c :=
  Relation.EqvGen.trans _ _ _ hab hbc

/-- One character after the other can be replaced by what is written for it. -/
theorem respelled_flatMap (before : String) (cs : List Char) :
    Respelled (before ++ String.ofList cs) (before ++ String.ofList (cs.flatMap mungeChar)) := by
  induction cs generalizing before with
  | nil => exact .refl _
  | cons c cs ih =>
    have hcons : before ++ String.ofList (c :: cs) =
        before ++ String.singleton c ++ String.ofList cs := by
      apply String.ext
      simp
    have hflat : before ++ String.ofList ((c :: cs).flatMap mungeChar) =
        before ++ String.ofList (mungeChar c) ++ String.ofList (cs.flatMap mungeChar) := by
      apply String.ext
      simp
    have hhead : Respelled (before ++ String.singleton c ++ String.ofList cs)
        (before ++ String.ofList (mungeChar c) ++ String.ofList cs) := by
      rcases mungeChar_self_or_spelled c with hc | ⟨text, hmem, hc⟩
      · rw [hc]
        exact .refl _
      · rw [hc, String.ofList_toList]
        exact .rel _ _ (.intro before (String.ofList cs) hmem)
    rw [hcons, hflat]
    exact hhead.trans (ih _)

theorem respelled_munge (name : String) : Respelled name (munge name) := by
  have h := respelled_flatMap "" name.toList
  rwa [String.empty_append, String.empty_append, String.ofList_toList] at h

/-- **Names are munged to one identifier if and only if they are respellings of each other.** -/
theorem munge_eq_iff : munge a = munge b ↔ Respelled a b := by
  constructor
  · intro h
    have hb := respelled_munge b
    rw [← h] at hb
    exact (respelled_munge a).trans (.symm _ _ hb)
  · intro h
    induction h with
    | rel _ _ h => exact munge_eq_of_respelling h
    | refl => rfl
    | symm _ _ _ ih => exact ih.symm
    | trans _ _ _ _ _ ihab ihbc => exact ihab.trans ihbc

end Respelled

/-! ### Drawn symbols -/

section Fresh
variable {cs : List Char} {c : Char}

/-- A character becomes an underscore or stays as it is, or capital letters are written for it. -/
theorem mungeChar_dash (c : Char) :
    mungeChar c = [if c = '-' then '_' else c] ∨
      c ≠ '-' ∧ c ∈ spellings.map Prod.fst ∧ ∃ u ∈ mungeChar c, u.isUpper = true := by
  by_cases h : c ∈ spellings.map Prod.fst
  · have htable : (spellings.map Prod.fst).all (fun c =>
        c == '-' || (mungeChar c).any Char.isUpper) = true := by
      decide
    rcases Bool.or_eq_true_iff.1 (List.all_eq_true.1 htable c h) with hc | hc
    · rw [beq_iff_eq.1 hc]
      exact .inl rfl
    · by_cases hdash : c = '-'
      · rw [hdash]
        exact .inl rfl
      · exact .inr ⟨hdash, h, List.any_eq_true.1 hc⟩
  · left
    have hdash : c ≠ '-' := by
      rintro rfl
      exact h (by decide)
    rw [if_neg hdash]
    rcases mungeChar_self_or_spelled c with hc | ⟨text, hmem, -⟩
    · exact hc
    · exact absurd (List.mem_map_of_mem hmem) h

theorem toList_fresh (k : Nat) :
    (Symbol.fresh k).name.toList = "__lark_".toList ++ Nat.toDigits 10 k := by
  show ("__lark_" ++ toString k).toList = _
  rw [String.toList_append, Nat.toString_eq_ofList_toDigits]
  exact congrArg _ String.toList_ofList

/-- The names of drawn symbols have no capital letters and nothing that no identifier takes. -/
theorem quiet_fresh {k : Nat} (h : c ∈ (Symbol.fresh k).name.toList) :
    c.isUpper = false ∧ c ∉ spellings.map Prod.fst := by
  rw [toList_fresh] at h
  rcases List.mem_append.1 h with h | h
  · have hword : "__lark_".toList.all (fun c =>
        !c.isUpper && !(spellings.map Prod.fst).contains c) = true := by
      decide
    have hc := List.all_eq_true.1 hword c h
    simpa only [Bool.and_eq_true, Bool.not_eq_true', List.contains_eq_mem, decide_eq_false_iff_not]
      using hc
  · have hdigit := isDigit_of_mem h
    constructor
    · rw [Bool.eq_false_iff]
      intro hupper
      have hlow : 'A'.val ≤ c.val := (of_decide_eq_true hupper).1
      have hhigh : c.val ≤ '9'.val := of_decide_eq_true (Bool.and_eq_true_iff.1 hdigit).2
      exact absurd (UInt32.le_trans hlow hhigh) (by decide)
    · intro hmem
      have htable : (spellings.map Prod.fst).all (!·.isDigit) = true := by decide
      have hno := List.all_eq_true.1 htable c hmem
      rw [hdigit] at hno
      cases hno

/-- **A name is munged to that of a drawn symbol if and only if it is this name,** but for dashes
instead of underscores. -/
theorem munge_eq_fresh_iff {name : String} {k : Nat} :
    munge name = (Symbol.fresh k).name ↔ underscored name = (Symbol.fresh k).name := by
  have hmunge : (munge name).toList = name.toList.flatMap mungeChar := toList_munge name
  have hdashes : (underscored name).toList =
      name.toList.map fun c => if c = '-' then '_' else c := String.toList_map
  have hsame (h : ∀ c ∈ name.toList, mungeChar c = [if c = '-' then '_' else c]) :
      munge name = underscored name := by
    apply String.ext
    rw [hmunge, hdashes, List.map_eq_flatMap, List.flatMap_def, List.flatMap_def,
      List.map_congr_left h]
  -- on both sides no character is one that capital letters are written for
  constructor
  · intro h
    rw [← h]
    refine (hsame fun c hc => ?_).symm
    rcases mungeChar_dash c with hdash | ⟨-, -, u, hu, hupper⟩
    · exact hdash
    · have hmem : u ∈ (munge name).toList := hmunge ▸ List.mem_flatMap.2 ⟨c, hc, hu⟩
      rw [h] at hmem
      rw [(quiet_fresh hmem).1] at hupper
      cases hupper
  · intro h
    rw [← h]
    refine hsame fun c hc => ?_
    rcases mungeChar_dash c with hdash | ⟨hne, htable, -⟩
    · exact hdash
    · have hmem : (if c = '-' then '_' else c) ∈ (underscored name).toList :=
        hdashes ▸ List.mem_map_of_mem hc
      rw [if_neg hne, h] at hmem
      exact absurd htable (quiet_fresh hmem).2

/-- Drawn symbols are spelled as they are named. -/
theorem munge_fresh (k : Nat) : munge (Symbol.fresh k).name = (Symbol.fresh k).name := by
  refine munge_eq_fresh_iff.2 (String.ext ?_)
  rw [underscored, String.toList_map]
  refine (List.map_congr_left fun c hc => if_neg ?_).trans (List.map_id _)
  rintro rfl
  exact (quiet_fresh hc).2 (by decide)

end Fresh

theorem var_inj {u v : Symbol} : var u = var v ↔ munge u.name = munge v.name := by
  unfold var variableName
  constructor
  · intro h
    have hlist := congrArg String.toList h
    rw [String.toList_append, String.toList_append] at hlist
    exact String.ext (List.append_cancel_left hlist)
  · intro h
    rw [h]

theorem var_eq_iff {u v : Symbol} : var u = var v ↔ Respelled u.name v.name :=
  var_inj.trans munge_eq_iff

theorem var_eq_fresh_iff {v : Symbol} {k : Nat} :
    var v = var (.fresh k) ↔ underscored v.name = (Symbol.fresh k).name := by
  rw [var_inj, munge_fresh, munge_eq_fresh_iff]

/-- **Drawn symbols are spelled apart.** -/
theorem eq_of_var_eq {u v : Symbol} (hu : u.Drawn) (hv : v.Drawn) (h : var u = var v) : u = v := by
  rw [hu, hv, var_inj, munge_fresh, munge_fresh] at h
  have hlist := congrArg String.toList h
  rw [toList_fresh, toList_fresh] at hlist
  have hdigits := List.append_cancel_left hlist
  have hgeneration : u.generation = v.generation :=
    calc
      u.generation = Nat.ofDigitChars 10 (Nat.toDigits 10 u.generation) 0 :=
        Nat.ofDigitChars_ten_toDigits.symm
      _ = Nat.ofDigitChars 10 (Nat.toDigits 10 v.generation) 0 := by rw [hdigits]
      _ = v.generation := Nat.ofDigitChars_ten_toDigits
  rw [hu, hv, hgeneration]

end Php

namespace Scope

open Php

/-! ### Locals that share a variable of the code -/

/-- What names stand for, if not for themselves, was drawn. -/
def Drawn (s : Scope) : Prop := ∀ e ∈ s.shadows, e.2.Drawn

/-- The ways for two names to share a variable of the code: both stand for themselves and are
respellings of each other, or one stands for itself and is written, but for dashes, like the drawn
symbol that the other stands for. -/
inductive Shares (s : Scope) (a b : Symbol) : Prop
  | respelled :
    s.variableOf a = a → s.variableOf b = b → Respelled a.name b.name → Shares s a b
  | likeLeft {k : Nat} :
    s.variableOf a = .fresh k → s.variableOf b = b →
    underscored b.name = (Symbol.fresh k).name → Shares s a b
  | likeRight {k : Nat} :
    s.variableOf a = a → s.variableOf b = .fresh k →
    underscored a.name = (Symbol.fresh k).name → Shares s a b

section Drawn
variable {s : Scope}

theorem Drawn.variableOf (h : s.Drawn) (a : Symbol) :
    s.variableOf a = a ∨ (s.variableOf a).Drawn := by
  rcases s.variableOf_eq_or_mem a with ha | ⟨e, he, ha⟩
  · exact .inl ha
  · rw [ha]
    exact .inr (h e he)

theorem Drawn.bind (h : s.Drawn) (names : List Symbol) : (s.bind names).Drawn := h

theorem Drawn.withContext (h : s.Drawn) (c : Context) : (s.withContext c).Drawn := h

theorem Drawn.unshadow (h : s.Drawn) (names : List Symbol) : (s.unshadow names).Drawn :=
  fun e he => h e (List.mem_filter.1 he).1

theorem Drawn.shadow (h : s.Drawn) (name : Symbol) (k : Nat) : (s.shadow name (.fresh k)).Drawn := by
  refine List.forall_mem_cons.2 ⟨rfl, fun e he => h e (List.mem_filter.1 he).1⟩

/-- **Names that stand for different variables share one of the code if and only if they do so in one
of these ways.** -/
theorem Drawn.var_eq_iff (h : s.Drawn) {a b : Symbol} (hne : s.variableOf a ≠ s.variableOf b) :
    var (s.variableOf a) = var (s.variableOf b) ↔ s.Shares a b := by
  constructor
  · intro hvar
    rcases h.variableOf a with ha | ha <;> rcases h.variableOf b with hb | hb
    · rw [ha, hb] at hvar
      exact .respelled ha hb (Php.var_eq_iff.1 hvar)
    · rw [ha, hb] at hvar
      exact .likeRight ha hb (var_eq_fresh_iff.1 hvar)
    · rw [ha, hb] at hvar
      exact .likeLeft ha hb (var_eq_fresh_iff.1 hvar.symm)
    · exact absurd (eq_of_var_eq ha hb hvar) hne
  · intro hshares
    cases hshares with
    | respelled ha hb hnames =>
      rw [ha, hb]
      exact Php.var_eq_iff.2 hnames
    | likeLeft ha hb hname =>
      rw [ha, hb]
      exact (var_eq_fresh_iff.2 hname).symm
    | likeRight ha hb hname =>
      rw [ha, hb]
      exact var_eq_fresh_iff.2 hname

theorem captured_nil (s : Scope) : s.captured [] = s.vars := by
  unfold captured vars
  have hfilter : s.locals.filter (fun l => !([] : List Symbol).contains l) = s.locals :=
    List.filter_eq_self.2 fun _ _ => rfl
  rw [hfilter]

end Drawn

end Scope

namespace Node

/-- The parameters of the function that a node is written as, and what it takes over, if it is written
so. -/
def header? (n : Node) : Option (List Symbol × List Symbol) :=
  match n with
  | function params _ uses _ _ => some (params, uses)
  | _ => if n.wrapped then some ([], n.scope.vars) else none

/-- Names at the node stand for themselves or for drawn symbols, and a function takes over what they
stand for. -/
structure Regular (n : Node) : Prop where
  drawn : n.scope.Drawn
  uses : ∀ params uses, n.header? = some (params, uses) → uses = n.scope.captured params

theorem regular_nodes {n : Node} (hn : n.Regular) (hc : ∀ c ∈ n.children, ∀ m ∈ c.nodes, m.Regular) :
    ∀ m ∈ n.nodes, m.Regular := by
  rw [nodes_eq]
  refine List.forall_mem_append.2 ⟨fun m hm => ?_, List.forall_mem_singleton.2 hn⟩
  obtain ⟨c, hmem, hm⟩ := List.mem_flatMap.1 hm
  exact hc c hmem m hm

/-- All nodes but functions. -/
theorem regular_of_header {n : Node} (hn : n.scope.Drawn)
    (hheader : n.header? = if n.wrapped then some ([], n.scope.vars) else none) : n.Regular := by
  refine ⟨hn, fun params uses h => ?_⟩
  rw [hheader] at h
  split at h
  · cases h
    exact n.scope.captured_nil.symm
  · cases h

end Node

namespace Analysis

open Rules

/-! ### What analysis yields -/

/-- What is said of forms. -/
def KeepsDrawn : Judgement := fun _ scope _ n _ => scope.Drawn → ∀ m ∈ n.nodes, m.Regular

section Constructs
variable {scope : Scope} {span : Option Span} {s s' : State} {n : Node}

/-- A construct all of whose parts stand in its own scope. -/
theorem drawn_node (hscope : scope.Drawn) (hn : n.scope = scope)
    (hheader : n.header? = if n.wrapped then some ([], n.scope.vars) else none)
    (hc : ∀ c ∈ n.children, ∀ m ∈ c.nodes, m.Regular) : ∀ m ∈ n.nodes, m.Regular :=
  Node.regular_nodes (Node.regular_of_header (hn ▸ hscope) hheader) hc

theorem drawn_all {fs : List Form} {ns : List Node} (h : All KeepsDrawn scope fs s ns s')
    (hscope : scope.Drawn) : ∀ n ∈ ns, ∀ m ∈ n.nodes, m.Regular := by
  induction h with
  | nil => simp
  | cons hf _ ih => exact List.forall_mem_cons.2 ⟨hf hscope, ih⟩

theorem drawn_statements {fs : List Form} {position : Nat} {ns : List Node}
    (h : Statements KeepsDrawn span scope fs position s ns s') (hscope : scope.Drawn) :
    ∀ n ∈ ns, ∀ m ∈ n.nodes, m.Regular := by
  induction h with
  | nil => simp
  | cons hf _ ih => exact List.forall_mem_cons.2 ⟨hf hscope, ih⟩

theorem drawn_block {fs : List Form} (h : Block KeepsDrawn scope span fs s n s')
    (hscope : scope.Drawn) : ∀ m ∈ n.nodes, m.Regular := by
  cases h with
  | empty =>
    refine drawn_node hscope rfl rfl (List.forall_mem_singleton.2 ?_)
    exact drawn_node hscope rfl rfl nofun
  | single hf => exact drawn_node hscope rfl rfl (List.forall_mem_singleton.2 (hf hscope))
  | sequence _ hs hf =>
    refine drawn_node hscope rfl rfl (List.forall_mem_append.2 ⟨?_, ?_⟩)
    · exact drawn_statements hs (hscope.withContext _)
    · exact List.forall_mem_singleton.2 (hf (hscope.withContext _))

theorem drawn_name {name var : Symbol} {inner : Scope} (h : Name name scope s var inner s')
    (hscope : scope.Drawn) : inner.Drawn := by
  cases h with
  | own => exact hscope.bind _
  | shadow => exact hscope.shadow _ _

theorem drawn_values {pairs : List (Symbol × Form)} {last : Scope} {bs : List (Binding Node)}
    (h : Values KeepsDrawn pairs scope s bs last s') (hscope : scope.Drawn) :
    (∀ c ∈ bs.map Binding.init, ∀ m ∈ c.nodes, m.Regular) ∧ last.Drawn := by
  induction h with
  | nil => exact ⟨nofun, hscope⟩
  | cons hf hname _ ih =>
    obtain ⟨hrest, hlast⟩ := ih (drawn_name hname hscope)
    exact ⟨List.forall_mem_cons.2 ⟨hf (hscope.withContext _), hrest⟩, hlast⟩

theorem drawn_let {pairs : List (Form × Form)} {body : List Form}
    (h : Let KeepsDrawn pairs body scope span s n s') (hscope : scope.Drawn) :
    ∀ m ∈ n.nodes, m.Regular := by
  cases h with
  | intro _ hvalues hbody =>
    obtain ⟨hinits, hlast⟩ := drawn_values hvalues hscope
    refine drawn_node hscope rfl rfl (List.forall_mem_append.2 ⟨hinits, ?_⟩)
    exact List.forall_mem_singleton.2 (drawn_block hbody (hlast.withContext _))

theorem drawn_body {patterns : List (Form × Form)} {body : List Form}
    (h : Body KeepsDrawn patterns body scope span s n s') (hscope : scope.Drawn) :
    ∀ m ∈ n.nodes, m.Regular := by
  cases h with
  | plain _ h => exact drawn_block h hscope
  | patterns _ h => exact drawn_let h hscope

theorem drawn_target {f : Form} {static : Bool} (h : Target KeepsDrawn scope f static s n s')
    (hscope : scope.Drawn) : ∀ m ∈ n.nodes, m.Regular := by
  cases h with
  | className => exact drawn_node hscope rfl rfl nofun
  | form h => exact h hscope

theorem drawn_part {f : Form} {method : Bool} (h : Part KeepsDrawn scope f method s n s')
    (hscope : scope.Drawn) : ∀ m ∈ n.nodes, m.Regular := by
  cases h with
  | method h => exact drawn_node hscope rfl rfl (drawn_all h hscope)
  | property => exact drawn_node hscope rfl rfl nofun

theorem drawn_special {form : SpecialForm} {args : List Form}
    (h : Special KeepsDrawn scope span form args s n s') (hscope : scope.Drawn) :
    ∀ m ∈ n.nodes, m.Regular := by
  have hoperand : scope.operand.Drawn := hscope.withContext _
  cases h with
  | quote => exact drawn_node hscope rfl rfl nofun
  | block h => exact drawn_block h hscope
  | branch hc ht =>
    refine drawn_node hscope rfl rfl (List.forall_mem_cons.2 ⟨hc hoperand, ?_⟩)
    refine List.forall_mem_cons.2 ⟨ht hscope, List.forall_mem_singleton.2 ?_⟩
    exact drawn_node hscope rfl rfl nofun
  | branchElse hc ht he =>
    refine drawn_node hscope rfl rfl (List.forall_mem_cons.2 ⟨hc hoperand, ?_⟩)
    exact List.forall_mem_cons.2 ⟨ht hscope, List.forall_mem_singleton.2 (he hscope)⟩
  | bindings _ h => exact drawn_let h hscope
  | @function _ _ _ _ _ ps _ _ _ _ h =>
    refine Node.regular_nodes ⟨hscope, fun params uses hheader => ?_⟩
      (List.forall_mem_singleton.2 (drawn_body h (((hscope.unshadow _).bind ps.names).withContext _)))
    cases hheader
    rfl
  | definition _ h =>
    exact drawn_node hscope rfl rfl (List.forall_mem_singleton.2 (h hoperand))
  | loop _ hcoll hname h =>
    refine drawn_node hscope rfl rfl (List.forall_mem_cons.2 ⟨hcoll hoperand, ?_⟩)
    exact List.forall_mem_singleton.2 (drawn_body h ((drawn_name hname hscope).withContext _))
  | loopKey _ _ hcoll hname hkey h =>
    refine drawn_node hscope rfl rfl (List.forall_mem_cons.2 ⟨hcoll hoperand, ?_⟩)
    refine List.forall_mem_singleton.2 (drawn_body h (Scope.Drawn.withContext ?_ _))
    exact drawn_name hkey (drawn_name hname hscope)
  | throw h => exact drawn_node hscope rfl rfl (List.forall_mem_singleton.2 (h hoperand))
  | new hc hargs =>
    exact drawn_node hscope rfl rfl
      (List.forall_mem_cons.2 ⟨hc hoperand, drawn_all hargs hoperand⟩)
  | member ht hc | staticMember ht hc =>
    refine drawn_node hscope rfl rfl (List.forall_mem_cons.2 ⟨drawn_target ht hoperand, ?_⟩)
    exact List.forall_mem_singleton.2 (drawn_part hc hoperand)
  | arrayGet ha hi =>
    refine drawn_node hscope rfl rfl (List.forall_mem_cons.2 ⟨ha hoperand, ?_⟩)
    exact List.forall_mem_singleton.2 (hi hoperand)
  | arraySet ha hi hx =>
    refine drawn_node hscope rfl rfl (List.forall_mem_cons.2 ⟨ha hoperand, ?_⟩)
    exact List.forall_mem_cons.2 ⟨hi hoperand, List.forall_mem_singleton.2 (hx hoperand)⟩

/-- **Names stand for themselves or for drawn symbols** at every node of a form, if they do so around
it. -/
theorem drawn_step {f : Form} (h : Step KeepsDrawn scope f s n s') : KeepsDrawn f scope s n s' := by
  intro hscope
  have hoperand : scope.operand.Drawn := hscope.withContext _
  cases h with
  | scalar | unit => exact drawn_node hscope rfl rfl nofun
  | reference h => cases h <;> exact drawn_node hscope rfl rfl nofun
  | special _ h => exact drawn_special h hscope
  | expansion _ _ _ _ h => exact h hscope
  | call _ _ _ _ hf hargs =>
    exact drawn_node hscope rfl rfl
      (List.forall_mem_cons.2 ⟨hf hoperand, drawn_all hargs hoperand⟩)
  | tuple h | table h | set h | array h =>
    exact drawn_node hscope rfl rfl (drawn_all h hoperand)

end Constructs

open Php

/-- **Which locals share a variable of the code.**  At every node of a unit in whose scope all names
stand for themselves, two locals that stand for different variables share one of the code exactly if
they are respellings of each other, or one of them is written like the drawn symbol that the other
stands for; two drawn symbols never do.  In the header of every function what it takes over is listed
once, and the variables of the code are different ones exactly if no two of their names, in the order
of the header, are respellings of each other. -/
theorem unit_spelled_apart {forms : List Form} {scope : Scope} {s s' : State} {nodes : List Node}
    (hshadows : scope.shadows = []) (h : unit forms scope s = .ok nodes s') :
    ∀ root ∈ nodes, ∀ n ∈ root.nodes,
      (∀ a ∈ n.scope.locals, ∀ b ∈ n.scope.locals, n.scope.variableOf a ≠ n.scope.variableOf b →
        (var (n.scope.variableOf a) = var (n.scope.variableOf b) ↔ n.scope.Shares a b) ∧
        ((n.scope.variableOf a).Drawn → (n.scope.variableOf b).Drawn →
          var (n.scope.variableOf a) ≠ var (n.scope.variableOf b))) ∧
      ∀ params uses, n.header? = some (params, uses) →
        uses = n.scope.captured params ∧ uses.Nodup ∧
        (((params ++ uses).map var).Nodup ↔
          (params ++ uses).Pairwise fun u v => ¬ Respelled u.name v.name) := by
  have hscope : scope.Drawn := by
    unfold Scope.Drawn
    rw [hshadows]
    intro e he
    cases he
  intro root hroot n hn
  have hregular := drawn_all (unit_induction drawn_step h) hscope root hroot n hn
  constructor
  · intro a _ b _ hne
    refine ⟨hregular.drawn.var_eq_iff hne, fun ha hb hvar => ?_⟩
    exact hne (eq_of_var_eq ha hb hvar)
  · intro params uses hheader
    have huses := hregular.uses params uses hheader
    have hnodup : uses.Nodup := by
      rw [huses]
      exact Distinct.nodup_ofList _
    refine ⟨huses, hnodup, ?_⟩
    unfold List.Nodup
    rw [List.pairwise_map]
    simp only [ne_eq, Php.var_eq_iff]

/-- `(fn [x y] (let [x y] (fn [z] (php/f x y z))))`: the inner function takes over a name that was
bound again. -/
def takenOverForm : Form :=
  .parens [.name "fn", .brackets [.name "x", .name "y"],
    .parens [.name "let", .brackets [.name "x", .name "y"],
      .parens [.name "fn", .brackets [.name "z"],
        .parens [.symbol (.qualified "php" "f") none, .name "x", .name "y", .name "z"]]]]

theorem unit_spelled_apart_taken_over :
    (Session.rootScope .standard).shadows = [] ∧
      ∃ nodes s, unit [takenOverForm] (Session.rootScope .standard) (.start default 0)
          = .ok nodes s ∧
        ∃ root ∈ nodes, ∃ n ∈ root.nodes,
          (∃ a ∈ n.scope.locals, ∃ b ∈ n.scope.locals, n.scope.variableOf a ≠ n.scope.variableOf b ∧
            n.scope.variableOf a ≠ a ∧ ¬ n.scope.Shares a b) ∧
          ∃ params uses, n.header? = some (params, uses) ∧ params.length = 1 ∧ uses.length = 2 ∧
            uses = n.scope.captured params ∧
            (params ++ uses).Pairwise fun u v => ¬ Respelled u.name v.name := by
  refine ⟨rfl, ?_⟩
  have hfound : ((unit [takenOverForm] (Session.rootScope .standard)).run' (.start default 0)).any
      (fun nodes => decide (∃ root ∈ nodes, ∃ n ∈ root.nodes,
        (∃ a ∈ n.scope.locals, ∃ b ∈ n.scope.locals,
          n.scope.variableOf a ≠ n.scope.variableOf b ∧ n.scope.variableOf a ≠ a ∧
            var (n.scope.variableOf a) ≠ var (n.scope.variableOf b)) ∧
        ∃ h ∈ n.header?.toList, h.1.length = 1 ∧ h.2.length = 2 ∧
          ((h.1 ++ h.2).map var).Nodup)) = true := by
    decide +kernel
  obtain ⟨nodes, s, hrun, hfound⟩ := exists_ok_of_any hfound
  obtain ⟨root, hroot, n, hn, ⟨a, ha, b, hb, hne, hbound, hvar⟩, ⟨params, uses⟩, hheader, hparams,
    huses, hnodup⟩ := of_decide_eq_true hfound
  obtain ⟨hlocals, hheaders⟩ := unit_spelled_apart rfl hrun root hroot n hn
  have hheader := Option.mem_toList.1 hheader
  obtain ⟨htaken, -, hapart⟩ := hheaders params uses hheader
  have hshares : ¬ n.scope.Shares a b := fun h => hvar ((hlocals a ha b hb hne).1.2 h)
  exact ⟨nodes, s, hrun, root, hroot, n, hn, ⟨a, ha, b, hb, hne, hbound, hshares⟩, params, uses,
    hheader, hparams, huses, htaken, hapart.1 hnodup⟩

/-- `(fn [__lark_1 x] (let [x 2] (php/g __lark_1 x)))`: a parameter is written like the symbol that is
drawn for a name bound again. -/
def imitatingForm : Form :=
  .parens [.name "fn", .brackets [.name "__lark_1", .name "x"],
    .parens [.name "let", .brackets [.name "x", .int 2],
      .parens [.symbol (.qualified "php" "g") none, .name "__lark_1", .name "x"]]]

/-- A parameter and the name bound again stand for different variables, a written and a drawn one, and
the binding assigns to the parameter. -/
theorem unit_spelled_apart_imitating :
    ∃ nodes s, unit [imitatingForm] (Session.rootScope .standard) (.start default 0) = .ok nodes s ∧
      (∃ root ∈ nodes, ∃ n ∈ root.nodes, ∃ a ∈ n.scope.locals, ∃ b ∈ n.scope.locals,
        n.scope.variableOf a = .plain "__lark_1" ∧ n.scope.variableOf b = .fresh 1 ∧
        n.scope.variableOf a ≠ n.scope.variableOf b ∧
        var (n.scope.variableOf a) = var (n.scope.variableOf b)) ∧
      program .standard nodes = "function ($__lark_1, $x) \x7b\n" ++ "    $__lark_1 = 2;\n" ++
        "    return g($__lark_1, $__lark_1);\n" ++ "\x7d;\n" := by
  have hfound : ((unit [imitatingForm] (Session.rootScope .standard)).run' (.start default 0)).any
      (fun nodes => decide ((∃ root ∈ nodes, ∃ n ∈ root.nodes, ∃ a ∈ n.scope.locals,
        ∃ b ∈ n.scope.locals, n.scope.variableOf a = .plain "__lark_1" ∧
          n.scope.variableOf b = .fresh 1 ∧ n.scope.variableOf a ≠ n.scope.variableOf b ∧
          var (n.scope.variableOf a) = var (n.scope.variableOf b)) ∧
        program .standard nodes = "function ($__lark_1, $x) \x7b\n" ++ "    $__lark_1 = 2;\n" ++
          "    return g($__lark_1, $__lark_1);\n" ++ "\x7d;\n")) = true := by
    decide +kernel
  obtain ⟨nodes, s, hrun, hfound⟩ := exists_ok_of_any hfound
  exact ⟨nodes, s, hrun, of_decide_eq_true hfound⟩

end Analysis

end LarkPhp
