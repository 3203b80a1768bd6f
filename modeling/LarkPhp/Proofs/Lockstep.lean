import LarkPhp.Proofs.Correspondence

/-!
Two runs of analysis in lockstep.

The steps of a correspondence are put together to whole runs, one construct of the language after
the other.  Related forms in related scopes are analyzed alike: both runs succeed with related
nodes, or both stop with related errors, and the states that they leave are related again
(`Correspondence.form`).
-/

namespace LarkPhp.Analysis

/-- Related forms in related scopes are analyzed alike. -/
def Visit.Tracks (v : View) (P : State → State → Prop) (G : Scope → Form → Prop)
    (visit visit' : Visit) : Prop :=
  ∀ ⦃f g scope scope'⦄, G scope f → v.Forms f g → v.Scopes scope scope' →
    Analysis.Tracks v P v.Nodes (visit f scope) (visit' g scope')

/-- What is done next may depend on the states. -/
theorem tracks_get_bind {γ δ : Type} {v : View} {P : State → State → Prop} {M : γ → δ → Prop}
    {f : State → Analyze γ} {g : State → Analyze δ}
    (h : ∀ s t, P s t → Outcomes v P M (f s s) (g t t)) : Tracks v P M (get >>= f) (get >>= g) := by
  intro s t hs
  rw [bind_run, bind_run]
  exact h s t hs

/-- Related lists are paired up alike. -/
theorem forall₂_pairUp {v : View} {fs gs : List Form} (h : List.Forall₂ v.Forms fs gs) :
    (pairUp fs = none ∧ pairUp gs = none) ∨
      ∃ pairs pairs', pairUp fs = some pairs ∧ pairUp gs = some pairs' ∧
        List.Forall₂ v.Pairs pairs pairs' := by
  fun_induction pairUp fs generalizing gs with
  | case1 =>
    cases h
    exact .inr ⟨[], [], rfl, rfl, .nil⟩
  | case2 f =>
    obtain ⟨g, gs, _, hrest, rfl⟩ := List.forall₂_cons_left_iff.1 h
    cases hrest
    exact .inl ⟨rfl, rfl⟩
  | case3 f f' fs ih =>
    obtain ⟨g, gs, hf, htail, rfl⟩ := List.forall₂_cons_left_iff.1 h
    obtain ⟨g', gs, hf', hrest, rfl⟩ := List.forall₂_cons_left_iff.1 htail
    rw [pairUp]
    rcases ih hrest with ⟨hfs, hgs⟩ | ⟨pairs, pairs', hfs, hgs, hpairs⟩
    · rw [hfs, hgs]
      exact .inl ⟨rfl, rfl⟩
    · rw [hfs, hgs]
      exact .inr ⟨_, _, rfl, rfl, .cons ⟨hf, hf'⟩ hpairs⟩

namespace Correspondence

variable {v : View} {P : State → State → Prop} {G : Scope → Form → Prop}
  (hC : Correspondence v P G)
include hC

/-- A form may be met in another context. -/
theorem inContext {scope : Scope} {f : Form} (h : G scope f) (c : Context) :
    G (scope.withContext c) f :=
  hC.wider h (scope.within_withContext c)

theorem inOperand {scope : Scope} {f : Form} (h : G scope f) : G scope.operand f :=
  hC.inContext h .expression

/-- The patterns that fresh names stand for, and the names, may be met where the names are bound. -/
theorem of_deferred {scope inner : Scope} {forms : List Form} {names : List Symbol}
    {patterns : List (Form × Form)} (h : Deferred forms names patterns)
    (hforms : ∀ f ∈ forms, G scope f) (hinner : scope.Within inner)
    (hnames : ∀ x ∈ names, inner.isLocal x = true) :
    ∀ e ∈ patterns, G inner e.1 ∧ G inner e.2 := by
  intro e he
  obtain ⟨hmem, x, hx, hdrawn, heq⟩ := h e he
  have hpattern : G inner e.1 := hC.wider (hforms _ hmem) hinner
  rw [heq]
  exact ⟨hpattern, hC.holder hpattern hdrawn (hnames x hx)⟩

section Forms
variable {reenter reenter' visit visit' : Visit} (hre : Visit.Tracks v P G reenter reenter')
  (hv : Visit.Tracks v P G visit visit') {scope scope' : Scope} (hscope : v.Scopes scope scope')
  {p q : Option Span} (hp : v.Place p q)

/-! ### Sequences -/

section
include hv hscope

omit hC in
theorem all {fs gs : List Form} (hG : ∀ f ∈ fs, G scope f) (h : List.Forall₂ v.Forms fs gs) :
    Tracks v P (List.Forall₂ v.Nodes) (Analysis.all visit fs scope)
      (Analysis.all visit' gs scope') := by
  induction h with
  | nil => exact tracks_pure .nil
  | cons hf _ ih =>
    obtain ⟨hfirst, hrest⟩ := List.forall_mem_cons.1 hG
    refine (hv hfirst hf hscope).bind fun n m hnm => (ih hrest).bind fun ns ms hns => ?_
    exact tracks_pure (.cons hnm hns)

include hp

theorem statements {fs gs : List Form} (hG : ∀ f ∈ fs, G scope f)
    (h : List.Forall₂ v.Forms fs gs) (position : Nat) :
    Tracks v P (List.Forall₂ v.Nodes) (Analysis.statements visit p fs position scope)
      (Analysis.statements visit' q gs position scope') := by
  induction h generalizing position with
  | nil => exact tracks_pure .nil
  | cons hf _ ih =>
    obtain ⟨hfirst, hrest⟩ := List.forall_mem_cons.1 hG
    refine (hC.warnIfScalar hf position hp).bind fun _ _ _ => ?_
    refine (hv hfirst hf hscope).bind fun n m hnm => ?_
    refine (ih hrest (position + 1)).bind fun ns ms hns => ?_
    exact tracks_pure (.cons hnm hns)

theorem block {fs gs : List Form} (hG : ∀ f ∈ fs, G scope f) (h : List.Forall₂ v.Forms fs gs) :
    Tracks v P v.Nodes (Analysis.block visit fs scope p) (Analysis.block visit' gs scope' q) := by
  unfold Analysis.block
  rcases forall₂_getLast? h with ⟨hf, hg⟩ | ⟨f, hmem, g, hf, hg, hfg⟩
  · rw [hf, hg]
    refine (hC.push hscope hp fun hij => .literal (.scalar rfl) hij).bind fun n m hnm => ?_
    exact hC.push hscope hp fun hij => .block .nil hnm hij
  · rw [hf, hg]
    have hfront : ∀ x ∈ fs.dropLast, G (scope.withContext .statement) x := by
      intro x hx
      exact hC.inContext (hG x (List.dropLast_subset fs hx)) _
    have hstatement := hscope.withContext (c := .statement) (d := .statement) fun _ => rfl
    refine (hC.statements hv hstatement hp hfront (forall₂_dropLast h) 1).bind fun ns ms hns => ?_
    -- only behind statements does the last form change its context
    cases hns with
    | nil =>
      refine (hv (hG f hmem) hfg hscope).bind fun n m hnm => ?_
      exact hC.push hscope hp fun hij => .block .nil hnm hij
    | cons hn hns =>
      have htail := hscope.withContext (c := scope.context.tail) (d := scope'.context.tail)
        fun hcontexts => by rw [hscope.context hcontexts]
      refine (hv (hC.inContext (hG f hmem) _) hfg htail).bind fun n m hnm => ?_
      exact hC.push hscope hp fun hij => .block (.cons hn hns) hnm hij

end

/-! ### Bindings -/

section
include hv hscope

theorem bindValues {pairs pairs' : List (Symbol × Form)} (hG : Ready G scope pairs)
    (h : List.Forall₂ v.Bound pairs pairs') :
    Tracks v P (fun a b => b.1.map Binding.name = a.1.map (fun b => v.rename b.name) ∧
        b.1.map Binding.var = a.1.map (fun b => v.rename b.var) ∧
        List.Forall₂ v.Nodes (a.1.map Binding.init) (b.1.map Binding.init) ∧
        v.Scopes a.2 b.2 ∧ scope.Within a.2)
      (Analysis.bindValues visit pairs scope) (Analysis.bindValues visit' pairs' scope') := by
  induction h generalizing scope scope' with
  | nil => exact tracks_pure ⟨rfl, rfl, .nil, hscope, .refl scope⟩
  | @cons a b pairs pairs' hab _ ih =>
    obtain ⟨x, f⟩ := a
    obtain ⟨y, g⟩ := b
    obtain ⟨rfl, hfg⟩ := hab
    obtain ⟨hf, hrest⟩ := hG
    refine (hv (hC.inOperand hf) hfg hscope.operand).bind fun n m hnm => ?_
    refine (hC.bindName x hscope).bind ?_
    rintro ⟨var, inner⟩ ⟨var', inner'⟩ ⟨rfl, hinner, hwithin, hlocal⟩
    refine (ih hinner (hrest inner hwithin hlocal)).bind ?_
    rintro ⟨bs, last⟩ ⟨bs', last'⟩ ⟨hnames, hvars, hinits, hlast, hgrown⟩
    refine tracks_pure ⟨?_, ?_, .cons hnm hinits, hlast, hwithin.trans hgrown⟩
    · rw [List.map_cons, List.map_cons, hnames]
    · rw [List.map_cons, List.map_cons, hvars]

include hp

theorem bindings {pairs pairs' : List (Form × Form)} {body body' : List Form}
    (hpairs : ∀ e ∈ pairs, G scope e.1 ∧ G scope e.2) (hbody : ∀ f ∈ body, G scope f)
    (h : List.Forall₂ v.Pairs pairs pairs') (hb : List.Forall₂ v.Forms body body') :
    Tracks v P v.Nodes (Analysis.bindings visit pairs body scope p)
      (Analysis.bindings visit' pairs' body' scope' q) := by
  refine (hC.destructure hpairs h).bind ?_
  rintro plain plain' ⟨hready, hplain⟩
  refine (hC.bindValues hv hscope hready hplain).bind ?_
  rintro ⟨bs, inner⟩ ⟨bs', inner'⟩ ⟨hnames, hvars, hinits, hinner, hwithin⟩
  have htail := hinner.withContext (c := scope.context.tail) (d := scope'.context.tail)
    fun hcontexts => by rw [hscope.context hcontexts]
  have hin : ∀ f ∈ body, G (inner.withContext scope.context.tail) f :=
    fun f hf => hC.wider (hbody f hf) (hwithin.withContext _)
  refine (hC.block hv htail hp hin hb).bind fun n m hnm => ?_
  exact hC.push hscope hp fun hij => .bindings hnames hvars hinits hnm hij

theorem patternBody {pairs pairs' : List (Form × Form)} {body body' : List Form}
    (hpairs : ∀ e ∈ pairs, G scope e.1 ∧ G scope e.2) (hbody : ∀ f ∈ body, G scope f)
    (h : List.Forall₂ v.Pairs pairs pairs') (hb : List.Forall₂ v.Forms body body') :
    Tracks v P v.Nodes (Analysis.patternBody visit pairs body scope p)
      (Analysis.patternBody visit' pairs' body' scope' q) := by
  cases h with
  | nil => exact hC.block hv hscope hp hbody hb
  | cons hab hrest => exact hC.bindings hv hscope hp hpairs hbody (.cons hab hrest) hb

theorem letForm {f g : Form} {body body' : List Form} (hf : G scope f)
    (hbody : ∀ f ∈ body, G scope f) (h : v.Forms f g) (hb : List.Forall₂ v.Forms body body') :
    Tracks v P v.Nodes (Analysis.letForm visit f body scope p)
      (Analysis.letForm visit' g body' scope' q) := by
  cases h with
  | tuple hfs _ =>
    unfold Analysis.letForm
    dsimp only
    rcases forall₂_pairUp hfs with ⟨h, h'⟩ | ⟨pairs, pairs', h, h', hpairs⟩
    · rw [h, h']
      exact tracks_fail _ hp
    · rw [h, h']
      have hparts : ∀ e ∈ pairs, G scope e.1 ∧ G scope e.2 := by
        intro e he
        obtain ⟨hpattern, hvalue⟩ := mem_of_pairUp h e he
        exact ⟨hC.part hf hpattern, hC.part hf hvalue⟩
      exact hC.bindings hv hscope hp hparts hbody hpairs hb
  | scalar hs => cases f <;> first | exact tracks_fail _ hp | cases hs
  | symbol | table | set | array => exact tracks_fail _ hp

theorem function {f g : Form} {body body' : List Form} (hf : G scope f)
    (hbody : ∀ f ∈ body, G scope f) (h : v.Forms f g) (hb : List.Forall₂ v.Forms body body') :
    Tracks v P v.Nodes (Analysis.function visit f body scope p)
      (Analysis.function visit' g body' scope' q) := by
  cases h with
  | @tuple d fs gs r r' hfs _ =>
    refine (hC.parameters hfs hp).bind ?_
    rintro ⟨names, variadic, patterns⟩ ⟨names', variadic', patterns'⟩ ⟨hnames, rfl, hpatterns, hdef⟩
    dsimp only at hnames
    subst hnames
    have hinner := ((hscope.unshadow names).bind names).withContext (c := .result) (d := .result)
      fun _ => rfl
    have hwithin : scope.Within (((scope.unshadow names).bind names).withContext .result) :=
      ⟨rfl, (Scope.within_bind (scope.unshadow names) names).isLocal⟩
    have hlocal : ∀ x ∈ names,
        (((scope.unshadow names).bind names).withContext .result).isLocal x = true :=
      fun x hx => Scope.isLocal_bind_of_mem (scope.unshadow names) hx
    have hparts := hC.of_deferred hdef (fun f hmem => hC.part hf hmem) hwithin hlocal
    have hin := fun f hmem => hC.wider (hbody f hmem) hwithin
    refine (hC.patternBody hv hinner hp hparts hin hpatterns hb).bind fun n m hnm => ?_
    dsimp only
    rw [hscope.captured names]
    exact hC.push hscope hp fun hij => .function hnm hij
  | scalar hs => cases f <;> first | exact tracks_fail _ hp | cases hs
  | symbol | table | set | array => exact tracks_fail _ hp

/-- The loop's names are given as they are written, the key after the value. -/
theorem loopOver (x : Symbol) (key : Option Symbol) {forms : List Form}
    {patterns patterns' : List (Form × Form)} {f g : Form} {body body' : List Form}
    (hforms : ∀ f ∈ forms, G scope f) (hdef : Deferred forms (x :: key.toList) patterns)
    (hpatterns : List.Forall₂ v.Pairs patterns patterns') (hf : G scope f) (hfg : v.Forms f g)
    (hbody : ∀ f ∈ body, G scope f) (hb : List.Forall₂ v.Forms body body') :
    Tracks v P v.Nodes (Analysis.loopOver visit x key patterns f body scope p)
      (Analysis.loopOver visit' (v.rename x) (key.map v.rename) patterns' g body' scope' q) := by
  refine (hv (hC.inOperand hf) hfg hscope.operand).bind fun a b hab => ?_
  refine (hC.bindName x hscope).bind ?_
  rintro ⟨var, inner⟩ ⟨var', inner'⟩ ⟨rfl, hinner, hwithin, hlocal⟩
  -- the body is the same with and without a key
  have hloop : ∀ {last last' : Scope}, v.Scopes last last' → scope.Within last →
      (∀ y ∈ x :: key.toList, last.isLocal y = true) →
      Tracks v P v.Nodes (Analysis.patternBody visit patterns body (last.withContext .statement) p)
        (Analysis.patternBody visit' patterns' body' (last'.withContext .statement) q) := by
    intro last last' hlast hgrown hnames
    have hin := hgrown.withContext .statement
    have hparts := hC.of_deferred hdef hforms hin hnames
    exact hC.patternBody hv (hlast.withContext fun _ => rfl) hp hparts
      (fun f hmem => hC.wider (hbody f hmem) hin) hpatterns hb
  cases key with
  | none =>
    refine (hloop hinner hwithin (by simpa using hlocal)).bind fun n m hnm => ?_
    exact hC.push hscope hp fun hij => .loop hab hnm hij
  | some key =>
    refine (hC.bindName key hinner).bind ?_
    rintro ⟨keyVar, last⟩ ⟨keyVar', last'⟩ ⟨rfl, hlast, hgrown, hkey⟩
    have hnames : ∀ y ∈ [x, key], last.isLocal y = true := by
      intro y hy
      rcases List.mem_cons.1 hy with rfl | hy
      · exact hgrown.isLocal hlocal
      · rw [List.mem_singleton.1 hy]
        exact hkey
    refine (hloop hlast (hwithin.trans hgrown) hnames).bind fun n m hnm => ?_
    exact hC.push hscope hp fun hij => .loop hab hnm hij

theorem loop {f g : Form} {body body' : List Form} (hf : G scope f)
    (hbody : ∀ f ∈ body, G scope f) (h : v.Forms f g) (hb : List.Forall₂ v.Forms body body') :
    Tracks v P v.Nodes (Analysis.loop visit f body scope p)
      (Analysis.loop visit' g body' scope' q) := by
  cases h with
  | @tuple d fs gs r r' hfs _ =>
    have hparts : ∀ f ∈ fs, G scope f := fun f hmem => hC.part hf hmem
    rcases hfs with _ | ⟨h₁, _ | ⟨h₂, _ | ⟨h₃, _ | _⟩⟩⟩
    · exact tracks_fail _ hp
    · exact tracks_fail _ hp
    · refine (hC.binder h₁).bind ?_
      rintro ⟨x, patterns⟩ ⟨x', patterns'⟩ ⟨rfl, hpatterns, hdef⟩
      refine hC.loopOver hv hscope hp x none hparts ?_ hpatterns (hparts _ (by simp)) h₂ hbody hb
      exact hdef.mono (by simp) (by simp)
    · refine (hC.binder h₁).bind ?_
      rintro ⟨key, patterns⟩ ⟨key', patterns'⟩ ⟨rfl, hpatterns, hdef⟩
      refine (hC.binder h₂).bind ?_
      rintro ⟨x, more⟩ ⟨x', more'⟩ ⟨rfl, hmore, hdef'⟩
      refine hC.loopOver hv hscope hp x (some key) hparts ?_ (forall₂_append hpatterns hmore)
        (hparts _ (by simp)) h₃ hbody hb
      exact (hdef.mono (by simp) (by simp)).append (hdef'.mono (by simp) (by simp))
    · exact tracks_fail _ hp
  | scalar hs => cases f <;> first | exact tracks_fail _ hp | cases hs
  | symbol | table | set | array => exact tracks_fail _ hp

end

/-! ### Special forms -/

section
include hv hscope

theorem target {f g : Form} (hf : G scope f) (h : v.Forms f g) (static : Bool) :
    Tracks v P v.Nodes (Analysis.target visit f static scope)
      (Analysis.target visit' g static scope') := by
  have hvisit := hv hf h hscope
  cases h with
  | symbol hp =>
    cases static with
    | false => exact hvisit
    | true => exact hC.push hscope hp fun hij => .className hij
  | scalar hs => cases f <;> first | exact hvisit | cases hs
  | tuple | table | set | array => exact hvisit

include hp

theorem branch {f₁ f₂ g₁ g₂ : Form} {no no' : Option Form} (hG₁ : G scope f₁) (hG₂ : G scope f₂)
    (hGno : ∀ f ∈ no, G scope f) (h₁ : v.Forms f₁ g₁) (h₂ : v.Forms f₂ g₂)
    (hno : Option.Rel v.Forms no no') :
    Tracks v P v.Nodes (Analysis.branch visit f₁ f₂ no scope p)
      (Analysis.branch visit' g₁ g₂ no' scope' q) := by
  have hoptional : Tracks v P v.Nodes (optional visit no scope p) (optional visit' no' scope' q) := by
    cases hno with
    | none => exact hC.push hscope hp fun hij => .literal (.scalar rfl) hij
    | some h => exact hv (hGno _ rfl) h hscope
  refine (hv (hC.inOperand hG₁) h₁ hscope.operand).bind fun a b hab => ?_
  refine (hv hG₂ h₂ hscope).bind fun c d hcd => hoptional.bind fun e f hef => ?_
  exact hC.push hscope hp fun hij => .branch hab hcd hef hij

theorem definition {f g value value' : Form} (hf : G scope f) (hvalue : G scope value)
    (h : v.Forms f g) (hfg : v.Forms value value')
    (hkept : ∀ {x r}, f = .symbol x r → x.qualifier = none → v.rename x = x) :
    Tracks v P v.Nodes (Analysis.definition visit f value scope p)
      (Analysis.definition visit' g value' scope' q) := by
  cases h with
  | @symbol x r r' _ =>
    unfold Analysis.definition
    dsimp only
    rw [v.qualifier_rename]
    split
    · next hx =>
      have hname : v.rename x = x := hkept rfl (Option.isNone_iff_eq_none.1 hx)
      rw [hname, ← hscope.homeName]
      have hinit := (hC.announce hf x.name hp).bind fun _ _ _ =>
        hv (hC.inOperand hvalue) hfg hscope.operand
      refine (hC.transaction hinit).bind fun n m hnm => hC.push hscope hp fun {i j} hij => ?_
      have hnode : v.Nodes (.definition scope.homeName x n i)
          (.definition scope.homeName (v.rename x) m j) := .definition hnm hij
      rwa [hname] at hnode
    · exact tracks_fail _ hp
  | scalar hs => cases f <;> first | exact tracks_fail _ hp | cases hs
  | tuple | table | set | array => exact tracks_fail _ hp

theorem member (static : Bool) {f g part part' : Form} (hf : G scope f) (hpart : G scope part)
    (h : v.Forms f g) (h' : v.Forms part part') :
    Tracks v P v.Nodes (Analysis.member visit static f part scope p)
      (Analysis.member visit' static g part' scope' q) := by
  refine (hC.target hv hscope.operand (hC.inOperand hf) h static).bind fun a b hab => ?_
  cases h' with
  | @tuple d xs ys r r' hxs hr =>
    rcases hxs with _ | @⟨x, y, xs, ys, hxy, hrest⟩
    · exact tracks_fail _ hp
    · cases hxy with
      | symbol =>
        have hargs : ∀ f ∈ xs, G scope.operand f := by
          intro f hmem
          exact hC.inOperand (hC.part hpart (List.mem_cons_of_mem _ hmem))
        refine (all hv hscope.operand hargs hrest).bind fun ns ms hns => ?_
        refine (hC.push hscope.operand hr fun hij => .methodCall hns hij).bind fun n m hnm => ?_
        exact hC.push hscope hp fun hij => .member hab hnm hij
      | scalar hs => cases x <;> first | exact tracks_fail _ hp | cases hs
      | tuple | table | set | array => exact tracks_fail _ hp
  | symbol hr =>
    refine (hC.push hscope.operand hr fun hij => .property hij).bind fun n m hnm => ?_
    exact hC.push hscope hp fun hij => .member hab hnm hij
  | scalar hs => cases part <;> first | exact tracks_fail _ hp | cases hs
  | table | set | array => exact tracks_fail _ hp

theorem special {head : Symbol} {r : Option Span} {form : SpecialForm} {fs gs : List Form}
    (hhead : SpecialForm.ofSymbol? head = some form)
    (hG : G scope (.tuple .paren (.symbol head r :: fs) p)) (h : List.Forall₂ v.Forms fs gs) :
    Tracks v P v.Nodes (Analysis.special visit form fs scope p)
      (Analysis.special visit' form gs scope' q) := by
  have hargs : ∀ f ∈ fs, G scope f := fun f hmem => hC.part hG (List.mem_cons_of_mem _ hmem)
  have hrest : ∀ {f fs'}, fs = f :: fs' → ∀ g ∈ fs', G scope g := by
    rintro f fs' rfl g hmem
    exact hargs g (List.mem_cons_of_mem f hmem)
  cases form with
  | block => exact hC.block hv hscope hp hargs h
  | quote =>
    rcases h with _ | ⟨h₁, _ | _⟩
    · exact tracks_fail _ hp
    · exact hC.push hscope hp fun hij => .literal h₁ hij
    · exact tracks_fail _ hp
  | branch =>
    rcases h with _ | ⟨h₁, _ | ⟨h₂, _ | ⟨h₃, _ | _⟩⟩⟩
    · exact tracks_fail _ hp
    · exact tracks_fail _ hp
    · exact hC.branch hv hscope hp (hargs _ (by simp)) (hargs _ (by simp)) (by simp) h₁ h₂ .none
    · exact hC.branch hv hscope hp (hargs _ (by simp)) (hargs _ (by simp))
        (fun f hf => hargs f (by cases hf; simp)) h₁ h₂ (.some h₃)
    · exact tracks_fail _ hp
  | bindings =>
    rcases h with _ | ⟨h₁, hb⟩
    · exact tracks_fail _ hp
    · exact hC.letForm hv hscope hp (hargs _ (by simp)) (hrest rfl) h₁ hb
  | function =>
    rcases h with _ | ⟨h₁, hb⟩
    · exact tracks_fail _ hp
    · exact hC.function hv hscope hp (hargs _ (by simp)) (hrest rfl) h₁ hb
  | definition =>
    rcases h with _ | ⟨h₁, _ | ⟨h₂, _ | _⟩⟩
    · exact tracks_fail _ hp
    · exact tracks_fail _ hp
    · refine hC.definition hv hscope hp (hargs _ (by simp)) (hargs _ (by simp)) h₁ h₂ ?_
      rintro x r' rfl hx
      exact hC.definedName hhead hG hx
    · exact tracks_fail _ hp
  | loop =>
    rcases h with _ | ⟨h₁, hb⟩
    · exact tracks_fail _ hp
    · exact hC.loop hv hscope hp (hargs _ (by simp)) (hrest rfl) h₁ hb
  | throw =>
    rcases h with _ | ⟨h₁, _ | _⟩
    · exact tracks_fail _ hp
    · refine (hv (hC.inOperand (hargs _ (by simp))) h₁ hscope.operand).bind fun n m hnm => ?_
      exact hC.push hscope hp fun hij => .throw hnm hij
    · exact tracks_fail _ hp
  | new =>
    rcases h with _ | ⟨h₁, hb⟩
    · exact tracks_fail _ hp
    · refine (hv (hC.inOperand (hargs _ (by simp))) h₁ hscope.operand).bind fun n m hnm => ?_
      refine (all hv hscope.operand (fun f hf => hC.inOperand (hrest rfl f hf)) hb).bind
        fun ns ms hns => ?_
      exact hC.push hscope hp fun hij => .new hnm hns hij
  | member =>
    rcases h with _ | ⟨h₁, _ | ⟨h₂, _ | _⟩⟩
    · exact tracks_fail _ hp
    · exact tracks_fail _ hp
    · exact hC.member hv hscope hp false (hargs _ (by simp)) (hargs _ (by simp)) h₁ h₂
    · exact tracks_fail _ hp
  | staticMember =>
    rcases h with _ | ⟨h₁, _ | ⟨h₂, _ | _⟩⟩
    · exact tracks_fail _ hp
    · exact tracks_fail _ hp
    · exact hC.member hv hscope hp true (hargs _ (by simp)) (hargs _ (by simp)) h₁ h₂
    · exact tracks_fail _ hp
  | arrayGet =>
    rcases h with _ | ⟨h₁, _ | ⟨h₂, _ | _⟩⟩
    · exact tracks_fail _ hp
    · exact tracks_fail _ hp
    · refine (hv (hC.inOperand (hargs _ (by simp))) h₁ hscope.operand).bind fun a b hab => ?_
      refine (hv (hC.inOperand (hargs _ (by simp))) h₂ hscope.operand).bind fun c d hcd => ?_
      exact hC.push hscope hp fun hij => .arrayGet hab hcd hij
    · exact tracks_fail _ hp
  | arraySet =>
    rcases h with _ | ⟨h₁, _ | ⟨h₂, _ | ⟨h₃, _ | _⟩⟩⟩
    · exact tracks_fail _ hp
    · exact tracks_fail _ hp
    · exact tracks_fail _ hp
    · refine (hv (hC.inOperand (hargs _ (by simp))) h₁ hscope.operand).bind fun a b hab => ?_
      refine (hv (hC.inOperand (hargs _ (by simp))) h₂ hscope.operand).bind fun c d hcd => ?_
      refine (hv (hC.inOperand (hargs _ (by simp))) h₃ hscope.operand).bind fun e f hef => ?_
      exact hC.push hscope hp fun hij => .arraySet hab hcd hef hij
    · exact tracks_fail _ hp

end

/-! ### Forms -/

section
include hscope

theorem reference {x : Symbol} (hG : G scope (.symbol x p)) (hp : v.Place p q) :
    Tracks v P v.Nodes (Analysis.reference x p scope)
      (Analysis.reference (v.rename x) q scope') := by
  unfold Analysis.reference
  rw [v.ofHost_rename, v.isClassName_rename, hscope.isLocal, hscope.variableOf]
  split
  · exact hC.push hscope hp fun hij => .hostVar hij
  next hhost =>
  split
  · exact hC.push hscope hp fun hij => .className hij
  split
  · exact hC.push hscope hp fun hij => .localVar hij
  next hx =>
  have hx : scope.isLocal x = false := Bool.eq_false_iff.2 hx
  refine tracks_get.bind fun s t hs => ?_
  rw [hC.visible hG hx, ← hscope.homeName, hC.resolve hs hG hx (.inl (Bool.eq_false_iff.2 hhost))]
  cases hresolve : t.globals.resolve x scope.homeName with
  | global home name =>
    have hname : v.rename name = name := v.rename_of_written (Globals.generated_of_resolve hresolve)
    refine hC.push hscope hp fun {i j} hij => ?_
    have hnode : v.Nodes (.globalVar home name i) (.globalVar home (v.rename name) j) :=
      .globalVar hij
    rwa [hname] at hnode
  | expander name expander => exact tracks_fail _ hp
  | unresolved => exact tracks_fail _ hp

/-- A head that is not a special form names the same macro in both runs. -/
theorem macroOf?_eq {s t : State} (hs : P s t) {f g : Form} (hG : G scope f) (h : v.Forms f g)
    (hspecial : f.symbol?.bind SpecialForm.ofSymbol? = none) :
    macroOf? s.globals f scope = macroOf? t.globals g scope' := by
  cases h with
  | @symbol x p q hp =>
    unfold macroOf?
    dsimp only
    rw [hscope.isLocal]
    split
    · rfl
    · next hx =>
      have hx : scope.isLocal x = false := Bool.eq_false_iff.2 hx
      rw [hC.visible hG hx, ← hscope.homeName, hC.resolve hs hG hx (.inr hspecial)]
  | scalar hs => cases f <;> first | rfl | cases hs
  | tuple | table | set | array => rfl

include hv

theorem application {f g : Form} {fs gs : List Form} (hf : G scope f) (hfs : ∀ f ∈ fs, G scope f)
    (h : v.Forms f g) (hall : List.Forall₂ v.Forms fs gs) (hp : v.Place p q) :
    Tracks v P v.Nodes (Analysis.application visit f fs scope p)
      (Analysis.application visit' g gs scope' q) := by
  have hcall : Tracks v P v.Nodes
      (visit f scope.operand >>= fun n => Analysis.all visit fs scope.operand >>= fun ns =>
        Analysis.push (.call n ns) scope p)
      (visit' g scope'.operand >>= fun n => Analysis.all visit' gs scope'.operand >>= fun ns =>
        Analysis.push (.call n ns) scope' q) := by
    refine (hv (hC.inOperand hf) h hscope.operand).bind fun n m hnm => ?_
    refine (all hv hscope.operand (fun f hmem => hC.inOperand (hfs f hmem)) hall).bind
      fun ns ms hns => ?_
    exact hC.push hscope hp fun hij => .call hnm hns hij
  unfold Analysis.application
  rw [h.callable, h.kind, h.operatorOf?]
  split
  · exact tracks_fail _ hp
  · cases Analysis.operatorOf? g with
    | none => exact hcall
    | some operator =>
      cases hall with
      | nil => exact tracks_fail _ hp
      | cons => exact hcall

include hre

theorem parens {fs gs : List Form} (hG : G scope (.tuple .paren fs p))
    (h : List.Forall₂ v.Forms fs gs) (hp : v.Place p q) :
    Tracks v P v.Nodes (Analysis.parens reenter visit ⟨fs, p⟩ scope)
      (Analysis.parens reenter' visit' ⟨gs, q⟩ scope') := by
  have hcall : v.Forms (Call.toForm ⟨fs, p⟩) (Call.toForm ⟨gs, q⟩) := .tuple h hp
  unfold Analysis.parens
  rcases h with _ | @⟨f, g, fs, gs, hfg, hrest⟩
  · exact hC.push hscope hp fun hij => .literal hcall hij
  have hf : G scope f := hC.part hG List.mem_cons_self
  have hfs : ∀ f ∈ fs, G scope f := fun _ hmem => hC.part hG (List.mem_cons_of_mem _ hmem)
  dsimp only
  rw [← hfg.symbol?]
  cases hspecial : f.symbol?.bind SpecialForm.ofSymbol? with
  | some form =>
    obtain ⟨head, r, rfl, hhead⟩ : ∃ head r, f = .symbol head r ∧
        SpecialForm.ofSymbol? head = some form := by
      cases f with
      | symbol head r => exact ⟨head, r, rfl, hspecial⟩
      | _ => cases hspecial
    exact tracks_located hp (hC.special hv hscope hp hhead hG hrest)
  | none =>
    refine tracks_get_bind fun s t hs => ?_
    rw [← hC.macroOf?_eq hscope hs hf hfg hspecial]
    cases hmacro : macroOf? s.globals f scope with
    | none => exact hC.application hv hscope hf hfs hfg hrest hp s t hs
    | some m =>
      obtain ⟨name, expander⟩ := m
      obtain ⟨x, r, rfl, -, hresolve⟩ := Rules.macroOf?_eq_some hmacro
      dsimp only
      rw [bind_run, bind_run]
      have hxy := hC.expand hs hG hcall hresolve
      generalize Analysis.expand name expander _ s = a, Analysis.expand name expander _ t = b at hxy
      cases hxy with
      | ok h hs' => exact hre h.1 h.2 hscope _ _ hs'
      | failed he hs' => exact .failed he hs'
      | exhausted hs' => exact .exhausted hs'

theorem step {f g : Form} (hG : G scope f) (h : v.Forms f g) :
    Tracks v P v.Nodes (Analysis.step reenter visit f scope)
      (Analysis.step reenter' visit' g scope') := by
  have hparts : ∀ x ∈ f.parts, G scope.operand x := fun x hx => hC.inOperand (hC.part hG hx)
  have hitems := all hv hscope.operand hparts h.parts
  cases h with
  | symbol hp => exact hC.reference hscope hG hp
  | @tuple d xs ys p q hxs hp =>
    cases d with
    | paren => exact hC.parens hre hv hscope hG hxs hp
    | bracket =>
      exact hitems.bind fun ns ms hns => hC.push hscope hp fun hij => .tuple hns hij
  | @table ds es p q hes hp =>
    unfold Analysis.step
    dsimp only
    rw [entries_eq, entries_eq]
    exact hitems.bind fun ns ms hns => hC.push hscope hp fun hij => .table hns hij
  | set hxs hp => exact hitems.bind fun ns ms hns => hC.push hscope hp fun hij => .set hns hij
  | array hxs hp => exact hitems.bind fun ns ms hns => hC.push hscope hp fun hij => .array hns hij
  | scalar hs =>
    have hliteral : Tracks v P v.Nodes (Analysis.push (.literal f) scope none)
        (Analysis.push (.literal f) scope' none) :=
      hC.push hscope (fun _ => rfl) fun hij => .literal (.scalar hs) hij
    cases f <;> first | exact hliteral | cases hs

end

end Forms

/-! ### Whole runs -/

omit hC in
theorem exhausted : Visit.Tracks v P G Analysis.exhausted Analysis.exhausted := by
  intro f g scope scope' _ _ _ s t hs
  exact .exhausted hs

theorem toDepth {reenter reenter' : Visit} (hre : Visit.Tracks v P G reenter reenter')
    (height : Nat) :
    Visit.Tracks v P G (Analysis.toDepth reenter height) (Analysis.toDepth reenter' height) := by
  induction height with
  | zero => exact exhausted
  | succ height ih =>
    intro f g scope scope' hG h hscope
    exact hC.step hre ih hscope hG h

theorem withExpansions (expansions : Nat) :
    Visit.Tracks v P G (Analysis.withExpansions expansions)
      (Analysis.withExpansions expansions) := by
  induction expansions with
  | zero =>
    intro f g scope scope' hG h hscope
    unfold Analysis.withExpansions
    rw [h.height]
    exact hC.toDepth exhausted g.height hG h hscope
  | succ n ih =>
    intro f g scope scope' hG h hscope
    unfold Analysis.withExpansions
    rw [h.height]
    exact hC.toDepth ih g.height hG h hscope

/-- **Related forms are analyzed alike from related states.** -/
theorem form : Visit.Tracks v P G Analysis.form Analysis.form := hC.withExpansions expansionLimit

theorem forms {scope scope' : Scope} (hscope : v.Scopes scope scope') {fs gs : List Form}
    (hG : ∀ f ∈ fs, G scope f) (h : List.Forall₂ v.Forms fs gs) :
    Tracks v P (List.Forall₂ v.Nodes) (Analysis.all Analysis.form fs scope)
      (Analysis.all Analysis.form gs scope') :=
  all hC.form hscope hG h

/-- Units run alike from states in which nothing was added yet. -/
theorem unit {scope scope' : Scope} (hscope : v.Scopes scope scope') {fs gs : List Form}
    (hG : ∀ f ∈ fs, G scope f) (h : List.Forall₂ v.Forms fs gs) {s t : State} (hs : P s t)
    (hadded : s.added = []) (hadded' : t.added = []) :
    Outcomes v P (List.Forall₂ v.Nodes) (Analysis.unit fs scope s) (Analysis.unit gs scope' t) := by
  have hwithdraw : ∀ {s' t'}, P s' t' → P (s'.withdraw 0) (t'.withdraw 0) := by
    intro s' t' h'
    have hback := hC.withdraw hs h'
    rwa [hadded, hadded'] at hback
  unfold Analysis.unit withdrawing
  have hxy := hC.forms hscope hG h s t hs
  generalize Analysis.all Analysis.form fs scope s = r, Analysis.all Analysis.form gs scope' t = q
    at hxy
  cases hxy with
  | ok hns h' => exact .ok hns h'
  | failed he h' => exact .failed he (hwithdraw h')
  | exhausted h' => exact .exhausted (hwithdraw h')

end Correspondence

end LarkPhp.Analysis
