import LarkPhp.Proofs.Bindings

/-!
Analysis accepts exactly the language.

Every construct decides its rule, so a form is accepted if and only if it can be derived, and what
is defined after the run is what the derivation says.  Without macros, the only way for a run to
accept more is a form that mentions symbols which are drawn in the course of the run itself.
-/

namespace LarkPhp.Analysis

open LarkPhp.Language

section Readings
variable {home core : String} {k : Nat} {scope : Scope} {L : Set Symbol}

/-! ### Symbols and parameters -/

/-- Without macros, a symbol is resolved if and only if it refers to a definition. -/
theorem exists_resolve_iff {g : Globals} (hg : g.expanders = []) (x : Symbol) (home : String) :
    (∃ own name, g.resolve x home = .global own name) ↔ Refers home g.core g.definitions x := by
  have hin : ∀ own name, g.resolveIn own name =
      if (own, name) ∈ g.defined then .global own (.ofWritten name) else .unresolved := by
    intro own name
    simp only [Globals.resolveIn, Globals.isDefined_iff, hg, List.lookup_nil]
  unfold Globals.resolve Refers
  cases x.generated with
  | true => simp
  | false =>
    cases x.qualifier with
    | some own => by_cases hown : (own, x.name) ∈ g.defined <;> simp [hin, hown, Globals.definitions]
    | none =>
      by_cases hhome : (home, x.name) ∈ g.defined
      · simp [hin, hhome, Globals.definitions]
      · by_cases hcore : (g.core, x.name) ∈ g.defined <;>
          simp [hin, hhome, hcore, Globals.definitions]

theorem decides_reference {x : Symbol} (hx : x.generation ≤ k) (hsees : Sees home k scope L)
    (p : Option Span) :
    Decides core k (reference x p scope) fun D D' => Visible home core L D x ∧ D' = D := by
  constructor
  · intro s n s' hs h
    obtain ⟨hreference, rfl⟩ := Rules.reference_sound h
    refine ⟨hs.of_globals rfl (Nat.le_refl _), ?_, rfl⟩
    cases hreference with
    | host hhost => exact .inl hhost
    | className _ hclass => exact .inr (.inl hclass)
    | localVar _ _ hlocal => exact .inr (.inr (.inl ((hsees.locals hx).1 hlocal)))
    | globalVar _ _ _ hresolve =>
      refine .inr (.inr (.inr ?_))
      rw [← hs.core, ← hsees.home]
      exact (exists_resolve_iff hs.expanders _ _).1 ⟨_, _, hresolve⟩
  · rintro s _ hs ⟨hvisible, rfl⟩
    unfold reference
    split
    · exact ⟨_, _, rfl, rfl⟩
    next hhost =>
    split
    · exact ⟨_, _, rfl, rfl⟩
    next hclass =>
    split
    · exact ⟨_, _, rfl, rfl⟩
    next hlocal =>
    rcases hvisible with hvisible | hvisible | hvisible | hvisible
    · exact absurd hvisible hhost
    · exact absurd hvisible hclass
    · exact absurd ((hsees.locals hx).2 hvisible) hlocal
    · rw [← hs.core, ← hsees.home] at hvisible
      obtain ⟨own, name, hresolve⟩ := (exists_resolve_iff hs.expanders _ _).2 hvisible
      have hget : (get : Analyze State) s = .ok s s := rfl
      refine ⟨.globalVar own name (s.info scope p), s.numbered, ?_, rfl⟩
      rw [bind_run_ok hget, hresolve]
      rfl

/-- A bound symbol stands for a variable. -/
theorem decides_local {x : Symbol} (hx : scope.isLocal x = true) (p : Option Span) :
    Decides core k (reference x p scope) fun D D' => D' = D := by
  unfold reference
  split
  · exact decides_push _ scope p
  split
  · exact decides_push _ scope p
  · exact decides_push _ scope p

theorem macroOf?_eq_none {g : Globals} (hg : g.expanders = []) (head : Form) (scope : Scope) :
    macroOf? g head scope = none := by
  refine Option.eq_none_iff_forall_ne_some.2 fun m hm => ?_
  obtain ⟨x, q, -, -, hresolve⟩ := Rules.macroOf?_eq_some hm
  exact resolve_ne_expander hg _ _ _ _ hresolve

/-- A parameter list is read if a derivation can read it, and what comes then is decided for the
variables that stand for the parameters. -/
theorem decides_parameters {forms : List Form} {p : Option Span} {α : Type}
    {next : Parameters → Analyze α} {R : List Form → Definitions → Definitions → Prop}
    (hnext : ∀ binders ps, Language.Parameters forms binders →
      Substituted k binders ps.names ps.patterns → Decides core k (next ps) (R binders)) :
    Decides core k (parameters forms p >>= next) fun D D' =>
      ∃ binders, Language.Parameters forms binders ∧ R binders D D' := by
  unfold parameters
  rw [bind_assoc]
  refine (silent_binders _).decides fun a ha => ?_
  obtain ⟨vars, pairs⟩ := a
  dsimp only
  rcases hback : forms.dropWhile (!·.isRestMarker) with _ | ⟨marker, _ | ⟨rest, _ | ⟨f, back⟩⟩⟩
  · have hbinders : Language.Parameters forms (forms.takeWhile (!·.isRestMarker)) :=
      parameters_iff.2 (.inl ⟨hback, rfl⟩)
    rw [hback, pure_bind]
    refine (hnext _ ⟨vars, false, pairs⟩ hbinders ha).congr fun D D' => ?_
    simp [parameters_iff, hback]
  · rw [hback]
    refine decides_fail _ p fun D D' h => ?_
    simp [parameters_iff, hback] at h
  · have hbinders : Language.Parameters forms (forms.takeWhile (!·.isRestMarker) ++ [rest]) :=
      parameters_iff.2 (.inr ⟨marker, rest, hback, rfl⟩)
    rw [hback, bind_assoc]
    refine (silent_binder rest).decides fun b hb => ?_
    rw [pure_bind]
    refine (hnext _ ⟨vars ++ [b.1], true, pairs ++ b.2⟩ hbinders (ha.append hb)).congr
      fun D D' => ?_
    simp [parameters_iff, hback]
  · rw [hback]
    refine decides_fail _ p fun D D' h => ?_
    simp [parameters_iff, hback] at h

end Readings

section Constructs
variable {home core : String} {k bound : Nat} {visit : Visit} {scope : Scope} {L : Set Symbol}
  {head : Form} {args body : List Form} (hv : Visits home core k bound visit)
  (hsees : Sees home k scope L)
include hv hsees

/-! ### Binding forms -/

theorem decides_letForm (hhead : head.Fits bound k) (hbody : ∀ f ∈ body, f.Fits bound k)
    (p : Option Span) :
    Decides core k (letForm visit head body scope p)
      (Special (Derives home core) home .bindings (head :: body) L) := by
  unfold letForm
  split
  · next d forms q =>
    split
    · next pairs hpairs =>
      have hws : List.Forall₂ (Paired k bound scope) pairs
          (pairs.map fun e => (some e.2, e.1)) := by
        rw [List.forall₂_map_right_iff, List.forall₂_same]
        intro e he
        obtain ⟨hpattern, hvalue⟩ := mem_of_pairUp hpairs e he
        have hvalue := hhead.inside hvalue
        exact ⟨rfl, hhead.inside hpattern, .form hvalue.upTo, hvalue.height⟩
      refine (decides_bindings hv hws hbody hsees p).congr fun D D' => ?_
      rw [special_bindings, hpairs]
      simp only [Option.some.injEq, exists_eq_left']
    · next hpairs =>
      refine decides_fail _ _ fun D D' h => ?_
      obtain ⟨pairs, hsome, -⟩ := special_bindings.1 h
      cases hpairs.symm.trans hsome
  · next hshape =>
    refine decides_fail _ _ fun D D' h => ?_
    cases h with
    | bindings => exact hshape _ _ _ rfl
    | operands hform => cases hform

theorem decides_function (hhead : head.Fits bound k) (hbody : ∀ f ∈ body, f.Fits bound k)
    (p : Option Span) :
    Decides core k (function visit head body scope p)
      (Special (Derives home core) home .function (head :: body) L) := by
  unfold function
  split
  · next d forms q =>
    refine (decides_parameters fun binders ps hbinders hps => ?_).congr
      fun D D' => special_function
    have hinner : Binds ps.names scope
        (((scope.unshadow ps.names).bind ps.names).withContext .result) :=
      ⟨rfl, (binds_bind (scope.unshadow ps.names) ps.names).locals⟩
    have hpatterns := hps.paired (fun f hf => hhead.inside (hbinders.mem hf)) fun _ => hinner.of_mem
    exact (decides_patternBody hv hpatterns hbody (hsees.more hinner hps.names) p).push scope p
  · next hshape =>
    refine decides_fail _ _ fun D D' h => ?_
    cases h with
    | function => exact hshape _ _ _ rfl
    | operands hform => cases hform

theorem decides_loopOver {value : Symbol} {key : Option Symbol} {binders : List Form}
    {vars : List Symbol} {pairs : List (Form × Form)}
    (hvars : ∀ x, x ∈ value :: key.toList ↔ x ∈ vars) (hsub : Substituted k binders vars pairs)
    (hbinders : ∀ f ∈ binders, f.Fits bound k) {collection : Form}
    (hcollection : collection.Fits bound k) (hbody : ∀ f ∈ body, f.Fits bound k) (p : Option Span) :
    Decides core k (loopOver visit value key pairs collection body scope p) fun D D' =>
      ∃ D₁, Derives home core collection L D D₁ ∧
        Scoped (Derives home core) (patterns binders) body (L ∪ names binders) D₁ D' := by
  have hpatternBody : ∀ inner, Binds (value :: key.toList) scope inner →
      Decides core k (patternBody visit pairs body (inner.withContext .statement) p)
        (Scoped (Derives home core) (patterns binders) body (L ∪ names binders)) := by
    intro inner hinner
    have hinner := hinner.withContext .statement
    have hpatterns := hsub.paired hbinders fun x hx => hinner.of_mem ((hvars x).2 hx)
    have hnames := hsees.more hinner fun x hx => (hvars x).trans (hsub.names x hx)
    exact decides_patternBody hv hpatterns hbody hnames p
  unfold loopOver
  refine (hv.form hcollection hsees.operand).bind fun coll => ?_
  refine (silent_bindName value scope).decides fun a ha => ?_
  cases key with
  | none => exact (hpatternBody a.2 ha).push scope p
  | some key =>
    refine (silent_bindName key a.2).decides fun b hb => ?_
    exact (hpatternBody b.2 (ha.trans hb)).push scope p

theorem decides_loop (hhead : head.Fits bound k) (hbody : ∀ f ∈ body, f.Fits bound k)
    (p : Option Span) :
    Decides core k (loop visit head body scope p)
      (Special (Derives home core) home .loop (head :: body) L) := by
  unfold loop
  split
  · next d v collection q =>
    refine (silent_binder v).decides fun a ha => ?_
    have hbinders : ∀ f ∈ [v], f.Fits bound k := fun f hf =>
      hhead.inside (List.mem_append_left [collection] hf)
    have hcollection : collection.Fits bound k := hhead.inside (by simp [Form.parts])
    refine (decides_loopOver hv hsees (fun x => by simp) ha hbinders hcollection hbody p).congr
      fun D D' => ?_
    exact special_loop [v] collection (.inl rfl)
  · next d key v collection q =>
    refine (silent_binder key).decides fun a ha => (silent_binder v).decides fun b hb => ?_
    have hbinders : ∀ f ∈ [key, v], f.Fits bound k := fun f hf =>
      hhead.inside (List.mem_append_left [collection] hf)
    have hcollection : collection.Fits bound k := hhead.inside (by simp [Form.parts])
    refine (decides_loopOver hv hsees (fun x => ?_) (ha.append hb) hbinders hcollection hbody
      p).congr fun D D' => ?_
    · simp [or_comm]
    · exact special_loop [key, v] collection (.inr rfl)
  · next hvalue hkey =>
    refine decides_fail _ _ fun D D' h => ?_
    cases h with
    | @loop d binders collection q _ _ _ _ _ hlength =>
      rcases hlength with hlength | hlength
      · obtain ⟨v, rfl⟩ := List.length_eq_one_iff.1 hlength
        exact hvalue _ _ rfl
      · obtain ⟨key, v, rfl⟩ := List.length_eq_two.1 hlength
        exact hkey _ _ _ rfl
    | operands hform => cases hform
  · next hvalue hkey hshape =>
    refine decides_fail _ _ fun D D' h => ?_
    cases h with
    | loop => exact hshape _ _ _ rfl
    | operands hform => cases hform

/-! ### Definitions and members -/

theorem decides_definition {name value : Form} (hvalue : value.Fits bound k) (p : Option Span) :
    Decides core k (definition visit name value scope p)
      (Special (Derives home core) home .definition [name, value] L) := by
  unfold definition
  split
  · next x q =>
    split
    · next hx =>
      have hvalue := (decides_announce scope.homeName x.name p).bind
        fun _ => hv.form hvalue hsees.operand
      refine (hvalue.transaction.push scope p).congr fun D D' => ?_
      rw [special_definition, hsees.home]
      simp [Option.isNone_iff_eq_none.1 hx]
    · next hx =>
      refine decides_fail _ _ fun D D' h => ?_
      obtain ⟨hnone, -⟩ := special_definition.1 h
      exact hx (Option.isNone_iff_eq_none.2 hnone)
  · next hshape =>
    refine decides_fail _ _ fun D D' h => ?_
    cases h with
    | definition => exact hshape _ _ rfl
    | operands hform => cases hform

theorem decides_member {static : Bool} {object part : Form} {R : Definitions → Definitions → Prop}
    (htarget : Decides core k (target visit object static scope.operand) R)
    (hpart : part.Fits bound k) (p : Option Span) :
    Decides core k (member visit static object part scope p) fun D D' =>
      ∃ D₁, R D D₁ ∧ Part (Derives home core) part L D₁ D' := by
  unfold member
  refine htarget.bind fun t => ?_
  split
  · next d x q args place =>
    have hargs := hv.all (fun f hf => hpart.inside (List.mem_cons_of_mem _ hf)) hsees.operand
    refine (hargs.bind fun nodes => (decides_push _ _ place).push scope p).congr fun D D' => ?_
    simp [part_method]
  · next hshape =>
    refine decides_fail _ _ fun D D' h => ?_
    cases h with
    | method => exact hshape _ _ _ rfl
  · next x place =>
    exact ((decides_push _ _ place).push scope p).congr fun D D' => part_property
  · next hmethod _ hproperty =>
    refine decides_fail _ _ fun D D' h => ?_
    cases h with
    | method => exact hmethod _ _ _ _ _ rfl
    | property => exact hproperty _ _ rfl

theorem decides_staticMember {cls part : Form} (hcls : cls.Fits bound k)
    (hpart : part.Fits bound k) (p : Option Span) :
    Decides core k (member visit true cls part scope p)
      (Special (Derives home core) home .staticMember [cls, part] L) := by
  cases hsymbol : cls.symbol? with
  | some x =>
    obtain ⟨q, rfl⟩ : ∃ q, cls = .symbol x q := by
      cases cls <;> cases hsymbol
      exact ⟨_, rfl⟩
    have htarget : Decides core k (target visit (.symbol x q) true scope.operand)
        fun D D' => D' = D := decides_push _ _ q
    refine (decides_member hv hsees htarget hpart p).congr fun D D' => ?_
    simp [special_className]
  | none =>
    have htarget : Decides core k (target visit cls true scope.operand)
        (Derives home core cls L) := by
      unfold target
      split
      · cases hsymbol
      · exact hv.form hcls hsees.operand
    refine (decides_member hv hsees htarget hpart p).congr fun D D' => ?_
    exact special_staticMember hsymbol

/-! ### Special forms -/

theorem decides_branch {test yes : Form} (no : Option Form)
    (hforms : ∀ f ∈ test :: yes :: no.toList, f.Fits bound k) (p : Option Span) :
    Decides core k (branch visit test yes no scope p)
      (Sequence (Derives home core) (test :: yes :: no.toList) L) := by
  obtain ⟨htest, hyes, hno⟩ := by simpa only [List.forall_mem_cons] using hforms
  have hno : Decides core k (optional visit no scope p)
      (Sequence (Derives home core) no.toList L) := by
    cases no with
    | none => exact (decides_push _ scope p).congr fun D D' => sequence_nil
    | some no =>
      refine (hv.form (hno no (List.mem_singleton.2 rfl)) hsees).congr fun D D' => ?_
      simp
  refine ((hv.form htest hsees.operand).bind fun c => (hv.form hyes hsees).bind fun t =>
    hno.push scope p).congr fun D D' => ?_
  simp only [sequence_cons]

omit hv hsees in
/-- A number of arguments that the special form does not take is a fault. -/
theorem decides_argumentCount {form : SpecialForm} (hargs : takes form args.length = false)
    (p : Option Span) :
    Decides core k (fail (.argumentCount form) p : Analyze Node)
      (Special (Derives home core) home form args L) := by
  refine decides_fail _ p fun D D' h => ?_
  cases hargs.symm.trans h.takes

theorem decides_special (hargs : ∀ f ∈ args, f.Fits bound k) (form : SpecialForm)
    (p : Option Span) :
    Decides core k (special visit form args scope p)
      (Special (Derives home core) home form args L) := by
  have hoperand : ∀ f ∈ args, Decides core k (visit f scope.operand) (Derives home core f L) :=
    fun f hf => hv.form (hargs f hf) hsees.operand
  have hrest : ∀ {f fs}, args = f :: fs → ∀ g ∈ fs, g.Fits bound k := by
    rintro f fs rfl g hg
    exact hargs g (List.mem_cons_of_mem f hg)
  cases form with
  | block => exact (hv.block hargs hsees p).congr fun D D' => special_operands rfl rfl
  | quote =>
    rcases args with _ | ⟨value, _ | _⟩
    · exact decides_argumentCount rfl p
    · exact (decides_push _ scope p).congr fun D D' => special_quote
    · exact decides_argumentCount rfl p
  | branch =>
    rcases args with _ | ⟨test, _ | ⟨yes, _ | ⟨no, _ | _⟩⟩⟩
    · exact decides_argumentCount rfl p
    · exact decides_argumentCount rfl p
    · exact (decides_branch hv hsees none hargs p).congr fun D D' => special_operands rfl rfl
    · exact (decides_branch hv hsees (some no) hargs p).congr fun D D' => special_operands rfl rfl
    · exact decides_argumentCount rfl p
  | bindings =>
    rcases args with _ | ⟨head, body⟩
    · exact decides_argumentCount rfl p
    · exact decides_letForm hv hsees (hargs head (by simp)) (hrest rfl) p
  | function =>
    rcases args with _ | ⟨head, body⟩
    · exact decides_argumentCount rfl p
    · exact decides_function hv hsees (hargs head (by simp)) (hrest rfl) p
  | definition =>
    rcases args with _ | ⟨name, _ | ⟨value, _ | _⟩⟩
    · exact decides_argumentCount rfl p
    · exact decides_argumentCount rfl p
    · exact decides_definition hv hsees (hargs value (by simp)) p
    · exact decides_argumentCount rfl p
  | loop =>
    rcases args with _ | ⟨head, body⟩
    · exact decides_argumentCount rfl p
    · exact decides_loop hv hsees (hargs head (by simp)) (hrest rfl) p
  | throw =>
    rcases args with _ | ⟨exception, _ | _⟩
    · exact decides_argumentCount rfl p
    · refine ((hoperand exception (by simp)).push scope p).congr fun D D' => ?_
      rw [special_operands rfl rfl]
      simp
    · exact decides_argumentCount rfl p
  | new =>
    rcases args with _ | ⟨cls, args⟩
    · exact decides_argumentCount rfl p
    · have hnodes := hv.all (hrest rfl) hsees.operand
      refine ((hoperand cls (by simp)).bind fun c => hnodes.push scope p).congr fun D D' => ?_
      rw [special_operands rfl rfl, sequence_cons]
  | member =>
    rcases args with _ | ⟨object, _ | ⟨part, _ | _⟩⟩
    · exact decides_argumentCount rfl p
    · exact decides_argumentCount rfl p
    · have htarget : Decides core k (target visit object false scope.operand)
          (Derives home core object L) := by
        cases object <;> exact hoperand _ (by simp)
      exact (decides_member hv hsees htarget (hargs part (by simp)) p).congr
        fun D D' => special_member
    · exact decides_argumentCount rfl p
  | staticMember =>
    rcases args with _ | ⟨cls, _ | ⟨part, _ | _⟩⟩
    · exact decides_argumentCount rfl p
    · exact decides_argumentCount rfl p
    · exact decides_staticMember hv hsees (hargs cls (by simp)) (hargs part (by simp)) p
    · exact decides_argumentCount rfl p
  | arrayGet =>
    rcases args with _ | ⟨array, _ | ⟨index, _ | _⟩⟩
    · exact decides_argumentCount rfl p
    · exact decides_argumentCount rfl p
    · refine ((hoperand array (by simp)).bind fun a =>
        (hoperand index (by simp)).push scope p).congr fun D D' => ?_
      rw [special_operands rfl rfl]
      simp
    · exact decides_argumentCount rfl p
  | arraySet =>
    rcases args with _ | ⟨array, _ | ⟨index, _ | ⟨value, _ | _⟩⟩⟩
    · exact decides_argumentCount rfl p
    · exact decides_argumentCount rfl p
    · exact decides_argumentCount rfl p
    · refine ((hoperand array (by simp)).bind fun a => (hoperand index (by simp)).bind fun i =>
        (hoperand value (by simp)).push scope p).congr fun D D' => ?_
      rw [special_operands rfl rfl]
      simp
    · exact decides_argumentCount rfl p

/-! ### Forms -/

theorem decides_application (hhead : head.Fits bound k) (hargs : ∀ f ∈ args, f.Fits bound k)
    (p : Option Span) :
    Decides core k (application visit head args scope p) fun D D' =>
      callable head = true ∧ (operatorOf? head = none ∨ args ≠ []) ∧
        Sequence (Derives home core) (head :: args) L D D' := by
  unfold application
  split
  · next hcallable =>
    refine decides_fail _ p fun D D' h => ?_
    simp [h.1] at hcallable
  next hcallable =>
  have hcallable : callable head = true := by simpa using hcallable
  have hcall : Decides core k (do
      let f ← visit head scope.operand
      let nodes ← all visit args scope.operand
      push (.call f nodes) scope p) (Sequence (Derives home core) (head :: args) L) := by
    refine ((hv.form hhead hsees.operand).bind fun f =>
      (hv.all hargs hsees.operand).push scope p).congr fun D D' => ?_
    exact sequence_cons
  cases hoperator : operatorOf? head with
  | none =>
    refine hcall.congr fun D D' => ?_
    simp only [hcallable, true_or, true_and]
  | some operator =>
    cases args with
    | nil => exact decides_fail _ p fun D D' h => by simp at h
    | cons f fs =>
      refine hcall.congr fun D D' => ?_
      simp [hcallable]

theorem decides_parens (hargs : ∀ f ∈ args, f.Fits bound k) (reenter : Visit) (p : Option Span) :
    Decides core k (parens reenter visit ⟨args, p⟩ scope)
      (Step (Derives home core) home core (.tuple .paren args p) L) := by
  unfold parens
  cases args with
  | nil => exact (decides_push _ scope p).congr fun D D' => step_unit
  | cons head args =>
    obtain ⟨hhead, hrest⟩ := List.forall_mem_cons.1 hargs
    dsimp only
    cases hform : head.symbol?.bind SpecialForm.ofSymbol? with
    | some form =>
      obtain ⟨x, hx, hform⟩ := Option.bind_eq_some_iff.1 hform
      obtain ⟨q, rfl⟩ : ∃ q, head = .symbol x q := by
        cases head <;> cases hx
        exact ⟨_, rfl⟩
      refine ((decides_special hv hsees hrest form p).located p).congr fun D D' => ?_
      exact step_special hform
    | none =>
      -- the head names no macro, so this is a plain call
      have happlication := decides_application hv hsees hhead hrest p
      refine (happlication.of_eq fun s hs => ?_).congr fun D D' => step_call hform
      dsimp only
      have hget : (get : Analyze State) s = .ok s s := rfl
      rw [bind_run_ok hget, macroOf?_eq_none hs.expanders]

theorem decides_step {f : Form} (hf : f.Fits (bound + 1) k) (reenter : Visit) :
    Decides core k (step reenter visit f scope) (Step (Derives home core) home core f L) := by
  have hparts : ∀ g ∈ f.parts, g.Fits bound k := fun g hg => hf.part hg
  have hcollection : ∀ (make : List Node → Node.Info → Node) (p : Option Span),
      isCollection f = true →
      Decides core k (all visit f.parts scope.operand >>= fun nodes => push (make nodes) scope p)
        (Step (Derives home core) home core f L) := by
    intro make p hcollection
    refine ((hv.all hparts hsees.operand).push scope p).congr fun D D' => ?_
    exact step_collection hcollection
  cases f with
  | symbol x p =>
    have hx : x.generation ≤ k := hf.upTo x (List.mem_singleton.2 rfl)
    exact (decides_reference hx hsees p).congr fun D D' => step_symbol
  | tuple d xs p =>
    cases d with
    | paren => exact decides_parens hv hsees hparts reenter p
    | bracket => exact hcollection .tuple p rfl
  | table es p =>
    have htable := hcollection .table p rfl
    rwa [Form.parts, ← entries_eq] at htable
  | set xs p => exact hcollection .set p rfl
  | array xs p => exact hcollection .array p rfl
  | _ => exact (decides_push _ scope none).congr fun D D' => step_scalar rfl

/-- A part of a bound holder stands for its key. -/
theorem decides_access {x : Symbol} (hx : scope.isLocal x = true) {key : Form}
    (hkey : key.Fits bound k) (reenter : Visit) :
    Decides core k (step reenter visit (Pattern.access x key) scope) (Derives home core key L) := by
  have hholder : Decides core k (visit (.symbol x none) scope.operand)
      (Sequence (Derives home core) [] L) := by
    have hx : scope.operand.isLocal x = true := hx
    exact hv (Nat.le_trans key.height_pos hkey.height) (.holder hx) hsees.operand
  have hstep : step reenter visit (Pattern.access x key) scope = located none (do
      let a ← visit (.symbol x none) scope.operand
      let i ← visit key scope.operand
      push (.arrayGet a i) scope none) := rfl
  rw [hstep]
  refine (Decides.located (hholder.bind fun a =>
    (hv.form hkey hsees.operand).push scope none) none).congr fun D D' => ?_
  simp

end Constructs

/-! ### All runs -/

/-- Forms, and the values that patterns are taken apart into, are analyzed as they are derived. -/
theorem visits_toDepth {home core : String} {k : Nat} (reenter : Visit) (bound : Nat) :
    Visits home core k bound (toDepth reenter bound) := by
  -- on the height: what patterns are taken apart into is no higher than the form around them
  induction bound with
  | zero =>
    intro value before scope L hheight
    exact absurd value.height_pos (Nat.not_lt.2 hheight)
  | succ bound ih =>
    intro value before scope L hheight hstands hsees
    cases hstands with
    | form hf =>
      refine (decides_step ih hsees ⟨hheight, hf⟩ reenter).congr fun D D' => ?_
      simp [derives_iff]
    | holder hx => exact (decides_local hx none).congr fun D D' => sequence_nil
    | element hx =>
      rw [height_access] at hheight
      have hkey : (Form.int _).Fits bound k :=
        ⟨Nat.le_of_succ_le_succ hheight, fun _ hx => by cases hx⟩
      refine (decides_access ih hsees hx hkey reenter).congr fun D D' => ?_
      rw [derives_iff, step_scalar rfl]
      exact sequence_nil
    | entry hx hkey =>
      rw [height_access] at hheight
      have hkey := Form.Fits.mk (Nat.le_of_succ_le_succ hheight) hkey
      refine (decides_access ih hsees hx hkey reenter).congr fun D D' => ?_
      simp

theorem withExpansions_eq (n : Nat) (f : Form) :
    ∃ reenter, withExpansions n f = toDepth reenter f.height f := by
  cases n with
  | zero => exact ⟨exhausted, rfl⟩
  | succ n => exact ⟨withExpansions n, rfl⟩

/-- **Analysis accepts exactly the language.**  Without macros, a form that mentions no symbol which
is still to be drawn is analyzed without a fault if and only if it can be derived from the names that
are bound around it and from what is defined, and then the two agree on what is defined after it. -/
theorem form_accepts (f : Form) (scope : Scope) (s : State) (hs : s.globals.expanders = [])
    (hf : f.UpTo s.drawn) :
    ((∃ n s', form f scope s = .ok n s') ↔
      ∃ D', Derives scope.homeName s.globals.core f {x | x ∈ scope.locals} s.globals.definitions D') ∧
    ∀ n s', form f scope s = .ok n s' → ∀ D',
      Derives scope.homeName s.globals.core f {x | x ∈ scope.locals} s.globals.definitions D' ↔
        D' = s'.globals.definitions := by
  obtain ⟨reenter, hform⟩ := withExpansions_eq expansionLimit f
  have hsteady : Steady s.globals.core s.drawn s := ⟨hs, rfl, Nat.le_refl _⟩
  have hsees : Sees scope.homeName s.drawn scope {x | x ∈ scope.locals} :=
    ⟨rfl, fun _ => scope.isLocal_iff⟩
  have hvisits : Visits scope.homeName s.globals.core s.drawn f.height
      (toDepth reenter f.height) := visits_toDepth reenter f.height
  have hdecides := hvisits.form ⟨Nat.le_refl _, hf⟩ hsees
  rw [← hform] at hdecides
  refine ⟨⟨?_, ?_⟩, fun n s' hrun D' => ⟨fun hD => ?_, ?_⟩⟩
  · rintro ⟨n, s', hrun⟩
    exact ⟨_, (hdecides.sound hsteady hrun).2⟩
  · rintro ⟨D', hD⟩
    obtain ⟨n, s', hrun, -⟩ := hdecides.complete hsteady hD
    exact ⟨n, s', hrun⟩
  · obtain ⟨n', s'', hrun', rfl⟩ := hdecides.complete hsteady hD
    cases hrun.symm.trans hrun'
    rfl
  · rintro rfl
    exact (hdecides.sound hsteady hrun).2

/-- The form `(let [[a b] 1] (def c [b a]))`. -/
def definingForm : Form :=
  .parens [.name "let", .brackets [.brackets [.name "a", .name "b"], .int 1],
    .parens [.name "def", .name "c", .brackets [.name "b", .name "a"]]]

theorem form_accepts_definingForm :
    (State.start default 0).globals.expanders = [] ∧ definingForm.UpTo 0 ∧
      Derives "user" "lark\\core" definingForm ∅ ∅ {("user", "c")} := by
  have hupTo : definingForm.UpTo 0 := by
    unfold Form.UpTo
    decide
  refine ⟨rfl, hupTo, ?_⟩
  have hrun : ((form definingForm .empty >>= fun _ => get).run' (.start default 0)).any
      (fun s : State => s.globals.defined == [("user", "c")]) = true := by
    decide +kernel
  obtain ⟨s, _, hrun, hdefined⟩ := exists_ok_of_any hrun
  obtain ⟨n, _, hform, hget⟩ := bind_eq_ok.1 hrun
  cases hget
  have hderives := (form_accepts definingForm .empty (.start default 0) rfl hupTo).2 n s hform
  have hlocals : {x | x ∈ Scope.empty.locals} = (∅ : Set Symbol) := Set.ext fun x => by
    simp [Scope.empty]
  have hbefore : (State.start default 0).globals.definitions = ∅ := Set.ext fun e => by
    simp [State.start, Globals.definitions, default, Globals.empty]
  have hafter : s.globals.definitions = {("user", "c")} := Set.ext fun e => by
    simp [Globals.definitions, beq_iff_eq.1 hdefined]
  rw [hlocals, hbefore, hafter] at hderives
  exact (hderives _).2 rfl

/-- The form `(let [[a] 1] x)`, where `x` is the first symbol that is drawn. -/
def undrawnForm : Form :=
  .parens [.name "let", .brackets [.brackets [.name "a"], .int 1], .symbol (.fresh 1) none]

/-- A form that mentions the holder of one of its own patterns is accepted, though no derivation knows
of the holder. -/
theorem form_accepts_undrawnForm :
    ¬ ∀ (f : Form) (scope : Scope) (s : State), s.globals.expanders = [] →
      ((∃ n s', form f scope s = .ok n s') ↔ ∃ D', Derives scope.homeName s.globals.core f
        {x | x ∈ scope.locals} s.globals.definitions D') := by
  intro h
  have haccepted : ((form undrawnForm .empty).run' (.start default 0)).any (fun _ => true) := by
    decide +kernel
  obtain ⟨n, s, hrun, -⟩ := exists_ok_of_any haccepted
  obtain ⟨D', hD⟩ := (h undrawnForm .empty (.start default 0) rfl).1 ⟨n, s, hrun⟩
  have hlet : SpecialForm.ofSymbol? (.plain "let") = some .bindings := by decide
  rw [derives_iff, undrawnForm, Form.parens, Form.name, step_special hlet] at hD
  obtain ⟨pairs, hpairs, hD⟩ := special_bindings.1 hD
  cases hpairs
  obtain ⟨D₁, -, hD⟩ := scoped_tuple.1 hD
  obtain ⟨-, D₂, -, hD⟩ := scoped_name.1 hD
  obtain ⟨D₃, hx, -⟩ := sequence_cons.1 (scoped_nil.1 hD)
  obtain ⟨hhost | hclass | hlocal | hrefers, -⟩ := step_symbol.1 (derives_iff.1 hx)
  · cases hhost
  · exact absurd hclass (by decide)
  · -- only `a` is visible
    rcases hlocal with hlocal | hlocal
    · exact absurd hlocal (by decide)
    · cases hlocal
  · cases hrefers.1

end LarkPhp.Analysis
