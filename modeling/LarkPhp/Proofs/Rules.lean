import LarkPhp.Proofs.Run

/-!
Successful analysis, as rules.

A judgement relates a form and a scope, with the state before, to a node, with the state after.
`Step J` says how one form is analyzed when what is said of its parts is `J`: there is one rule for
each way in which a form becomes a node.  `form_induction` is the induction over all successful
runs: a judgement that is closed under the rules holds of every form that is analyzed, at any depth
and through any number of macro expansions.
-/

namespace LarkPhp.Analysis

/-- What is said of a form in a scope, the state before, the node, and the state after. -/
abbrev Judgement := Form → Scope → State → Node → State → Prop

/-- Every success of `visit` is one that `J` allows. -/
def Visit.Sound (visit : Visit) (J : Judgement) : Prop :=
  ∀ {f scope s n s'}, visit f scope s = .ok n s' → J f scope s n s'

namespace Rules

/-! ### Sequences -/

/-- Forms that are analyzed in order in one scope. -/
inductive All (J : Judgement) (scope : Scope) : List Form → State → List Node → State → Prop
  | nil {s} : All J scope [] s [] s
  | cons {f fs s n s₁ ns s₂} :
    J f scope s n s₁ → All J scope fs s₁ ns s₂ → All J scope (f :: fs) s (n :: ns) s₂

/-- Statements that are analyzed in order, each after it was looked at. -/
inductive Statements (J : Judgement) (span : Option Span) (scope : Scope) :
    List Form → (position : Nat) → State → List Node → State → Prop
  | nil {position s} : Statements J span scope [] position s [] s
  | cons {f fs position s n s₁ ns s₂} :
    J f scope (s.noting f position span) n s₁ →
    Statements J span scope fs (position + 1) s₁ ns s₂ →
    Statements J span scope (f :: fs) position s (n :: ns) s₂

/-- A block: empty, a single form, or statements and a last form. -/
inductive Block (J : Judgement) (scope : Scope) (span : Option Span) :
    List Form → State → Node → State → Prop
  | empty {s} :
    Block J scope span [] s
      (.block [] (.literal .nil (s.info scope span)) (s.numbered.info scope span))
      s.numbered.numbered
  | single {f s n s₁} :
    J f scope s n s₁ →
    Block J scope span [f] s (.block [] n (s₁.info scope span)) s₁.numbered
  | sequence {fs f s ns s₁ n s₂} :
    fs ≠ [] →
    Statements J span (scope.withContext .statement) fs 1 s ns s₁ →
    J f (scope.withContext scope.context.tail) s₁ n s₂ →
    Block J scope span (fs ++ [f]) s (.block ns n (s₂.info scope span)) s₂.numbered

/-! ### Bindings -/

/-- A name that is bound: it gets the variable of its own name, or a fresh one if it is bound
already. -/
inductive Name (name : Symbol) (scope : Scope) : State → Symbol → Scope → State → Prop
  | own {s} : scope.isLocal name = false → Name name scope s name (scope.bind [name]) s
  | shadow {s} :
    scope.isLocal name = true →
    Name name scope s (.fresh (s.drawn + 1)) (scope.shadow name (.fresh (s.drawn + 1)))
      (s.drawnTo (s.drawn + 1))

/-- Values that are bound in order, each visible to the next. -/
inductive Values (J : Judgement) :
    List (Symbol × Form) → Scope → State → List (Binding Node) → Scope → State → Prop
  | nil {scope s} : Values J [] scope s [] scope s
  | cons {name f rest scope s init s₁ var inner s₂ bs last s₃} :
    J f scope.operand s init s₁ → Name name scope s₁ var inner s₂ →
    Values J rest inner s₂ bs last s₃ →
    Values J ((name, f) :: rest) scope s (⟨name, var, init⟩ :: bs) last s₃

/-- A body in which patterns are bound to values. -/
inductive Let (J : Judgement) (pairs : List (Form × Form)) (body : List Form) (scope : Scope)
    (span : Option Span) : State → Node → State → Prop
  | intro {s b bs inner s₁ node s₂} :
    Pattern.bindAll pairs ⟨s.drawn, []⟩ = .ok () b →
    Values J b.pairs scope (s.drawnTo b.drawn) bs inner s₁ →
    Block J (inner.withContext scope.context.tail) span body s₁ node s₂ →
    Let J pairs body scope span s (.bindings bs node (s₂.info scope span)) s₂.numbered

/-- A body that takes patterns apart first, if there are any. -/
inductive Body (J : Judgement) (patterns : List (Form × Form)) (body : List Form) (scope : Scope)
    (span : Option Span) : State → Node → State → Prop
  | plain {s n s'} :
    patterns = [] → Block J scope span body s n s' → Body J patterns body scope span s n s'
  | patterns {s n s'} :
    patterns ≠ [] → Let J patterns body scope span s n s' → Body J patterns body scope span s n s'

/-- A binder: a name stands for itself, and a fresh symbol for a pattern, which is bound to it
later. -/
inductive Binder : Form → State → Symbol → List (Form × Form) → State → Prop
  | name {n span s} : n.isPlain "&" = false → Binder (.symbol n span) s n [] s
  | pattern {f s} :
    Pattern.isPlain f = false →
    Binder f s (.fresh (s.drawn + 1)) [(f, .symbol (.fresh (s.drawn + 1)) none)]
      (s.drawnTo (s.drawn + 1))

/-- Binders in order, with the patterns among them. -/
inductive Binders : List Form → State → List Symbol → List (Form × Form) → State → Prop
  | nil {s} : Binders [] s [] [] s
  | cons {f fs s n ps s₁ ns qs s₂} :
    Binder f s n ps s₁ → Binders fs s₁ ns qs s₂ → Binders (f :: fs) s (n :: ns) (ps ++ qs) s₂

/-- A parameter list, in which a rest marker may stand before the last parameter. -/
inductive Params : List Form → State → Parameters → State → Prop
  | fixed {fs s ns ps s₁} :
    (∀ f ∈ fs, f.isRestMarker = false) → Binders fs s ns ps s₁ → Params fs s ⟨ns, false, ps⟩ s₁
  | variadic {fs marker rest s ns ps s₁} :
    (∀ f ∈ fs, f.isRestMarker = false) → marker.isRestMarker = true →
    Binders (fs ++ [rest]) s ns ps s₁ → Params (fs ++ [marker, rest]) s ⟨ns, true, ps⟩ s₁

/-! ### Special forms -/

/-- The object or class whose member is meant. -/
inductive Target (J : Judgement) (scope : Scope) :
    Form → (static : Bool) → State → Node → State → Prop
  | className {name span s} :
    Target J scope (.symbol name span) true s (.className name (s.info scope span)) s.numbered
  | form {f static s n s'} : J f scope s n s' → Target J scope f static s n s'

/-- The member of an object or class that is meant: a call of a method, or a property. -/
inductive Part (J : Judgement) (scope : Scope) : Form → (method : Bool) → State → Node → State → Prop
  | method {d name nameSpan args span s nodes s₁} :
    All J scope args s nodes s₁ →
    Part J scope (.tuple d (.symbol name nameSpan :: args) span) true s
      (.methodCall name nodes (s₁.info scope span)) s₁.numbered
  | property {name span s} :
    Part J scope (.symbol name span) false s (.property name (s.info scope span)) s.numbered

/-- A special form, by its arguments. -/
inductive Special (J : Judgement) (scope : Scope) (span : Option Span) :
    SpecialForm → List Form → State → Node → State → Prop
  | quote {value s} :
    Special J scope span .quote [value] s (.literal value (s.info scope span)) s.numbered
  | block {forms s n s'} :
    Block J scope span forms s n s' → Special J scope span .block forms s n s'
  | branch {test yes s c s₁ t s₂} :
    J test scope.operand s c s₁ → J yes scope s₁ t s₂ →
    Special J scope span .branch [test, yes] s
      (.branch c t (.literal .nil (s₂.info scope span)) (s₂.numbered.info scope span))
      s₂.numbered.numbered
  | branchElse {test yes no s c s₁ t s₂ e s₃} :
    J test scope.operand s c s₁ → J yes scope s₁ t s₂ → J no scope s₂ e s₃ →
    Special J scope span .branch [test, yes, no] s (.branch c t e (s₃.info scope span)) s₃.numbered
  | bindings {d forms dspan pairs body s n s'} :
    pairUp forms = some pairs → Let J pairs body scope span s n s' →
    Special J scope span .bindings (.tuple d forms dspan :: body) s n s'
  | function {d forms dspan body s ps s₁ node s₂} :
    Params forms s ps s₁ →
    Body J ps.patterns body (((scope.unshadow ps.names).bind ps.names).withContext .result) span
      s₁ node s₂ →
    Special J scope span .function (.tuple d forms dspan :: body) s
      (.function ps.names ps.variadic (scope.captured ps.names) node (s₂.info scope span))
      s₂.numbered
  | definition {name nameSpan value s init s₁} :
    name.qualifier = none →
    J value scope.operand (s.announcing scope.homeName name.name span) init s₁ →
    Special J scope span .definition [.symbol name nameSpan, value] s
      (.definition scope.homeName name init (s₁.info scope span)) s₁.numbered
  | loop {d v collection dspan body s value patterns s₁ coll s₂ valueVar inner s₃ node s₄} :
    Binder v s value patterns s₁ →
    J collection scope.operand s₁ coll s₂ → Name value scope s₂ valueVar inner s₃ →
    Body J patterns body (inner.withContext .statement) span s₃ node s₄ →
    Special J scope span .loop (.tuple d [v, collection] dspan :: body) s
      (.loop valueVar none coll node (s₄.info scope span)) s₄.numbered
  | loopKey {d k v collection dspan body s key keyPatterns s₁ value valuePatterns s₂ coll s₃
      valueVar inner s₄ keyVar inner' s₅ node s₆} :
    Binder k s key keyPatterns s₁ → Binder v s₁ value valuePatterns s₂ →
    J collection scope.operand s₂ coll s₃ → Name value scope s₃ valueVar inner s₄ →
    Name key inner s₄ keyVar inner' s₅ →
    Body J (keyPatterns ++ valuePatterns) body (inner'.withContext .statement) span s₅ node s₆ →
    Special J scope span .loop (.tuple d [k, v, collection] dspan :: body) s
      (.loop valueVar (some keyVar) coll node (s₆.info scope span)) s₆.numbered
  | throw {exception s x s₁} :
    J exception scope.operand s x s₁ →
    Special J scope span .throw [exception] s (.throw x (s₁.info scope span)) s₁.numbered
  | new {cls args s c s₁ nodes s₂} :
    J cls scope.operand s c s₁ → All J scope.operand args s₁ nodes s₂ →
    Special J scope span .new (cls :: args) s (.new c nodes (s₂.info scope span)) s₂.numbered
  | member {object part method s t s₁ call s₂} :
    Target J scope.operand object false s t s₁ → Part J scope.operand part method s₁ call s₂ →
    Special J scope span .member [object, part] s (.member t call false method (s₂.info scope span))
      s₂.numbered
  | staticMember {cls part method s t s₁ call s₂} :
    Target J scope.operand cls true s t s₁ → Part J scope.operand part method s₁ call s₂ →
    Special J scope span .staticMember [cls, part] s
      (.member t call true method (s₂.info scope span)) s₂.numbered
  | arrayGet {array index s a s₁ i s₂} :
    J array scope.operand s a s₁ → J index scope.operand s₁ i s₂ →
    Special J scope span .arrayGet [array, index] s (.arrayGet a i (s₂.info scope span)) s₂.numbered
  | arraySet {array index value s a s₁ i s₂ v s₃} :
    J array scope.operand s a s₁ → J index scope.operand s₁ i s₂ → J value scope.operand s₂ v s₃ →
    Special J scope span .arraySet [array, index, value] s (.arraySet a i v (s₃.info scope span))
      s₃.numbered

/-! ### Forms -/

/-- A symbol. -/
inductive Reference (scope : Scope) (span : Option Span) (symbol : Symbol) (s : State) :
    Node → Prop
  | host : symbol.ofHost = true → Reference scope span symbol s (.hostVar symbol (s.info scope span))
  | className :
    symbol.ofHost = false → symbol.isClassName = true →
    Reference scope span symbol s (.className symbol (s.info scope span))
  | localVar :
    symbol.ofHost = false → symbol.isClassName = false → scope.isLocal symbol = true →
    Reference scope span symbol s (.localVar (scope.variableOf symbol) (s.info scope span))
  | globalVar {home name} :
    symbol.ofHost = false → symbol.isClassName = false → scope.isLocal symbol = false →
    s.globals.resolve symbol scope.homeName = .global home name →
    Reference scope span symbol s (.globalVar home name (s.info scope span))

/-- One form, when what is said of its parts, and of what a macro makes of it, is `J`. -/
inductive Step (J : Judgement) (scope : Scope) : Form → State → Node → State → Prop
  | scalar {f s} :
    f.isScalar = true → Step J scope f s (.literal f (s.info scope none)) s.numbered
  | reference {symbol span s n} :
    Reference scope span symbol s n → Step J scope (.symbol symbol span) s n s.numbered
  | unit {span s} :
    Step J scope (.tuple .paren [] span) s (.literal (.tuple .paren [] span) (s.info scope span))
      s.numbered
  | special {head headSpan form args span s n s'} :
    SpecialForm.ofSymbol? head = some form → Special J scope span form args s n s' →
    Step J scope (.tuple .paren (.symbol head headSpan :: args) span) s n s'
  | expansion {head headSpan args span s name expander f s₁ n s'} :
    SpecialForm.ofSymbol? head = none → scope.isLocal head = false →
    s.globals.resolve head scope.homeName = .expander name expander →
    expand name expander ⟨.symbol head headSpan :: args, span⟩ s = .ok f s₁ →
    J f scope s₁ n s' →
    Step J scope (.tuple .paren (.symbol head headSpan :: args) span) s n s'
  | call {head args span s f s₁ nodes s₂} :
    head.symbol?.bind SpecialForm.ofSymbol? = none → macroOf? s.globals head scope = none →
    callable head = true → (operatorOf? head = none ∨ args ≠ []) →
    J head scope.operand s f s₁ → All J scope.operand args s₁ nodes s₂ →
    Step J scope (.tuple .paren (head :: args) span) s (.call f nodes (s₂.info scope span))
      s₂.numbered
  | tuple {xs span s items s₁} :
    All J scope.operand xs s items s₁ →
    Step J scope (.tuple .bracket xs span) s (.tuple items (s₁.info scope span)) s₁.numbered
  | table {es span s items s₁} :
    All J scope.operand (flatten es) s items s₁ →
    Step J scope (.table es span) s (.table items (s₁.info scope span)) s₁.numbered
  | set {xs span s items s₁} :
    All J scope.operand xs s items s₁ →
    Step J scope (.set xs span) s (.set items (s₁.info scope span)) s₁.numbered
  | array {xs span s items s₁} :
    All J scope.operand xs s items s₁ →
    Step J scope (.array xs span) s (.array items (s₁.info scope span)) s₁.numbered

/-! ### Every success follows the rules -/

section Soundness
variable {J : Judgement} {visit : Visit} (hv : visit.Sound J) {scope : Scope} {span : Option Span}
include hv

theorem all_sound {fs : List Form} {s s' : State} {ns : List Node}
    (h : all visit fs scope s = .ok ns s') : All J scope fs s ns s' := by
  induction fs generalizing s ns with
  | nil =>
    cases h
    exact .nil
  | cons f fs ih =>
    obtain ⟨n, s₁, hn, h⟩ := bind_eq_ok.1 h
    obtain ⟨ns, s₂, hns, h⟩ := bind_eq_ok.1 h
    cases h
    exact .cons (hv hn) (ih hns)

theorem statements_sound {fs : List Form} {position : Nat} {s s' : State} {ns : List Node}
    (h : statements visit span fs position scope s = .ok ns s') :
    Statements J span scope fs position s ns s' := by
  induction fs generalizing position s ns with
  | nil =>
    cases h
    exact .nil
  | cons f fs ih =>
    simp only [statements] at h
    rw [bind_run_ok (warnIfScalar_run s f position span)] at h
    obtain ⟨n, s₁, hn, h⟩ := bind_eq_ok.1 h
    obtain ⟨ns, s₂, hns, h⟩ := bind_eq_ok.1 h
    cases h
    exact .cons (hv hn) (ih hns)

theorem block_sound {fs : List Form} {s s' : State} {n : Node}
    (h : block visit fs scope span s = .ok n s') : Block J scope span fs s n s' := by
  unfold block at h
  cases hl : fs.getLast? with
  | none =>
    rw [hl] at h
    cases List.getLast?_eq_none_iff.1 hl
    cases h
    exact .empty
  | some f =>
    rw [hl] at h
    obtain ⟨ns, s₁, hns, h⟩ := bind_eq_ok.1 h
    obtain ⟨last, s₂, hlast, h⟩ := bind_eq_ok.1 h
    cases h
    obtain ⟨front, rfl⟩ := List.getLast?_eq_some_iff.1 hl
    rw [List.dropLast_concat] at hns
    have hstmts := statements_sound hv hns
    -- only behind statements does the last form change its context
    cases hstmts with
    | nil => exact .single (hv hlast)
    | cons h₁ h₂ => exact .sequence (List.cons_ne_nil _ _) (.cons h₁ h₂) (hv hlast)

omit hv in
theorem bindName_sound {name var : Symbol} {s s' : State} {inner : Scope}
    (h : bindName name scope s = .ok (var, inner) s') : Name name scope s var inner s' := by
  unfold bindName at h
  cases hl : scope.isLocal name with
  | true =>
    rw [hl, if_pos rfl, bind_run_ok (fresh_run s)] at h
    cases h
    exact .shadow hl
  | false =>
    rw [hl, if_neg Bool.false_ne_true] at h
    cases h
    exact .own hl

theorem bindValues_sound {pairs : List (Symbol × Form)} {s s' : State} {bs : List (Binding Node)}
    {scope last : Scope} (h : bindValues visit pairs scope s = .ok (bs, last) s') :
    Values J pairs scope s bs last s' := by
  induction pairs generalizing scope s bs with
  | nil =>
    cases h
    exact .nil
  | cons p pairs ih =>
    obtain ⟨name, f⟩ := p
    obtain ⟨init, s₁, hinit, h⟩ := bind_eq_ok.1 h
    obtain ⟨⟨var, inner⟩, s₂, hname, h⟩ := bind_eq_ok.1 h
    obtain ⟨⟨bs, last⟩, s₃, hrest, h⟩ := bind_eq_ok.1 h
    cases h
    exact .cons (hv hinit) (bindName_sound hname) (ih hrest)

omit hv in
theorem destructure_sound {pairs : List (Form × Form)} {plain : List (Symbol × Form)} {s s' : State}
    (h : destructure pairs s = .ok plain s') :
    ∃ b, Pattern.bindAll pairs ⟨s.drawn, []⟩ = .ok () b ∧ plain = b.pairs ∧ s' = s.drawnTo b.drawn := by
  unfold destructure at h
  cases hb : Pattern.bindAll pairs ⟨s.drawn, []⟩ with
  | ok u b =>
    rw [hb] at h
    cases h
    exact ⟨b, rfl, rfl, rfl⟩
  | error e b =>
    rw [hb] at h
    cases h

theorem bindings_sound {pairs : List (Form × Form)} {body : List Form} {s s' : State} {n : Node}
    (h : bindings visit pairs body scope span s = .ok n s') : Let J pairs body scope span s n s' := by
  obtain ⟨plain, s₁, hplain, h⟩ := bind_eq_ok.1 h
  obtain ⟨⟨bs, inner⟩, s₂, hbs, h⟩ := bind_eq_ok.1 h
  obtain ⟨node, s₃, hnode, h⟩ := bind_eq_ok.1 h
  cases h
  obtain ⟨b, hb, rfl, rfl⟩ := destructure_sound hplain
  exact .intro hb (bindValues_sound hv hbs) (block_sound hv hnode)

theorem patternBody_sound {patterns : List (Form × Form)} {body : List Form} {s s' : State} {n : Node}
    (h : patternBody visit patterns body scope span s = .ok n s') :
    Body J patterns body scope span s n s' := by
  unfold patternBody at h
  split at h
  · next hp => exact .plain (List.isEmpty_iff.1 hp) (block_sound hv h)
  · next hp => exact .patterns (fun he => hp (List.isEmpty_iff.2 he)) (bindings_sound hv h)

omit hv in
theorem binder_sound {f : Form} {s s' : State} {n : Symbol} {ps : List (Form × Form)}
    (h : binder f s = .ok (n, ps) s') : Binder f s n ps s' := by
  unfold binder at h
  split at h
  · next n span =>
    split at h
    · next hp =>
      cases h
      exact .pattern (by rw [Pattern.isPlain, hp]; rfl)
    · next hp =>
      cases h
      exact .name (Bool.eq_false_iff.2 hp)
  · next hsymbol =>
    cases h
    refine .pattern ?_
    unfold Pattern.isPlain
    split
    · exact absurd rfl (hsymbol _ _)
    · rfl

omit hv in
theorem binders_sound {fs : List Form} {s s' : State} {ns : List Symbol} {ps : List (Form × Form)}
    (h : binders fs s = .ok (ns, ps) s') : Binders fs s ns ps s' := by
  induction fs generalizing s ns ps with
  | nil =>
    cases h
    exact .nil
  | cons f fs ih =>
    obtain ⟨⟨n, ps⟩, s₁, hf, h⟩ := bind_eq_ok.1 h
    obtain ⟨⟨ns, qs⟩, s₂, hfs, h⟩ := bind_eq_ok.1 h
    cases h
    exact .cons (binder_sound hf) (ih hfs)

omit hv in
theorem Binders.concat {fs : List Form} {f : Form} {s s₁ s₂ : State} {ns : List Symbol} {n : Symbol}
    {ps qs : List (Form × Form)} (h : Binders fs s ns ps s₁) (hf : Binder f s₁ n qs s₂) :
    Binders (fs ++ [f]) s (ns ++ [n]) (ps ++ qs) s₂ := by
  induction h with
  | nil => simpa using Binders.cons hf .nil
  | cons hg _ ih =>
    rw [List.append_assoc]
    exact .cons hg (ih hf)

omit hv in
theorem parameters_sound {forms : List Form} {s s' : State} {ps : Parameters}
    (hps : parameters forms span s = .ok ps s') : Params forms s ps s' := by
  obtain ⟨⟨ns, patterns⟩, s₁, hfixed, h⟩ := bind_eq_ok.1 hps
  have hbinders := binders_sound hfixed
  clear hps hfixed
  have hsplit : forms.takeWhile (!·.isRestMarker) ++ forms.dropWhile (!·.isRestMarker) = forms :=
    List.takeWhile_append_dropWhile
  have hfront : ∀ f ∈ forms.takeWhile (!·.isRestMarker), f.isRestMarker = false := by
    intro f hf
    simpa using List.all_eq_true.1 List.all_takeWhile f hf
  have hmarker : ∀ m rest, forms.dropWhile (!·.isRestMarker) = m :: rest → m.isRestMarker = true := by
    intro m rest hm
    have hhead := List.head?_dropWhile_not (fun f => !f.isRestMarker) forms
    rw [hm] at hhead
    simpa using hhead
  generalize forms.takeWhile (!·.isRestMarker) = front at *
  generalize forms.dropWhile (!·.isRestMarker) = back at *
  subst hsplit
  rcases back with _ | ⟨m, _ | ⟨r, _ | ⟨x, back⟩⟩⟩
  · cases h
    rw [List.append_nil]
    exact .fixed hfront hbinders
  · cases h
  · obtain ⟨⟨name, more⟩, s₂, hrest, h⟩ := bind_eq_ok.1 h
    cases h
    exact .variadic hfront (hmarker _ _ rfl) (hbinders.concat (binder_sound hrest))
  · cases h

theorem target_sound {f : Form} {static : Bool} {s s' : State} {n : Node}
    (h : target visit f static scope s = .ok n s') : Target J scope f static s n s' := by
  unfold target at h
  split at h
  · cases h
    exact .className
  · exact .form (hv h)

theorem member_sound {static : Bool} {object part : Form} {s s' : State} {n : Node}
    (h : member visit static object part scope span s = .ok n s') :
    ∃ t s₁ call method s₂, Target J scope.operand object static s t s₁ ∧
      Part J scope.operand part method s₁ call s₂ ∧
      n = .member t call static method (s₂.info scope span) ∧ s' = s₂.numbered := by
  unfold member at h
  obtain ⟨t, s₁, ht, h⟩ := bind_eq_ok.1 h
  refine ⟨t, s₁, ?_⟩
  split at h
  · obtain ⟨nodes, s₂, hnodes, h⟩ := bind_eq_ok.1 h
    cases h
    exact ⟨_, true, _, target_sound hv ht, .method (all_sound hv hnodes), rfl, rfl⟩
  · cases h
  · cases h
    exact ⟨_, false, _, target_sound hv ht, .property, rfl, rfl⟩
  · cases h

theorem letForm_sound {head : Form} {body : List Form} {s s' : State} {n : Node}
    (h : letForm visit head body scope span s = .ok n s') :
    Special J scope span .bindings (head :: body) s n s' := by
  unfold letForm at h
  split at h
  · next d forms dspan =>
    cases hp : pairUp forms with
    | none =>
      rw [hp] at h
      cases h
    | some pairs =>
      rw [hp] at h
      exact .bindings hp (bindings_sound hv h)
  · cases h

theorem function_sound {head : Form} {body : List Form} {s s' : State} {n : Node}
    (h : function visit head body scope span s = .ok n s') :
    Special J scope span .function (head :: body) s n s' := by
  unfold function at h
  split at h
  · obtain ⟨ps, s₁, hps, h⟩ := bind_eq_ok.1 h
    obtain ⟨node, s₂, hnode, h⟩ := bind_eq_ok.1 h
    cases h
    exact .function (parameters_sound hps) (patternBody_sound hv hnode)
  · cases h

omit hv in
theorem withdrawing_ok {α : Type} {mark : Nat} {act : Analyze α} {s s' : State} {a : α}
    (h : withdrawing mark act s = .ok a s') : act s = .ok a s' := by
  unfold withdrawing at h
  split at h
  · cases h
  · exact h

theorem definition_sound {name value : Form} {s s' : State} {n : Node}
    (h : definition visit name value scope span s = .ok n s') :
    Special J scope span .definition [name, value] s n s' := by
  unfold definition at h
  split at h
  · split at h
    · next hq =>
      obtain ⟨init, s₁, hinit, h⟩ := bind_eq_ok.1 h
      cases h
      have hinit := withdrawing_ok hinit
      rw [bind_run_ok (announce_run _ _ _ _)] at hinit
      exact .definition (Option.isNone_iff_eq_none.1 hq) (hv hinit)
    · cases h
  · cases h

theorem loop_sound {head : Form} {body : List Form} {s s' : State} {n : Node}
    (h : loop visit head body scope span s = .ok n s') :
    Special J scope span .loop (head :: body) s n s' := by
  unfold loop at h
  split at h
  · obtain ⟨⟨value, patterns⟩, s₁, hb, h⟩ := bind_eq_ok.1 h
    obtain ⟨coll, s₂, hcoll, h⟩ := bind_eq_ok.1 h
    obtain ⟨⟨valueVar, inner⟩, s₃, hname, h⟩ := bind_eq_ok.1 h
    obtain ⟨node, s₄, hnode, h⟩ := bind_eq_ok.1 h
    cases h
    exact .loop (binder_sound hb) (hv hcoll) (bindName_sound hname) (patternBody_sound hv hnode)
  · obtain ⟨⟨key, keyPatterns⟩, s₁, hk, h⟩ := bind_eq_ok.1 h
    obtain ⟨⟨value, valuePatterns⟩, s₂, hb, h⟩ := bind_eq_ok.1 h
    obtain ⟨coll, s₃, hcoll, h⟩ := bind_eq_ok.1 h
    obtain ⟨⟨valueVar, inner⟩, s₄, hname, h⟩ := bind_eq_ok.1 h
    obtain ⟨⟨keyVar, inner'⟩, s₅, hkey, h⟩ := bind_eq_ok.1 h
    obtain ⟨node, s₆, hnode, h⟩ := bind_eq_ok.1 h
    cases h
    exact .loopKey (binder_sound hk) (binder_sound hb) (hv hcoll) (bindName_sound hname)
      (bindName_sound hkey) (patternBody_sound hv hnode)
  · cases h
  · cases h

theorem branch_sound {test yes : Form} {no : Option Form} {s s' : State} {n : Node}
    (h : branch visit test yes no scope span s = .ok n s') :
    Special J scope span .branch (test :: yes :: no.toList) s n s' := by
  obtain ⟨c, s₁, hc, h⟩ := bind_eq_ok.1 h
  obtain ⟨t, s₂, ht, h⟩ := bind_eq_ok.1 h
  obtain ⟨e, s₃, he, h⟩ := bind_eq_ok.1 h
  cases h
  cases no with
  | none =>
    cases he
    exact .branch (hv hc) (hv ht)
  | some no => exact .branchElse (hv hc) (hv ht) (hv he)

theorem special_sound {form : SpecialForm} {args : List Form} {s s' : State} {n : Node}
    (h : special visit form args scope span s = .ok n s') : Special J scope span form args s n s' := by
  unfold special at h
  split at h
  · cases h
    exact .quote
  · exact .block (block_sound hv h)
  · exact branch_sound hv h
  · exact branch_sound hv h
  · exact letForm_sound hv h
  · exact function_sound hv h
  · exact definition_sound hv h
  · exact loop_sound hv h
  · obtain ⟨x, s₁, hx, h⟩ := bind_eq_ok.1 h
    cases h
    exact .throw (hv hx)
  · obtain ⟨c, s₁, hc, h⟩ := bind_eq_ok.1 h
    obtain ⟨nodes, s₂, hnodes, h⟩ := bind_eq_ok.1 h
    cases h
    exact .new (hv hc) (all_sound hv hnodes)
  · obtain ⟨t, s₁, call, method, s₂, ht, hcall, rfl, rfl⟩ := member_sound hv h
    exact .member ht hcall
  · obtain ⟨t, s₁, call, method, s₂, ht, hcall, rfl, rfl⟩ := member_sound hv h
    exact .staticMember ht hcall
  · obtain ⟨a, s₁, ha, h⟩ := bind_eq_ok.1 h
    obtain ⟨i, s₂, hi, h⟩ := bind_eq_ok.1 h
    cases h
    exact .arrayGet (hv ha) (hv hi)
  · obtain ⟨a, s₁, ha, h⟩ := bind_eq_ok.1 h
    obtain ⟨i, s₂, hi, h⟩ := bind_eq_ok.1 h
    obtain ⟨v, s₃, hx, h⟩ := bind_eq_ok.1 h
    cases h
    exact .arraySet (hv ha) (hv hi) (hv hx)
  · cases h

omit hv in
theorem reference_sound {symbol : Symbol} {s s' : State} {n : Node}
    (h : reference symbol span scope s = .ok n s') :
    Reference scope span symbol s n ∧ s' = s.numbered := by
  unfold reference at h
  split at h
  · next hh =>
    cases h
    exact ⟨.host hh, rfl⟩
  next hh =>
  split at h
  · next hc =>
    cases h
    exact ⟨.className (Bool.eq_false_iff.2 hh) hc, rfl⟩
  next hc =>
  split at h
  · next hl =>
    cases h
    exact ⟨.localVar (Bool.eq_false_iff.2 hh) (Bool.eq_false_iff.2 hc) hl, rfl⟩
  next hl =>
  obtain ⟨s₁, s₂, hs, h⟩ := bind_eq_ok.1 h
  cases hs
  cases hr : s.globals.resolve symbol scope.homeName with
  | global home name =>
    rw [hr] at h
    cases h
    exact ⟨.globalVar (Bool.eq_false_iff.2 hh) (Bool.eq_false_iff.2 hc) (Bool.eq_false_iff.2 hl) hr,
      rfl⟩
  | expander name expander =>
    rw [hr] at h
    cases h
  | unresolved =>
    rw [hr] at h
    cases h

omit hv in
theorem located_ok {α : Type} {act : Analyze α} {s s' : State} {a : α}
    (h : located span act s = .ok a s') : act s = .ok a s' := by
  unfold located at h
  split at h
  · cases h
  · exact h

omit hv in
theorem macroOf?_eq_some {g : Globals} {head : Form} {name : Symbol} {expander : Expander}
    (h : macroOf? g head scope = some (name, expander)) :
    ∃ s hs, head = .symbol s hs ∧ scope.isLocal s = false ∧
      g.resolve s scope.homeName = .expander name expander := by
  unfold macroOf? at h
  split at h
  · next s hs =>
    split at h
    · cases h
    · next hl =>
      split at h
      · next hr =>
        cases h
        exact ⟨s, hs, rfl, Bool.eq_false_iff.2 hl, hr⟩
      · cases h
  · cases h

theorem application_sound {head : Form} {args : List Form} {s s' : State} {n : Node}
    (h : application visit head args scope span s = .ok n s') :
    ∃ f s₁ nodes s₂, callable head = true ∧ (operatorOf? head = none ∨ args ≠ []) ∧
      J head scope.operand s f s₁ ∧ All J scope.operand args s₁ nodes s₂ ∧
      n = .call f nodes (s₂.info scope span) ∧ s' = s₂.numbered := by
  unfold application at h
  split at h
  · cases h
  next hc =>
  have hcall : callable head = true := by simpa using hc
  have hop : operatorOf? head = none ∨ args ≠ [] := by
    cases ho : operatorOf? head with
    | none => exact .inl rfl
    | some op =>
      refine .inr fun hargs => ?_
      rw [ho, hargs] at h
      cases h
  have h : (do
      let f ← visit head scope.operand
      let nodes ← all visit args scope.operand
      push (.call f nodes) scope span) s = .ok n s' := by
    rcases hop with ho | hargs
    · rwa [ho] at h
    · obtain ⟨a, as, rfl⟩ := List.exists_cons_of_ne_nil hargs
      cases ho : operatorOf? head <;> rwa [ho] at h
  obtain ⟨f, s₁, hf, h⟩ := bind_eq_ok.1 h
  obtain ⟨nodes, s₂, hnodes, h⟩ := bind_eq_ok.1 h
  cases h
  exact ⟨f, s₁, nodes, s₂, hcall, hop, hv hf, all_sound hv hnodes, rfl, rfl⟩

end Soundness

section Forms
variable {J : Judgement} {reenter visit : Visit} {scope : Scope}

theorem parens_sound (hre : reenter.Sound J) (hv : visit.Sound J) {xs : List Form}
    {span : Option Span} {s s' : State} {n : Node}
    (h : parens reenter visit ⟨xs, span⟩ scope s = .ok n s') :
    Step J scope (.tuple .paren xs span) s n s' := by
  unfold parens at h
  cases xs with
  | nil =>
    cases h
    exact .unit
  | cons head args =>
    dsimp only at h
    cases hform : head.symbol?.bind SpecialForm.ofSymbol? with
    | some form =>
      rw [hform] at h
      obtain ⟨sym, hsym, hform⟩ := Option.bind_eq_some_iff.1 hform
      obtain ⟨hs, rfl⟩ : ∃ hs, head = .symbol sym hs := by
        cases head <;> cases hsym
        exact ⟨_, rfl⟩
      exact .special hform (special_sound hv (located_ok h))
    | none =>
      rw [hform] at h
      obtain ⟨s₁, s₂, hs, h⟩ := bind_eq_ok.1 h
      cases hs
      cases hm : macroOf? s.globals head scope with
      | some m =>
        obtain ⟨name, expander⟩ := m
        rw [hm] at h
        obtain ⟨sym, hs, rfl, hl, hr⟩ := macroOf?_eq_some hm
        obtain ⟨f, s₂, hf, hn⟩ := bind_eq_ok.1 h
        exact .expansion hform hl hr hf (hre hn)
      | none =>
        rw [hm] at h
        obtain ⟨f, s₁, nodes, s₂, hc, hop, hf, hnodes, rfl, rfl⟩ := application_sound hv h
        exact .call hform hm hc hop hf hnodes

theorem step_sound (hre : reenter.Sound J) (hv : visit.Sound J) {f : Form} {s s' : State} {n : Node}
    (h : step reenter visit f scope s = .ok n s') : Step J scope f s n s' := by
  unfold step at h
  split at h
  · obtain ⟨hr, rfl⟩ := reference_sound h
    exact .reference hr
  · exact parens_sound hre hv h
  · obtain ⟨items, s₁, hitems, h⟩ := bind_eq_ok.1 h
    cases h
    exact .tuple (all_sound hv hitems)
  · obtain ⟨items, s₁, hitems, h⟩ := bind_eq_ok.1 h
    cases h
    rw [entries_eq] at hitems
    exact .table (all_sound hv hitems)
  · obtain ⟨items, s₁, hitems, h⟩ := bind_eq_ok.1 h
    cases h
    exact .set (all_sound hv hitems)
  · obtain ⟨items, s₁, hitems, h⟩ := bind_eq_ok.1 h
    cases h
    exact .array (all_sound hv hitems)
  · cases h
    refine .scalar ?_
    cases f with
    | tuple d => cases d <;> simp_all
    | _ => first | rfl | simp_all

theorem toDepth_sound (closed : ∀ {f scope s n s'}, Step J scope f s n s' → J f scope s n s')
    (hre : reenter.Sound J) (height : Nat) : (toDepth reenter height).Sound J := by
  induction height with
  | zero =>
    intro f scope s n s' h
    cases h
  | succ height ih => exact fun h => closed (step_sound hre ih h)

theorem withExpansions_sound (closed : ∀ {f scope s n s'}, Step J scope f s n s' → J f scope s n s')
    (expansions : Nat) : (withExpansions expansions).Sound J := by
  induction expansions with
  | zero =>
    have hexhausted : exhausted.Sound J := by
      intro f scope s n s' h
      cases h
    intro f scope s n s' h
    exact toDepth_sound closed hexhausted f.height h
  | succ n ih =>
    intro f scope s n s' h
    exact toDepth_sound closed ih f.height h

end Forms

end Rules

/-- **Induction over successful analysis.**  What is closed under the rules holds of every form that
is analyzed. -/
theorem form_induction {J : Judgement}
    (closed : ∀ {f scope s n s'}, Rules.Step J scope f s n s' → J f scope s n s') :
    form.Sound J :=
  Rules.withExpansions_sound closed expansionLimit

/-- A judgement that is closed under the rules holds of all forms of a unit that succeeds. -/
theorem unit_induction {J : Judgement}
    (closed : ∀ {f scope s n s'}, Rules.Step J scope f s n s' → J f scope s n s')
    {forms : List Form} {scope : Scope} {s s' : State} {nodes : List Node}
    (h : unit forms scope s = .ok nodes s') : Rules.All J scope forms s nodes s' :=
  Rules.all_sound (form_induction closed) (Rules.withdrawing_ok h)

end LarkPhp.Analysis
