import LarkPhp.Analysis.Unit
import LarkPhp.Proofs.View
import Mathlib.Data.List.TakeWhile
import Mathlib.Data.Set.Insert

/-!
The language that analysis accepts, as a grammar.

A form is derived from the names that are visible at its place and from what is defined before it,
and the derivation says what is defined after it.  Nothing else plays a part: no contexts, no shadow
variables, no drawn symbols, and patterns are not taken apart but bound as they stand.  The rules
are open over the judgement on the parts of a form, and `Derives` closes them.

The grammar shares its words with the analysis.  Which heads name special forms, what can be called,
which heads are operators and how forms are paired up is said in full by `ofSymbol?_eq_some_iff`,
`callable_eq_false_iff`, `operatorOf?_eq_some_iff` and `Analysis.pairUp_eq_some_iff`.
-/

namespace LarkPhp.Language

/-- Defined names with their namespaces. -/
abbrev Definitions := Set (String × String)

/-- What is said of a form: the names visible at its place, what is defined before it, and what is
defined after it. -/
abbrev Judgement := Form → Set Symbol → Definitions → Definitions → Prop

/-- The symbol refers to a definition of its own namespace or, if it names none, of the namespace
around it or of the core namespace. -/
def Refers (home core : String) (D : Definitions) (x : Symbol) : Prop :=
  x.generated = false ∧
    match x.qualifier with
    | some own => (own, x.name) ∈ D
    | none => (home, x.name) ∈ D ∨ (core, x.name) ∈ D

/-- The symbol stands for something: a function or a class of the host, a local, or a definition. -/
def Visible (home core : String) (L : Set Symbol) (D : Definitions) (x : Symbol) : Prop :=
  x.ofHost = true ∨ x.isClassName = true ∨ x ∈ L ∨ Refers home core D x

/-! ### Sequences and patterns -/

/-- Forms that are derived one after the other. -/
inductive Sequence (J : Judgement) : List Form → Set Symbol → Definitions → Definitions → Prop
  | nil {L D} : Sequence J [] L D D
  | cons {f fs L D D₁ D₂} :
    J f L D D₁ → Sequence J fs L D₁ D₂ → Sequence J (f :: fs) L D D₂

/-- A body behind patterns, which are bound one after the other.  A form may go before a pattern: the
value that it is bound to, or the key that the value is found at.  The names of a pattern are visible
to all that follows. -/
inductive Scoped (J : Judgement) :
    List (Option Form × Form) → List Form → Set Symbol → Definitions → Definitions → Prop
  | body {body L D D'} : Sequence J body L D D' → Scoped J [] body L D D'
  | name {before x p rest body L D D₁ D'} :
    x.isPlain "&" = false → Sequence J before.toList L D D₁ →
    Scoped J rest body (insert x L) D₁ D' →
    Scoped J ((before, .symbol x p) :: rest) body L D D'
  | tuple {before d ps p rest body L D D₁ D'} :
    Sequence J before.toList L D D₁ → Scoped J (ps.map (none, ·) ++ rest) body L D₁ D' →
    Scoped J ((before, .tuple d ps p) :: rest) body L D D'
  | table {before es p rest body L D D₁ D'} :
    Sequence J before.toList L D D₁ →
    Scoped J (es.map (fun e => (some e.1, e.2)) ++ rest) body L D₁ D' →
    Scoped J ((before, .table es p) :: rest) body L D D'

/-- The names among binders. -/
def names (binders : List Form) : Set Symbol :=
  {x | ∃ p, Form.symbol x p ∈ binders ∧ x.isPlain "&" = false}

/-- The binders that are not names, with nothing before them. -/
def patterns (binders : List Form) : List (Option Form × Form) :=
  (binders.filter (!Pattern.isPlain ·)).map (none, ·)

/-- The parameters of a parameter list, in which a rest marker may stand before the last one. -/
inductive Parameters : List Form → List Form → Prop
  | fixed {ps} : (∀ p ∈ ps, p.isRestMarker = false) → Parameters ps ps
  | variadic {ps marker rest} :
    (∀ p ∈ ps, p.isRestMarker = false) → marker.isRestMarker = true →
    Parameters (ps ++ [marker, rest]) (ps ++ [rest])

/-! ### Special forms -/

/-- Whether the special form may have that many arguments. -/
def takes : SpecialForm → Nat → Bool
  | .block, _ => true
  | .quote, n | .throw, n => n == 1
  | .branch, n => n == 2 || n == 3
  | .bindings, n | .function, n | .loop, n | .new, n => n != 0
  | .definition, n | .member, n | .staticMember, n | .arrayGet, n => n == 2
  | .arraySet, n => n == 3

/-- Whether the special form has nothing but operands. -/
def isOperation : SpecialForm → Bool
  | .block | .branch | .throw | .new | .arrayGet | .arraySet => true
  | _ => false

/-- The member of an object or class: a call of a method, or a property. -/
inductive Part (J : Judgement) : Form → Set Symbol → Definitions → Definitions → Prop
  | method {d x q args p L D D'} :
    Sequence J args L D D' → Part J (.tuple d (.symbol x q :: args) p) L D D'
  | property {x p L D} : Part J (.symbol x p) L D D

/-- A special form, by its arguments.  The names among the binders of a function or a loop are
visible to all patterns among them.  A symbol that names the class of a static member need not stand
for anything. -/
inductive Special (J : Judgement) (home : String) :
    SpecialForm → List Form → Set Symbol → Definitions → Definitions → Prop
  | quote {value L D} : Special J home .quote [value] L D D
  | operands {form args L D D'} :
    isOperation form = true → takes form args.length = true → Sequence J args L D D' →
    Special J home form args L D D'
  | definition {x p value L D D'} :
    x.qualifier = none → J value L (insert (home, x.name) D) D' →
    Special J home .definition [.symbol x p, value] L D D'
  | bindings {d forms p pairs body L D D'} :
    Analysis.pairUp forms = some pairs →
    Scoped J (pairs.map fun e => (some e.2, e.1)) body L D D' →
    Special J home .bindings (.tuple d forms p :: body) L D D'
  | function {d forms p binders body L D D'} :
    Parameters forms binders → Scoped J (patterns binders) body (L ∪ names binders) D D' →
    Special J home .function (.tuple d forms p :: body) L D D'
  | loop {d binders collection p body L D D₁ D'} :
    binders.length = 1 ∨ binders.length = 2 → J collection L D D₁ →
    Scoped J (patterns binders) body (L ∪ names binders) D₁ D' →
    Special J home .loop (.tuple d (binders ++ [collection]) p :: body) L D D'
  | member {object part L D D₁ D'} :
    J object L D D₁ → Part J part L D₁ D' → Special J home .member [object, part] L D D'
  | className {x p part L D D'} :
    Part J part L D D' → Special J home .staticMember [.symbol x p, part] L D D'
  | staticMember {cls part L D D₁ D'} :
    cls.symbol? = none → J cls L D D₁ → Part J part L D₁ D' →
    Special J home .staticMember [cls, part] L D D'

/-! ### Forms -/

/-- Whether the form is a collection of forms. -/
def isCollection : Form → Bool
  | .tuple .bracket .. | .table .. | .set .. | .array .. => true
  | _ => false

/-- A form, when what is said of its parts is `J`. -/
inductive Step (J : Judgement) (home core : String) :
    Form → Set Symbol → Definitions → Definitions → Prop
  | scalar {f L D} : f.isScalar = true → Step J home core f L D D
  | symbol {x p L D} : Visible home core L D x → Step J home core (.symbol x p) L D D
  | unit {p L D} : Step J home core (.tuple .paren [] p) L D D
  | collection {f L D D'} :
    isCollection f = true → Sequence J f.parts L D D' → Step J home core f L D D'
  | special {head q form args p L D D'} :
    SpecialForm.ofSymbol? head = some form → Special J home form args L D D' →
    Step J home core (.tuple .paren (.symbol head q :: args) p) L D D'
  | call {head args p L D D'} :
    head.symbol?.bind SpecialForm.ofSymbol? = none → Analysis.callable head = true →
    (Analysis.operatorOf? head = none ∨ args ≠ []) → Sequence J (head :: args) L D D' →
    Step J home core (.tuple .paren (head :: args) p) L D D'

/-- A form of the language, inside the namespace `home`. -/
inductive Derives (home core : String) : Judgement
  | step {f L D D'} : Step (Derives home core) home core f L D D' → Derives home core f L D D'

/-! ### Heads -/

/-- The symbols that name special forms. -/
def heads : List (Symbol × SpecialForm) :=
  [(.plain "quote", .quote), (.plain "do", .block), (.plain "if", .branch),
    (.plain "let", .bindings), (.plain "fn", .function), (.plain "def", .definition),
    (.plain "foreach", .loop), (.plain "throw", .throw), (.qualified "php" "new", .new),
    (.qualified "php" "->", .member), (.qualified "php" "::", .staticMember),
    (.qualified "php" "aget", .arrayGet), (.qualified "php" "aset", .arraySet)]

/-- A head names the special form that it is listed with. -/
theorem ofSymbol?_eq_some_iff {x : Symbol} {form : SpecialForm} :
    SpecialForm.ofSymbol? x = some form ↔ (x, form) ∈ heads := by
  constructor
  · intro h
    have hx : form.symbol = x := by
      unfold SpecialForm.ofSymbol? at h
      have hfound := List.find?_some h
      exact beq_iff_eq.1 hfound
    have hlisted : (form.symbol, form) ∈ heads := by
      cases form <;> decide +kernel
    rwa [hx] at hlisted
  · intro h
    have hall : ∀ e ∈ heads, SpecialForm.ofSymbol? e.1 = some e.2 := by decide +kernel
    exact hall _ h

/-- What can be called is a name, a keyword or a collection. -/
theorem callable_eq_false_iff {f : Form} :
    Analysis.callable f = false ↔
      f = .nil ∨ (∃ b, f = .bool b) ∨ (∃ n, f = .int n) ∨ (∃ x, f = .float x) ∨ ∃ t, f = .str t := by
  cases f <;> simp [Analysis.callable]

/-- An operator is named by a symbol of the host. -/
theorem operatorOf?_eq_some_iff {f : Form} {operator : String} :
    Analysis.operatorOf? f = some operator ↔
      ∃ x p, f = .symbol x p ∧ x.qualifier = some "php" ∧ x.name = operator ∧
        operator ∈ ["+", "-", "*", "/", "%", ".", "==", "===", "!=", "!==", "<", ">", "<=", ">=",
          "&&", "||", "**", "&", "|", "^", "<<", ">>", "instanceof"] := by
  cases f with
  | symbol x p =>
    have hoperator : (isHostOperator x.name = true) ↔ x.name ∈ hostOperators := List.contains_iff_mem
    constructor
    · intro h
      obtain ⟨hx, heq⟩ := Option.ite_none_right_eq_some.1 h
      cases heq
      obtain ⟨hhost, hname⟩ := Bool.and_eq_true_iff.1 hx
      exact ⟨x, p, rfl, beq_iff_eq.1 hhost, rfl, hoperator.1 hname⟩
    · rintro ⟨_, _, ⟨⟩, hhost, rfl, hname⟩
      have hx : (x.ofHost && isHostOperator x.name) = true :=
        Bool.and_eq_true_iff.2 ⟨beq_iff_eq.2 hhost, hoperator.2 hname⟩
      exact if_pos hx
  | _ => simp [Analysis.operatorOf?]

/-! ### Inversion -/

theorem mem_names {binders : List Form} {x : Symbol} :
    x ∈ names binders ↔ ∃ p, Form.symbol x p ∈ binders ∧ x.isPlain "&" = false := Iff.rfl

section Inversion
variable {J : Judgement} {L : Set Symbol} {D D' : Definitions} {body : List Form}
  {before : Option Form} {rest : List (Option Form × Form)} {p : Option Span}

@[simp] theorem sequence_nil : Sequence J [] L D D' ↔ D' = D := by
  constructor
  · rintro ⟨⟩
    rfl
  · rintro rfl
    exact .nil

@[simp] theorem sequence_cons {f : Form} {fs : List Form} :
    Sequence J (f :: fs) L D D' ↔ ∃ D₁, J f L D D₁ ∧ Sequence J fs L D₁ D' := by
  constructor
  · rintro (_ | ⟨hf, hfs⟩)
    exact ⟨_, hf, hfs⟩
  · rintro ⟨D₁, hf, hfs⟩
    exact .cons hf hfs

theorem sequence_append {fs gs : List Form} :
    Sequence J (fs ++ gs) L D D' ↔ ∃ D₁, Sequence J fs L D D₁ ∧ Sequence J gs L D₁ D' := by
  induction fs generalizing D with
  | nil => simp
  | cons f fs ih =>
    simp only [List.cons_append, sequence_cons, ih]
    constructor
    · rintro ⟨D₁, hf, D₂, hfs, hgs⟩
      exact ⟨D₂, ⟨D₁, hf, hfs⟩, hgs⟩
    · rintro ⟨D₂, ⟨D₁, hf, hfs⟩, hgs⟩
      exact ⟨D₁, hf, D₂, hfs, hgs⟩

theorem scoped_nil : Scoped J [] body L D D' ↔ Sequence J body L D D' := by
  constructor
  · rintro ⟨h⟩
    exact h
  · exact .body

theorem scoped_name {x : Symbol} :
    Scoped J ((before, .symbol x p) :: rest) body L D D' ↔
      x.isPlain "&" = false ∧
        ∃ D₁, Sequence J before.toList L D D₁ ∧ Scoped J rest body (insert x L) D₁ D' := by
  constructor
  · intro h
    cases h with
    | name hx hbefore hrest => exact ⟨hx, _, hbefore, hrest⟩
  · rintro ⟨hx, D₁, hbefore, hrest⟩
    exact .name hx hbefore hrest

theorem scoped_tuple {d : Delimiter} {ps : List Form} :
    Scoped J ((before, .tuple d ps p) :: rest) body L D D' ↔
      ∃ D₁, Sequence J before.toList L D D₁ ∧
        Scoped J (ps.map (none, ·) ++ rest) body L D₁ D' := by
  constructor
  · intro h
    cases h with
    | tuple hbefore hrest => exact ⟨_, hbefore, hrest⟩
  · rintro ⟨D₁, hbefore, hrest⟩
    exact .tuple hbefore hrest

theorem scoped_table {es : List (Form × Form)} :
    Scoped J ((before, .table es p) :: rest) body L D D' ↔
      ∃ D₁, Sequence J before.toList L D D₁ ∧
        Scoped J (es.map (fun e => (some e.1, e.2)) ++ rest) body L D₁ D' := by
  constructor
  · intro h
    cases h with
    | table hbefore hrest => exact ⟨_, hbefore, hrest⟩
  · rintro ⟨D₁, hbefore, hrest⟩
    exact .table hbefore hrest

theorem parameters_iff {forms binders : List Form} :
    Parameters forms binders ↔
      (forms.dropWhile (!·.isRestMarker) = [] ∧ binders = forms.takeWhile (!·.isRestMarker)) ∨
        ∃ marker rest, forms.dropWhile (!·.isRestMarker) = [marker, rest] ∧
          binders = forms.takeWhile (!·.isRestMarker) ++ [rest] := by
  have hsplit : forms.takeWhile (!·.isRestMarker) ++ forms.dropWhile (!·.isRestMarker) = forms :=
    List.takeWhile_append_dropWhile
  have hfront : ∀ f ∈ forms.takeWhile (!·.isRestMarker), f.isRestMarker = false := by
    intro f hf
    simpa using List.all_eq_true.1 List.all_takeWhile f hf
  constructor
  · rintro (hps | ⟨hps, hmarker⟩)
    · have hps : ∀ f ∈ forms, (!f.isRestMarker) = true := by simpa using hps
      exact .inl ⟨List.dropWhile_eq_nil_iff.2 hps, (List.takeWhile_eq_self_iff.2 hps).symm⟩
    · next ps marker rest =>
      have hps : ∀ f ∈ ps, (!f.isRestMarker) = true := by simpa using hps
      refine .inr ⟨marker, rest, ?_, ?_⟩
      · rw [List.dropWhile_append_of_pos hps, List.dropWhile_cons_of_neg (by simpa using hmarker)]
      · rw [List.takeWhile_append_of_pos hps, List.takeWhile_cons_of_neg (by simpa using hmarker),
          List.append_nil]
  · rintro (⟨hback, rfl⟩ | ⟨marker, rest, hback, rfl⟩)
    · rw [hback, List.append_nil] at hsplit
      rw [hsplit] at hfront ⊢
      exact .fixed hfront
    · have hmarker := List.head?_dropWhile_not (fun f : Form => !f.isRestMarker) forms
      rw [hback] at hmarker hsplit
      have hparameters : Parameters (forms.takeWhile (!·.isRestMarker) ++ [marker, rest])
          (forms.takeWhile (!·.isRestMarker) ++ [rest]) :=
        .variadic hfront (by simpa using hmarker)
      rwa [hsplit] at hparameters

theorem Parameters.mem {forms binders : List Form} (h : Parameters forms binders) {f : Form}
    (hf : f ∈ binders) : f ∈ forms := by
  cases h with
  | fixed => exact hf
  | variadic =>
    simp only [List.mem_append, List.mem_cons, List.not_mem_nil, or_false] at hf ⊢
    exact hf.imp_right .inr

section Special
variable {home : String} {args : List Form} {d : Delimiter}

theorem Special.takes {form : SpecialForm} (h : Special J home form args L D D') :
    takes form args.length = true := by
  cases h with
  | operands _ htakes => exact htakes
  | _ => rfl

theorem special_operands {form : SpecialForm} (hform : isOperation form = true)
    (htakes : Language.takes form args.length = true) :
    Special J home form args L D D' ↔ Sequence J args L D D' := by
  constructor
  · intro h
    cases h with
    | operands _ _ hargs => exact hargs
    | _ => cases hform
  · exact .operands hform htakes

theorem special_quote {value : Form} : Special J home .quote [value] L D D' ↔ D' = D := by
  constructor
  · intro h
    cases h with
    | quote => rfl
    | operands hform => cases hform
  · rintro rfl
    exact .quote

theorem special_definition {x : Symbol} {value : Form} :
    Special J home .definition [.symbol x p, value] L D D' ↔
      x.qualifier = none ∧ J value L (insert (home, x.name) D) D' := by
  constructor
  · intro h
    cases h with
    | definition hx hvalue => exact ⟨hx, hvalue⟩
    | operands hform => cases hform
  · rintro ⟨hx, hvalue⟩
    exact .definition hx hvalue

theorem special_bindings {forms : List Form} :
    Special J home .bindings (.tuple d forms p :: body) L D D' ↔
      ∃ pairs, Analysis.pairUp forms = some pairs ∧
        Scoped J (pairs.map fun e => (some e.2, e.1)) body L D D' := by
  constructor
  · intro h
    cases h with
    | bindings hpairs hbody => exact ⟨_, hpairs, hbody⟩
    | operands hform => cases hform
  · rintro ⟨pairs, hpairs, hbody⟩
    exact .bindings hpairs hbody

theorem special_function {forms : List Form} :
    Special J home .function (.tuple d forms p :: body) L D D' ↔
      ∃ binders, Parameters forms binders ∧
        Scoped J (patterns binders) body (L ∪ names binders) D D' := by
  constructor
  · intro h
    cases h with
    | function hbinders hbody => exact ⟨_, hbinders, hbody⟩
    | operands hform => cases hform
  · rintro ⟨binders, hbinders, hbody⟩
    exact .function hbinders hbody

theorem special_loop (binders : List Form) (collection : Form)
    (hlength : binders.length = 1 ∨ binders.length = 2) :
    Special J home .loop (.tuple d (binders ++ [collection]) p :: body) L D D' ↔
      ∃ D₁, J collection L D D₁ ∧ Scoped J (patterns binders) body (L ∪ names binders) D₁ D' := by
  constructor
  · intro h
    generalize hforms : binders ++ [collection] = forms at h
    cases h with
    | loop _ hcollection hbody =>
      obtain ⟨rfl, hlast⟩ := List.append_inj' hforms rfl
      cases hlast
      exact ⟨_, hcollection, hbody⟩
    | operands hform => cases hform
  · rintro ⟨D₁, hcollection, hbody⟩
    exact .loop hlength hcollection hbody

theorem special_member {object part : Form} :
    Special J home .member [object, part] L D D' ↔
      ∃ D₁, J object L D D₁ ∧ Part J part L D₁ D' := by
  constructor
  · intro h
    cases h with
    | member hobject hpart => exact ⟨_, hobject, hpart⟩
    | operands hform => cases hform
  · rintro ⟨D₁, hobject, hpart⟩
    exact .member hobject hpart

theorem special_className {x : Symbol} {part : Form} :
    Special J home .staticMember [.symbol x p, part] L D D' ↔ Part J part L D D' := by
  constructor
  · intro h
    cases h with
    | className hpart => exact hpart
    | staticMember hcls => cases hcls
    | operands hform => cases hform
  · exact .className

theorem special_staticMember {cls part : Form} (hcls : cls.symbol? = none) :
    Special J home .staticMember [cls, part] L D D' ↔
      ∃ D₁, J cls L D D₁ ∧ Part J part L D₁ D' := by
  constructor
  · intro h
    cases h with
    | className => cases hcls
    | staticMember _ hobject hpart => exact ⟨_, hobject, hpart⟩
    | operands hform => cases hform
  · rintro ⟨D₁, hobject, hpart⟩
    exact .staticMember hcls hobject hpart

theorem part_method {x : Symbol} {q : Option Span} :
    Part J (.tuple d (.symbol x q :: args) p) L D D' ↔ Sequence J args L D D' := by
  constructor
  · rintro ⟨h⟩
    exact h
  · exact .method

theorem part_property {x : Symbol} : Part J (.symbol x p) L D D' ↔ D' = D := by
  constructor
  · rintro ⟨⟩
    rfl
  · rintro rfl
    exact .property

end Special

section Step
variable {home core : String} {args : List Form}

theorem step_scalar {f : Form} (hf : f.isScalar = true) : Step J home core f L D D' ↔ D' = D := by
  constructor
  · intro h
    cases h with
    | scalar => rfl
    | collection hcollection =>
      cases f with
      | tuple | table | set | array => cases hf
      | _ => cases hcollection
    | _ => cases hf
  · rintro rfl
    exact .scalar hf

theorem step_symbol {x : Symbol} :
    Step J home core (.symbol x p) L D D' ↔ Visible home core L D x ∧ D' = D := by
  constructor
  · intro h
    cases h with
    | scalar hscalar => cases hscalar
    | symbol hx => exact ⟨hx, rfl⟩
    | collection hcollection => cases hcollection
  · rintro ⟨hx, rfl⟩
    exact .symbol hx

theorem step_unit : Step J home core (.tuple .paren [] p) L D D' ↔ D' = D := by
  constructor
  · intro h
    cases h with
    | scalar hscalar => cases hscalar
    | unit => rfl
    | collection hcollection => cases hcollection
  · rintro rfl
    exact .unit

theorem step_collection {f : Form} (hf : isCollection f = true) :
    Step J home core f L D D' ↔ Sequence J f.parts L D D' := by
  constructor
  · intro h
    cases h with
    | scalar hscalar =>
      cases f with
      | tuple | table | set | array => cases hscalar
      | _ => cases hf
    | collection _ hparts => exact hparts
    | _ => cases hf
  · exact .collection hf

theorem step_special {head : Symbol} {q : Option Span} {form : SpecialForm}
    (hform : SpecialForm.ofSymbol? head = some form) :
    Step J home core (.tuple .paren (.symbol head q :: args) p) L D D' ↔
      Special J home form args L D D' := by
  constructor
  · intro h
    cases h with
    | scalar hscalar => cases hscalar
    | collection hcollection => cases hcollection
    | special hform' hspecial =>
      cases hform.symm.trans hform'
      exact hspecial
    | call hnone =>
      cases hform.symm.trans hnone
  · exact .special hform

theorem step_call {head : Form} (hform : head.symbol?.bind SpecialForm.ofSymbol? = none) :
    Step J home core (.tuple .paren (head :: args) p) L D D' ↔
      Analysis.callable head = true ∧ (Analysis.operatorOf? head = none ∨ args ≠ []) ∧
        Sequence J (head :: args) L D D' := by
  constructor
  · intro h
    cases h with
    | scalar hscalar => cases hscalar
    | collection hcollection => cases hcollection
    | special hsome => cases hform.symm.trans hsome
    | call _ hcallable hoperands hargs => exact ⟨hcallable, hoperands, hargs⟩
  · rintro ⟨hcallable, hoperands, hargs⟩
    exact .call hform hcallable hoperands hargs

end Step

theorem derives_iff {home core : String} {f : Form} :
    Derives home core f L D D' ↔ Step (Derives home core) home core f L D D' := by
  constructor
  · rintro ⟨h⟩
    exact h
  · exact .step

end Inversion

end LarkPhp.Language
