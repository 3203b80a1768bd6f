import LarkPhp.Proofs.Acceptance
import LarkPhp.Proofs.Places
import LarkPhp.Proofs.Reference

/-!
Constants compile the same directly and quoted.

A quoted form becomes one literal, whose code is the expression that builds the form.  A form without
symbols and calls becomes a tree of nodes, one for each part, and the code of each of them is put
together from the codes of those below.  The two ways end in the same code (`form_constant`): analysis
of a constant succeeds whatever is defined and registered, and where its value is used, the code of its
node is the expression for the constant in its context (`Writes`), which is shown from the parts to the
whole.
-/

namespace LarkPhp

/-- Forms that stand for themselves: scalars, the empty paren tuple, and collections of such forms. -/
inductive Form.Constant : Form → Prop
  | scalar {f} : f.isScalar = true → Constant f
  | unit {p} : Constant (.tuple .paren [] p)
  | tuple {xs p} : (∀ x ∈ xs, Constant x) → Constant (.tuple .bracket xs p)
  | table {es p} :
    (∀ e ∈ es, Constant e.1) → (∀ e ∈ es, Constant e.2) → Constant (.table es p)
  | set {xs p} : (∀ x ∈ xs, Constant x) → Constant (.set xs p)
  | array {xs p} : (∀ x ∈ xs, Constant x) → Constant (.array xs p)

/-- What is inside a constant is constant. -/
theorem Form.Constant.part {v x : Form} (hv : v.Constant) (hx : x ∈ v.parts) : x.Constant := by
  cases hv with
  | scalar h =>
    cases v with
    | nil | bool | int | float | str | keyword => cases hx
    | _ => cases h
  | unit => cases hx
  | tuple h | set h | array h => exact h x hx
  | table hk hv =>
    obtain ⟨e, he, hx⟩ := List.mem_flatMap.1 hx
    simp only [List.mem_cons, List.not_mem_nil, or_false] at hx
    rcases hx with rfl | rfl
    · exact hk e he
    · exact hv e he

/-- The form `(quote v)`. -/
def Form.quotation (v : Form) (headSpan span : Option Span) : Form :=
  .tuple .paren [.symbol SpecialForm.quote.symbol headSpan, v] span

namespace Analysis

/-! ### Nodes of constants -/

/-- The node stands where the form stands, and where its value is used, its code is the expression for
the form. -/
structure Writes (v : Form) (scope : Scope) (span : Option Span) (n : Node) : Prop where
  location : n.location = span.map Span.start
  code : scope.context ≠ .statement → ∀ config depth,
    Php.code config n depth = Php.framed config scope.context depth (Php.value config v)

/-- In every scope and state, the form is analyzed to such a node, and only the number of nodes
changes. -/
def Direct (visit : Visit) (v : Form) : Prop :=
  ∀ scope s, ∃ n k, visit v scope s = .ok n { s with nodes := s.nodes + k } ∧
    Writes v scope v.span n

/-- A literal writes the form that it holds. -/
theorem writes_literal (v : Form) (scope : Scope) (span : Option Span) (s : State) :
    Writes v scope span (.literal v (s.info scope span)) where
  location := rfl
  code hused config depth := by
    have hinfo : (s.info scope span).scope.context = scope.context := rfl
    rw [Php.code, hinfo]
    cases hcontext : scope.context with
    | statement => exact absurd hcontext hused
    | expression => rfl
    | result => rfl

/-- Operands that are constants are written as the expressions for them. -/
theorem all_direct {visit : Visit} {xs : List Form} (h : ∀ x ∈ xs, Direct visit x) (scope : Scope)
    (s : State) :
    ∃ ns k, all visit xs scope.operand s = .ok ns { s with nodes := s.nodes + k } ∧
      ∀ config depth, Php.codes config ns depth = xs.map (Php.value config) := by
  induction xs generalizing s with
  | nil => exact ⟨[], 0, rfl, fun _ _ => rfl⟩
  | cons x xs ih =>
    obtain ⟨hx, hxs⟩ := List.forall_mem_cons.1 h
    obtain ⟨n, k, hn, hwrites⟩ := hx scope.operand s
    obtain ⟨ns, l, hns, hcodes⟩ := ih hxs { s with nodes := s.nodes + k }
    refine ⟨n :: ns, k + l, ?_, fun config depth => ?_⟩
    · rw [all, bind_run_ok hn, bind_run_ok hns, Nat.add_assoc]
      rfl
    · have hcode := hwrites.code (by simp [Scope.operand]) config depth
      rw [Php.codes, hcodes, hcode, List.map_cons]
      rfl

/-- A collection of constants writes what it is, if its node is written by the same constructor as the
form. -/
theorem direct_collection {visit : Visit} {xs : List Form} (h : ∀ x ∈ xs, Direct visit x) (v : Form)
    (make : List Node → Node.Info → Node) (cls constructor : String)
    (hinfo : ∀ ns i, (make ns i).info = i)
    (hcode : ∀ config ns i depth, Php.code config (make ns i) depth =
      Php.framed config i.scope.context depth
        (Php.construct config cls constructor (Php.codes config ns depth)))
    (hvalue : ∀ config, Php.value config v =
      Php.construct config cls constructor (xs.map (Php.value config)))
    (scope : Scope) (s : State) :
    ∃ n k, (do
        let items ← all visit xs scope.operand
        push (make items) scope v.span : Analyze Node) s = .ok n { s with nodes := s.nodes + k } ∧
      Writes v scope v.span n := by
  obtain ⟨ns, k, hns, hcodes⟩ := all_direct h scope s
  refine ⟨make ns ⟨s.nodes + k, scope, v.span.map Span.start⟩, k + 1, ?_, ?_, fun _ config depth => ?_⟩
  · rw [bind_run_ok hns]
    rfl
  · unfold Node.location
    rw [hinfo]
  · rw [hcode, hcodes, hvalue]

theorem direct_step (reenter : Visit) {visit : Visit} {v : Form} (hv : v.Constant)
    (h : ∀ x ∈ v.parts, Direct visit x) : Direct (step reenter visit) v := by
  cases hv with
  | scalar hscalar =>
    intro scope s
    cases v with
    | nil | bool | int | float | str | keyword => exact ⟨_, 1, rfl, writes_literal _ _ _ s⟩
    | _ => cases hscalar
  | @unit p =>
    exact fun scope s => ⟨_, 1, rfl, writes_literal _ _ p s⟩
  | @tuple xs p =>
    refine direct_collection h (.tuple .bracket xs p) .tuple "Tuple" "createBracket" (fun _ _ => rfl)
      (fun _ _ _ _ => rfl) fun config => ?_
    rw [Php.value, Php.values_eq]
    rfl
  | @table es p =>
    have htable := direct_collection h (.table es p) .table "Table" "fromKVs" (fun _ _ => rfl)
      (fun _ _ _ _ => rfl) fun config => by
        rw [Php.value, Php.entryValues_eq]
        rfl
    intro scope s
    obtain ⟨n, k, hrun, hwrites⟩ := htable scope s
    refine ⟨n, k, ?_, hwrites⟩
    rw [← hrun, step, entries_eq]
    rfl
  | @set xs p =>
    refine direct_collection h (.set xs p) .set "Set" "create" (fun _ _ => rfl)
      (fun _ _ _ _ => rfl) fun config => ?_
    rw [Php.value, Php.values_eq]
    rfl
  | @array xs p =>
    refine direct_collection h (.array xs p) .array "PArray" "create" (fun _ _ => rfl)
      (fun _ _ _ _ => rfl) fun config => ?_
    rw [Php.value, Php.values_eq]
    rfl

theorem direct_toDepth (reenter : Visit) {v : Form} (hv : v.Constant) {height : Nat}
    (hle : v.height ≤ height) : Direct (toDepth reenter height) v := by
  induction height generalizing v with
  | zero =>
    have := v.height_pos
    omega
  | succ height ih =>
    refine direct_step reenter hv fun x hx => ih (hv.part hx) ?_
    have := Form.height_lt_of_mem_parts hx
    omega

theorem direct_form {v : Form} (hv : v.Constant) : Direct form v := by
  intro scope s
  obtain ⟨reenter, hform⟩ := withExpansions_eq expansionLimit v
  unfold form
  rw [hform]
  exact direct_toDepth reenter hv (Nat.le_refl _) scope s

/-- A quotation is read as such in any scope, and becomes a literal of what is quoted. -/
theorem form_quotation (v : Form) (headSpan span : Option Span) (scope : Scope) (s : State) :
    form (v.quotation headSpan span) scope s = .ok (.literal v (s.info scope span)) s.numbered := by
  obtain ⟨reenter, hform⟩ := withExpansions_eq expansionLimit (v.quotation headSpan span)
  unfold form
  rw [hform]
  rfl

/-! ### The two ways -/

/-- **A constant compiles the same directly and quoted.**  Both are analyzed without a fault, whatever
is defined, registered or visible, and leave everything as it was but for the number of nodes.  As an
expression both are written as the expression for the constant, as a result both are written as one
return of it; in a program only what is wanted before each form can differ, its place. -/
theorem form_constant {v : Form} (hv : v.Constant) (headSpan span : Option Span) (scope : Scope)
    (s : State) :
    ∃ n m s₁ s₂,
      (form v scope s = .ok n s₁ ∧ s₁ = { s with nodes := s₁.nodes }) ∧
      (form (v.quotation headSpan span) scope s = .ok m s₂ ∧ s₂ = { s with nodes := s₂.nodes }) ∧
      (scope.context = .expression → ∀ config depth,
        Php.code config n depth = Php.value config v ∧
        Php.code config m depth = Php.value config v) ∧
      (scope.context = .result → ∀ config depth,
        Php.code config n depth =
          Php.margin config depth ++ "return " ++ Php.value config v ++ ";\n" ∧
        Php.code config m depth =
          Php.margin config depth ++ "return " ++ Php.value config v ++ ";\n") ∧
      ∀ config,
        Php.program config [n] =
          Php.heading config (v.span.map Span.start) ++ Php.code config n 0 ∧
        Php.program config [m] = Php.heading config (span.map Span.start) ++ Php.code config m 0 := by
  obtain ⟨n, k, hrun, hn⟩ := direct_form hv scope s
  have hm := writes_literal v scope span s
  refine ⟨n, .literal v (s.info scope span), _, _, ⟨hrun, rfl⟩,
    ⟨form_quotation v headSpan span scope s, rfl⟩, fun hcontext config depth => ?_,
    fun hcontext config depth => ?_, fun config => ?_⟩
  · have hused : scope.context ≠ .statement := by simp [hcontext]
    rw [hn.code hused, hm.code hused, hcontext]
    exact ⟨rfl, rfl⟩
  · have hused : scope.context ≠ .statement := by simp [hcontext]
    rw [hn.code hused, hm.code hused, hcontext]
    exact ⟨rfl, rfl⟩
  · rw [Php.program_placed, Php.program_placed, hn.location, hm.location]
    exact ⟨rfl, rfl⟩

/-- The form `[:a {1 (set "x" ())} @[nil -2]]`. -/
def constantForm : Form :=
  .brackets [.keyword "a", .table [(.int 1, .set [.str "x", .parens []] none)] none,
    .array [.nil, .int (-2)] none]

theorem constant_constantForm : constantForm.Constant := by
  refine .tuple (List.forall_mem_cons.2 ⟨.scalar rfl, List.forall_mem_cons.2 ⟨?_,
    List.forall_mem_singleton.2 ?_⟩⟩)
  · refine .table (List.forall_mem_singleton.2 (.scalar rfl)) (List.forall_mem_singleton.2 ?_)
    exact .set (List.forall_mem_cons.2 ⟨.scalar rfl, List.forall_mem_singleton.2 .unit⟩)
  · exact .array (List.forall_mem_cons.2 ⟨.scalar rfl, List.forall_mem_singleton.2 (.scalar rfl)⟩)

theorem form_constant_nested :
    constantForm.Constant ∧
      ∃ n m s₁ s₂,
        form constantForm (Scope.empty.withContext .result) (.start default 0) = .ok n s₁ ∧
        form (constantForm.quotation none none) (Scope.empty.withContext .result)
          (.start default 0) = .ok m s₂ ∧
        Php.code .standard n 0 = Php.code .standard m 0 ∧
        Php.code .standard m 0 =
          "return \\Lark\\Lang\\Tuple::createBracket(\\Lark\\Lang\\Keyword::create(\"a\"), " ++
          "\\Lark\\Lang\\Table::fromKVs(1, \\Lark\\Lang\\Set::create(\"x\", " ++
          "\\Lark\\Lang\\Tuple::create())), \\Lark\\Lang\\PArray::create(null, -2));\n" := by
  obtain ⟨n, m, s₁, s₂, hn, hm, -, hresult, -⟩ := form_constant constant_constantForm none none
    (Scope.empty.withContext .result) (.start default 0)
  obtain ⟨hcode, hcode'⟩ := hresult rfl .standard 0
  refine ⟨constant_constantForm, n, m, s₁, s₂, hn.1, hm.1, hcode.trans hcode'.symm, ?_⟩
  rw [hcode']
  decide +kernel

end Analysis

end LarkPhp
