import LarkPhp.Session
import LarkPhp.Proofs.Renaming
import LarkPhp.Proofs.Transaction

/-!
What a failed compilation leaves for later ones.

A unit that fails takes back its definitions, but not the symbols that it drew.  So later units draw
symbols that are numbered higher, by as many as the failed one drew, and nothing else about them
changes: drawn symbols are bound and looked up like any others, whatever their numbers are
(`correspondence_shifted`).
-/

namespace LarkPhp

/-! ### Symbols drawn later -/

namespace Symbol

/-- The symbol that is drawn in the place of `x` when `d` more symbols were drawn before. -/
def shift (d : Nat) (x : Symbol) : Symbol :=
  if x.generated && x == fresh x.generation then fresh (x.generation + d) else x

theorem shift_fresh_succ (d n : Nat) : shift d (fresh (n + 1)) = fresh (n + 1 + d) := by
  have hdrawn : ((fresh (n + 1)).generated && fresh (n + 1) == fresh (fresh (n + 1)).generation) =
      true := by
    rw [generated_fresh_succ, Bool.true_and, beq_iff_eq]
    rfl
  unfold shift
  rw [if_pos hdrawn]
  rfl

/-- A symbol is left as it is, or is drawn from the supply and drawn again. -/
theorem shift_cases (d : Nat) (x : Symbol) :
    (shift d x = x ∧ ∀ n, x ≠ fresh (n + 1)) ∨
      ∃ n, x = fresh (n + 1) ∧ shift d x = fresh (n + 1 + d) := by
  by_cases h : ∃ n, x = fresh (n + 1)
  · obtain ⟨n, rfl⟩ := h
    exact .inr ⟨n, rfl, shift_fresh_succ d n⟩
  · refine .inl ⟨?_, fun n hn => h ⟨n, hn⟩⟩
    unfold shift
    refine if_neg fun hx => h ?_
    rw [Bool.and_eq_true, beq_iff_eq] at hx
    obtain ⟨hdrawn, heq⟩ := hx
    have hpos : x.generation ≠ 0 := by simpa [generated] using hdrawn
    obtain ⟨n, hn⟩ := Nat.exists_eq_succ_of_ne_zero hpos
    exact ⟨n, by rw [heq, hn]⟩

theorem shift_injective (d : Nat) : Function.Injective (shift d) := by
  intro x y h
  rcases shift_cases d x with ⟨hx, hne⟩ | ⟨m, rfl, hx⟩
  · rcases shift_cases d y with ⟨hy, -⟩ | ⟨n, rfl, hy⟩
    · rwa [hx, hy] at h
    · refine absurd ?_ (hne (n + d))
      rw [hx, hy] at h
      rw [h, Nat.add_right_comm]
  · rcases shift_cases d y with ⟨hy, hne⟩ | ⟨n, rfl, hy⟩
    · refine absurd ?_ (hne (m + d))
      rw [hx, hy] at h
      rw [← h, Nat.add_right_comm]
    · rw [hx, hy] at h
      have hsame := fresh_injective h
      rw [show m = n by omega]

end Symbol

/-- Everything is compared, after `d` more symbols were drawn in the right run. -/
def View.shifted (d : Nat) : View where
  rename := Symbol.shift d
  injective := Symbol.shift_injective d
  drawn x := by
    rcases Symbol.shift_cases d x with ⟨hx, -⟩ | ⟨n, rfl, hx⟩
    · exact .inl hx
    · exact .inr ⟨n, n + d, rfl, by rw [hx, Nat.add_right_comm]⟩
  places := true
  contexts := true
  numbers := true

namespace Analysis

/-! ### Runs that differ in the symbols drawn before -/

/-- States that differ in the number of symbols drawn, and in the namespaces that nothing is
defined in. -/
structure Shifted (d : Nat) (s t : State) : Prop where
  drawn : t.drawn = s.drawn + d
  nodes : s.nodes = t.nodes
  warnings : s.warnings = t.warnings
  added : s.added = t.added
  defined : s.globals.defined = t.globals.defined
  core : s.globals.core = t.globals.core
  expanders : s.globals.expanders = [] ∧ t.globals.expanders = []

namespace Shifted

variable {d : Nat} {s t s' t' : State}

theorem sameAnswers (h : Shifted d s t) : s.globals.SameAnswers t.globals :=
  Globals.sameAnswers_of_eq h.defined (h.expanders.1.trans h.expanders.2.symm) h.core

theorem define (h : Shifted d s t) (home name : String) :
    Shifted d (s.defining home name) (t.defining home name) := by
  have hdefined := h.sameAnswers.isDefined home name
  refine ⟨h.drawn, h.nodes, h.warnings, ?_, ?_, h.core, h.expanders⟩
  · unfold State.defining
    rw [hdefined, h.added]
  · unfold State.defining Globals.define
    rw [h.defined]

theorem withdraw (h : Shifted d s t) (h' : Shifted d s' t') :
    Shifted d (s'.withdraw s.added.length) (t'.withdraw t.added.length) := by
  refine ⟨h'.drawn, h'.nodes, h'.warnings, ?_, ?_, ?_, ?_⟩
  · unfold State.withdraw
    rw [h.added, h'.added]
  · unfold State.withdraw
    rw [Globals.defined_undefineAll, Globals.defined_undefineAll, h.added, h'.added, h'.defined]
  · unfold State.withdraw
    rw [Globals.core_undefineAll, Globals.core_undefineAll, h'.core]
  · unfold State.withdraw
    rw [Globals.expanders_undefineAll, Globals.expanders_undefineAll]
    exact h'.expanders

end Shifted

/-- The forms that are met in the analysis of written ones: those themselves, and what patterns make
of them, in which drawn symbols are bound. -/
inductive Met (scope : Scope) : Form → Prop
  | written {f} : (∀ x ∈ f.symbols, x.generated = false) → Met scope f
  | holder {x} : x.generated = true → scope.isLocal x = true → Met scope (.symbol x none)
  | access {x key} :
    x.generated = true → scope.isLocal x = true → Met scope key → Met scope (Pattern.access x key)

namespace Met

variable {scope inner : Scope} {f g : Form}

theorem part (h : Met scope f) (hg : g ∈ f.parts) : Met scope g := by
  cases h with
  | written h => exact .written fun x hx => h x (Form.mem_symbols_of_part hg hx)
  | holder => cases hg
  | access hx hlocal hkey =>
    simp only [Pattern.access, Form.parens, Form.parts, List.mem_cons, List.not_mem_nil,
      or_false] at hg
    rcases hg with rfl | rfl | rfl
    · refine .written fun x hx => ?_
      cases List.mem_singleton.1 hx
      rfl
    · exact .holder hx hlocal
    · exact hkey

theorem wider (h : Met scope f) (hin : scope.Within inner) : Met inner f := by
  induction h with
  | written h => exact .written h
  | holder hx hlocal => exact .holder hx (hin.isLocal hlocal)
  | access hx hlocal _ ih => exact .access hx (hin.isLocal hlocal) ih

theorem generated {x : Symbol} {p : Option Span} (h : Met scope (.symbol x p))
    (hx : scope.isLocal x = false) : x.generated = false := by
  cases h with
  | written h => exact h x (List.mem_singleton.2 rfl)
  | holder _ hlocal =>
    rw [hx] at hlocal
    cases hlocal

/-- What a definition defines was written: what patterns make of forms defines nothing. -/
theorem generated_definedName {head x : Symbol} {value : Form} {p q r : Option Span}
    (h : Met scope (.tuple .paren [.symbol head p, .symbol x q, value] r))
    (hhead : SpecialForm.ofSymbol? head = some .definition) : x.generated = false := by
  cases h with
  | written h => exact h x (by simp [Form.symbols, Form.symbolsAll])
  | access =>
    have hget : SpecialForm.ofSymbol? (.qualified "php" "aget") = some .arrayGet := by
      decide +kernel
    rw [hget] at hhead
    cases hhead

end Met

/-- **Analysis does not depend on the numbers of drawn symbols.** -/
theorem correspondence_shifted (d : Nat) : Correspondence (.shifted d) (Shifted d) Met where
  resolve h _ _ _ := h.sameAnswers.resolve _ _
  isDefined name h _ := h.sameAnswers.isDefined _ name
  level {s t} h k := by
    rw [h.drawn]
    show Symbol.shift d _ = _
    rw [Symbol.shift_fresh_succ]
    congr 1
    omega
  nodes h _ := h.nodes
  draw {s t} n h := by
    refine ⟨?_, h.nodes, h.warnings, h.added, h.defined, h.core, h.expanders⟩
    show t.drawn + n = s.drawn + n + d
    rw [h.drawn, Nat.add_right_comm]
  number h := by
    refine ⟨h.drawn, ?_, h.warnings, h.added, h.defined, h.core, h.expanders⟩
    exact congrArg (· + 1) h.nodes
  warn code message h hp := by
    refine ⟨h.drawn, h.nodes, ?_, h.added, h.defined, h.core, h.expanders⟩
    unfold State.warned
    rw [h.warnings, hp rfl]
  define name h _ := h.define _ name
  withdraw h h' := h.withdraw h'
  expand {s t scope call call'} := by
    intro x name expander h _ _ hresolve
    exact absurd hresolve (resolve_ne_expander h.expanders.1 _ _ _ _)
  part h hg := h.part hg
  visible h hx := View.rename_of_written _ (h.generated hx)
  definedName hhead h _ := View.rename_of_written _ (h.generated_definedName hhead)
  wider h hin := h.wider hin
  holder _ hx hlocal := .holder hx hlocal
  index i _ := .written fun x hx => nomatch hx
  access h hx hlocal := .access hx hlocal h

/-! ### Units after a failure -/

/-- The value of a success, or why the run stopped. -/
def verdict {α : Type} : EStateM.Result Stop State α → Except Stop α
  | .ok a _ => .ok a
  | .error e _ => .error e

/-- Symbols are drawn and never put back. -/
theorem invariant_drawn (n : Nat) : Invariant fun s => n ≤ s.drawn where
  draw h hn := Nat.le_trans h hn
  number h := h
  warn _ h := h
  define _ _ h := h
  withdraw _ h := h

/-- A unit that fails leaves the globals as they were, but for namespaces, and draws symbols. -/
theorem shifted_of_failed {g : Globals} {drawn : Nat} {forms : List Form} {scope : Scope} {e : Stop}
    {s : State} (hmacros : g.expanders = []) (h : unit forms scope (.start g drawn) = .error e s) :
    ∃ d, s.drawn = drawn + d ∧ Shifted d (.start g drawn) (.start s.globals s.drawn) := by
  unfold unit withdrawing at h
  cases hall : all form forms scope (.start g drawn) with
  | ok ns s₁ =>
    rw [hall] at h
    cases h
  | error e₁ s₁ =>
    rw [hall] at h
    cases h
    have hextends := (invariant_extends (.start g drawn)).forms forms scope (Extends.refl _)
    have hle := (invariant_drawn drawn).forms (s := .start g drawn) forms scope (Nat.le_refl _)
    rw [hall] at hextends hle
    obtain ⟨hdefined, hexpanders, hcore, -⟩ := Extends.restored_eq hextends
    obtain ⟨d, hd⟩ := Nat.exists_eq_add_of_le hle
    refine ⟨d, hd, hd, rfl, rfl, rfl, hdefined.symm, hcore.symm, hmacros, ?_⟩
    exact hexpanders.trans hmacros

/-- A written unit is analyzed alike when more symbols were drawn before. -/
theorem unit_shifted {d : Nat} {s t : State} (h : Shifted d s t) (hadded : s.added = [])
    {forms : List Form} (hforms : ∀ f ∈ forms, ∀ x ∈ f.symbols, x.generated = false)
    {scope : Scope} (hlocals : scope.locals = []) (hshadows : scope.shadows = []) :
    Outcomes (.shifted d) (Shifted d) (List.Forall₂ (View.shifted d).Nodes) (unit forms scope s)
      (unit forms scope t) := by
  have hscope : (View.shifted d).Scopes scope scope := by
    refine ⟨?_, ?_, fun _ => rfl, rfl⟩
    · rw [hlocals, List.map_nil]
    · rw [hshadows, List.map_nil]
  have hself : List.Forall₂ (View.shifted d).Forms forms forms := by
    refine List.forall₂_same.2 fun f hf => View.forms_self fun x hx => ?_
    exact View.rename_of_written _ (hforms f hf x hx)
  exact (correspondence_shifted d).unit hscope (fun f hf => .written (hforms f hf)) hself h hadded
    (h.added ▸ hadded)

end Analysis

namespace Session

/-- A failed compilation leaves what the analysis left. -/
theorem compile_eq_error {options : Options} {forms : List Form} {w : Workspace} {e : Analysis.Stop}
    (h : (compile options forms w).1 = .error e) :
    ∃ s, Analysis.unit forms (rootScope options) (.start w.globals w.drawn) = .error e s ∧
      (compile options forms w).2 = ⟨s.globals, s.drawn⟩ := by
  unfold compile compileIn at h ⊢
  cases hunit : Analysis.unit forms (rootScope options) (.start w.globals w.drawn) with
  | ok roots s =>
    rw [hunit] at h
    cases h
  | error e' s =>
    rw [hunit] at h
    cases h
    exact ⟨s, rfl, rfl⟩

/-- **A failed compilation is invisible to later ones, but for the numbers of drawn symbols.**
There are no macros, and later forms hold no drawn symbols.  After a failure, in which `d` symbols
were drawn, forms are refused with the same error as without it, or accepted with the same warnings
and the same nodes, in which the drawn symbols are numbered higher by `d`; and what is defined
afterwards is the same. -/
theorem compile_after_failure (options : Options) (failed forms : List Form) (w : Workspace)
    (e : Analysis.Stop) (hmacros : w.globals.expanders = [])
    (hforms : ∀ f ∈ forms, ∀ x ∈ f.symbols, x.generated = false)
    (hfailed : (compile options failed w).1 = .error e) :
    let w' := (compile options failed w).2
    ∃ d, w'.drawn = w.drawn + d ∧
      (compile options forms w').1.map Output.warnings =
        (compile options forms w).1.map Output.warnings ∧
      Analysis.verdict (Analysis.unit forms (rootScope options) (.start w'.globals w'.drawn)) =
        (Analysis.verdict (Analysis.unit forms (rootScope options) (.start w.globals w.drawn))).map
          (List.map (Node.rename (Symbol.shift d))) ∧
      (compile options forms w').2.globals.defined = (compile options forms w).2.globals.defined ∧
      (compile options forms w).2.globals.SameAnswers (compile options forms w').2.globals ∧
      (compile options forms w').2.drawn = (compile options forms w).2.drawn + d := by
  intro w'
  obtain ⟨s, hunit, hw'⟩ : ∃ s, _ ∧ w' = _ := compile_eq_error hfailed
  obtain ⟨d, hdrawn, hshifted⟩ := Analysis.shifted_of_failed hmacros hunit
  have hlocals : (rootScope options).locals = [] := rfl
  have hxy := Analysis.unit_shifted hshifted rfl hforms hlocals rfl
  refine ⟨d, by rw [hw', hdrawn], ?_⟩
  rw [hw']
  unfold compile compileIn
  dsimp only
  generalize Analysis.unit forms (rootScope options) (.start w.globals w.drawn) = r,
    Analysis.unit forms (rootScope options) (.start s.globals s.drawn) = q at hxy
  cases hxy with
  | ok hns h =>
    refine ⟨?_, ?_, h.defined.symm, h.sameAnswers, h.drawn⟩
    · rw [Except.map, Except.map, h.warnings]
    · rw [Analysis.verdict, Analysis.verdict, View.eq_map_rename hns rfl rfl rfl]
      rfl
  | failed he h =>
    rw [he.eq rfl]
    exact ⟨rfl, rfl, h.defined.symm, h.sameAnswers, h.drawn⟩
  | exhausted h => exact ⟨rfl, rfl, h.defined.symm, h.sameAnswers, h.drawn⟩

/-- `(do (def b 1) (let [[a] b] c))`: it defines `b`, draws a symbol for the pattern, and stops at
`c`. -/
def stoppingForm : Form :=
  .parens [.name "do", .parens [.name "def", .name "b", .int 1],
    .parens [.name "let", .brackets [.brackets [.name "a"], .name "b"], .name "c"]]

theorem compile_after_failure_stopping :
    (Workspace.new default).globals.expanders = [] ∧
      (∀ f ∈ [Analysis.rebindingForm], ∀ x ∈ f.symbols, x.generated = false) ∧
      ∃ e, (compile .standard [stoppingForm] (.new default)).1 = .error e ∧
        (compile .standard [stoppingForm] (.new default)).2.drawn = 1 ∧
        Analysis.verdict (Analysis.unit [Analysis.rebindingForm] (rootScope .standard)
            (.start (compile .standard [stoppingForm] (.new default)).2.globals 1)) =
          (Analysis.verdict (Analysis.unit [Analysis.rebindingForm] (rootScope .standard)
            (.start default 0))).map (List.map (Node.rename (Symbol.shift 1))) := by
  have hforms : ∀ f ∈ [Analysis.rebindingForm], ∀ x ∈ f.symbols, x.generated = false := by decide
  refine ⟨rfl, hforms, ?_⟩
  have hstops : (match (compile .standard [stoppingForm] (.new default)).1 with
      | .ok _ => false
      | .error _ => true) = true := by
    decide +kernel
  have hone : (compile .standard [stoppingForm] (.new default)).2.drawn = 1 := by decide +kernel
  cases hrun : (compile .standard [stoppingForm] (.new default)).1 with
  | ok output =>
    rw [hrun] at hstops
    cases hstops
  | error e =>
    obtain ⟨d, hd, -, hverdict, -⟩ :=
      compile_after_failure .standard [stoppingForm] _ (.new default) e rfl hforms hrun
    have hd : d = 1 := by
      rw [hone] at hd
      simpa [Workspace.new] using hd.symm
    rw [hone, hd] at hverdict
    exact ⟨e, rfl, hone, hverdict⟩

end Session

end LarkPhp
