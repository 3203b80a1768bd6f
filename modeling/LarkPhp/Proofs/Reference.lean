import LarkPhp.Expanders
import LarkPhp.Proofs.CodeShape
import LarkPhp.Proofs.Increment
import LarkPhp.Proofs.Transaction

/-!
Definitions can be referred to.

The place of a definition is written where its value is assigned and where its value is asked for, and
the two are found on different ways: the definition takes the symbol as it stands, the reference looks
the symbol up, which may find a macro instead, and builds the name anew.  For a symbol that can be
written, that is no name of a class and that no macro is registered for, both ways end in the same place
(`compile_defined`).  Other symbols can be defined too, but not referred to (`compile_defined_unreferable`).
-/

namespace LarkPhp

/-- A defined symbol without an expander is found in the namespace around it, as it was written. -/
theorem Globals.resolve_defined {g : Globals} {x : Symbol} {home : String}
    (hwritten : Symbol.ofWritten x.text = x) (hplain : x.qualifier = none)
    (hdefined : g.isDefined home x.name = true) (hfree : g.expanders.lookup (home, x.name) = none) :
    g.resolve x home = .global home x := by
  have htext : x.text = x.name := by
    unfold Symbol.text
    rw [hplain]
  have hgenerated : x.generated = false := by
    rw [← hwritten]
    exact Symbol.generated_ofWritten _
  have hin : g.resolveIn home x.name = .global home x := by
    unfold resolveIn
    rw [if_pos hdefined, hfree, ← htext, hwritten]
  unfold resolve
  rw [hgenerated, hplain]
  simp [hin]

namespace Analysis

/-- A symbol is analyzed without entering anything. -/
theorem form_symbol (x : Symbol) (span : Option Span) (scope : Scope) :
    form (.symbol x span) scope = reference x span scope := by
  unfold form
  cases expansionLimit with
  | zero => rfl
  | succ n => rfl

theorem reference_global {x : Symbol} (span : Option Span) (scope : Scope) (s : State)
    (hplain : x.qualifier = none) (hclass : x.isClassName = false) (hlocal : scope.isLocal x = false)
    {home : String} {name : Symbol} (h : s.globals.resolve x scope.homeName = .global home name) :
    reference x span scope s = .ok (.globalVar home name (s.info scope span)) s.numbered := by
  have hhost : x.ofHost = false := by
    unfold Symbol.ofHost
    rw [hplain]
    rfl
  have hget : (get : Analyze State) s = .ok s s := rfl
  unfold reference
  rw [hhost, hclass, hlocal, if_neg Bool.false_ne_true, if_neg Bool.false_ne_true,
    if_neg Bool.false_ne_true, bind_run_ok hget, h]
  rfl

theorem all_singleton {visit : Visit} {f : Form} {scope : Scope} {s s' : State} {n : Node}
    (h : visit f scope s = .ok n s') : all visit [f] scope s = .ok [n] s' :=
  bind_eq_ok.2 ⟨n, s', h, rfl⟩

/-- The node of a definition has the symbol as it stands. -/
theorem form_definition_ok {headSpan nameSpan span : Option Span} {x : Symbol} {value : Form}
    {scope : Scope} {s s' : State} {n : Node}
    (h : form (.tuple .paren [.symbol SpecialForm.definition.symbol headSpan, .symbol x nameSpan,
      value] span) scope s = .ok n s') :
    x.qualifier = none ∧
      ∃ (init : Node) (s₁ : State), n = .definition scope.homeName x init (s₁.info scope span) := by
  obtain ⟨visit, -, hform⟩ := form_definition headSpan (.symbol x nameSpan) value span scope
  rw [hform] at h
  have hspecial := Rules.definition_sound (J := fun _ _ _ _ _ => True) (fun _ => trivial)
    (Rules.located_ok h)
  cases hspecial with
  | definition hplain _ => exact ⟨hplain, _, _, rfl⟩

end Analysis

namespace Php

/-- What stands before the code of a single node that has the place. -/
def heading (config : Config) (place : Option Location) : String :=
  (if config.openTag then "<?php\n" else "") ++
    match config.locationComments, place with
    | true, some l => "// " ++ l.text ++ "\n"
    | _, _ => ""

theorem program_placed (config : Config) (n : Node) :
    program config [n] = heading config n.location ++ code config n 0 := program_singleton config n

/-- At the start of a line nothing stands before a statement. -/
theorem framed_statement (config : Config) (t : String) :
    framed config .statement 0 t = t ++ ";\n" := by
  show "" ++ t ++ ";\n" = _
  rw [String.empty_append]

theorem framed_result (config : Config) (t : String) :
    framed config .result 0 t = "return " ++ t ++ ";\n" := by
  show "" ++ "return " ++ t ++ ";\n" = _
  rw [String.empty_append]

end Php

namespace Session

open Analysis

section
variable {options : Options} {w w' : Workspace} {out : Output} {x : Symbol}

/-- A form that is compiled registers no expanders. -/
theorem expanders_compile {forms : List Form} (h : compile options forms w = (.ok out, w')) :
    w'.globals.expanders = w.globals.expanders := by
  obtain ⟨ns, s, hall, -, rfl⟩ := compile_eq_ok.1 h
  have hleft := (invariant_extends (.start w.globals w.drawn)).forms forms (rootScope options)
    (Extends.refl _)
  rw [hall] at hleft
  obtain ⟨_, _, _, _, _, hexpanders, _⟩ := hleft
  exact hexpanders

/-- A definition assigns to the place of its symbol, which is defined afterwards. -/
theorem compile_definition_ok {headSpan nameSpan span : Option Span} {v : Form}
    (h : compile options [.tuple .paren [.symbol SpecialForm.definition.symbol headSpan,
      .symbol x nameSpan, v] span] w = (.ok out, w')) :
    x.qualifier = none ∧ w'.globals.isDefined options.home x.name = true ∧
      ∃ init, out.code = Php.heading options.emit (span.map Span.start) ++
        (Php.globalPlace options.emit options.home x ++ " = " ++ init ++ ";\n") := by
  obtain ⟨ns, s, hall, rfl, rfl⟩ := compile_eq_ok.1 h
  obtain ⟨n, s₁, hform, hrest⟩ := bind_eq_ok.1 hall
  cases hrest
  obtain ⟨hplain, init, s₂, rfl⟩ := form_definition_ok hform
  refine ⟨hplain, ?_, Php.code options.emit init 0, ?_⟩
  · refine (defines_form hform options.home x.name).2 (.inr ?_)
    rw [Node.definitions_eq]
    exact List.mem_append_right _ List.mem_cons_self
  · rw [Php.program_placed]
    show Php.heading _ _ ++ Php.framed options.emit .statement 0
      (Php.globalPlace options.emit options.home x ++ " = " ++ Php.code options.emit init 0) = _
    rw [Php.framed_statement]
    rfl

/-- A symbol that refers to a definition is compiled to the place of the definition. -/
theorem compileExpression_global {span : Option Span} (hplain : x.qualifier = none)
    (hclass : x.isClassName = false) {home : String} {name : Symbol}
    (h : w.globals.resolve x options.home = .global home name) :
    compileExpression options (.symbol x span) w =
      (.ok ⟨Php.heading options.emit (span.map Span.start) ++
        ("return " ++ Php.globalPlace options.emit home name ++ ";\n"), []⟩, w) := by
  have hreference := reference_global span ((rootScope options).withContext .result)
    (.start w.globals w.drawn) hplain hclass rfl h
  rw [← form_symbol] at hreference
  unfold compileExpression compileIn unit withdrawing
  rw [all_singleton hreference]
  dsimp only
  rw [Php.program_placed]
  show ((.ok ⟨Php.heading _ _ ++ Php.framed options.emit .result 0
    (Php.globalPlace options.emit home name), []⟩, _) : Outcome × Workspace) = _
  rw [Php.framed_result]
  rfl

end

/-- **A definition can be referred to.**  After the definition of a symbol that can be written, is no
name of a class and has no expander registered in the namespace of the session, the symbol as an
expression is compiled to a return of the place that the definition assigns to. -/
theorem compile_defined (options : Options) (headSpan nameSpan span useSpan : Option Span)
    (x : Symbol) (v : Form) (w w' : Workspace) (out : Output)
    (hdef : compile options [.tuple .paren [.symbol SpecialForm.definition.symbol headSpan,
      .symbol x nameSpan, v] span] w = (.ok out, w'))
    (hwritten : Symbol.ofWritten x.text = x) (hclass : x.isClassName = false)
    (hfree : w.globals.expanders.lookup (options.home, x.name) = none) :
    (∃ init, out.code = Php.heading options.emit (span.map Span.start) ++
      (Php.globalPlace options.emit options.home x ++ " = " ++ init ++ ";\n")) ∧
    compileExpression options (.symbol x useSpan) w' =
      (.ok ⟨Php.heading options.emit (useSpan.map Span.start) ++
        ("return " ++ Php.globalPlace options.emit options.home x ++ ";\n"), []⟩, w') := by
  obtain ⟨hplain, hdefined, hcode⟩ := compile_definition_ok hdef
  rw [← expanders_compile hdef] at hfree
  have hresolve := Globals.resolve_defined hwritten hplain hdefined hfree
  exact ⟨hcode, compileExpression_global hplain hclass hresolve⟩

/-- The definition of a symbol as 1. -/
def definitionOf (x : Symbol) : Form :=
  .parens [.symbol SpecialForm.definition.symbol none, .symbol x none, .int 1]

/-- A workspace in which `when` is a macro of a namespace. -/
def withWhen (home : String) : Workspace :=
  .new (Globals.addExpander default home "when" Expander.whenTrue)

/-- A macro of the core namespace does not stand in the way of a definition of its name. -/
theorem compile_defined_core_expander :
    Symbol.ofWritten (Symbol.plain "when").text = .plain "when" ∧
      (Symbol.plain "when").isClassName = false ∧
      (withWhen Globals.defaultCore).globals.expanders.lookup ("user", "when") = none ∧
      ∃ out w, compile .standard [definitionOf (.plain "when")] (withWhen Globals.defaultCore)
          = (.ok out, w) ∧
        compileExpression .standard (.name "when") w =
          (.ok ⟨"return $GLOBALS[\"__lark\"][\"user\"][\"when\"];\n", []⟩, w) := by
  have hwritten : Symbol.ofWritten (Symbol.plain "when").text = .plain "when" := by decide
  have hclass : (Symbol.plain "when").isClassName = false := by decide
  have hok : (compile .standard [definitionOf (.plain "when")]
      (withWhen Globals.defaultCore)).1.toOption.isSome = true := by
    decide +kernel
  refine ⟨hwritten, hclass, rfl, ?_⟩
  generalize hrun : compile .standard [definitionOf (.plain "when")]
    (withWhen Globals.defaultCore) = r at hok ⊢
  obtain ⟨out | out, w⟩ := r
  · cases hok
  · have hdefined := compile_defined .standard none none none none (.plain "when") (.int 1) _ w out
      hrun hwritten hclass rfl
    exact ⟨out, w, rfl, hdefined.2⟩

/-- A drawn symbol, the name of a class and the name of a macro can be defined, but the symbol as an
expression is refused or means the class. -/
theorem compile_defined_unreferable :
    (codeOf (compile .standard [definitionOf (.fresh 1)] default) =
        some "$GLOBALS[\"__lark\"][\"user\"][\"__lark_1\"] = 1;\n" ∧
      codeOf (compileExpression .standard (.symbol (.fresh 1) none)
        (compile .standard [definitionOf (.fresh 1)] default).2) = none) ∧
    (codeOf (compile .standard [definitionOf (.plain "\\Foo")] default) =
        some "$GLOBALS[\"__lark\"][\"user\"][\"\\\\Foo\"] = 1;\n" ∧
      codeOf (compileExpression .standard (.name "\\Foo")
        (compile .standard [definitionOf (.plain "\\Foo")] default).2) =
          some "return \\Foo::class;\n") ∧
    (codeOf (compile .standard [definitionOf (.plain "when")] (withWhen Scope.defaultHome)) =
        some "$GLOBALS[\"__lark\"][\"user\"][\"when\"] = 1;\n" ∧
      codeOf (compileExpression .standard (.name "when")
        (compile .standard [definitionOf (.plain "when")] (withWhen Scope.defaultHome)).2) =
          none) := by
  decide +kernel

end Session

end LarkPhp
