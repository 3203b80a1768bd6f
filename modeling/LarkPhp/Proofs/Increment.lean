import LarkPhp.Session
import LarkPhp.Proofs.Agreement

/-!
Compiling in pieces.

A unit may be cut in two and compiled piece by piece: the second piece starts with no warnings and
an empty log of definitions, but with the definitions and the drawn symbols that the first one left,
and that is all that matters to it (`SameSince`).  So both ways lead to the same code, the same
warnings and the same workspace.
-/

namespace LarkPhp

/-! ### First occurrences of first occurrences -/

namespace Distinct

section Repeats
variable {α : Type} [BEq α] [LawfulBEq α]

theorem addAll_add (xs ys : List α) (y : α) : addAll xs (add ys y) = add (addAll xs ys) y := by
  by_cases h : ys.contains y = true
  · have hy : y ∈ addAll xs ys := mem_addAll.2 (Or.inr (by simpa using h))
    rw [add_of_contains h, add_of_contains (by simpa using hy)]
  · rw [add_of_not_contains (by simpa using h), addAll_append]
    rfl

theorem addAll_addAll (xs ys zs : List α) : addAll xs (addAll ys zs) = addAll (addAll xs ys) zs := by
  induction zs generalizing ys with
  | nil => rfl
  | cons z zs ih => rw [addAll_cons, addAll_cons, ih, addAll_add]

theorem ofList_append_ofList (xs ys : List α) :
    ofList (ofList xs ++ ofList ys) = addAll (ofList xs) ys := by
  unfold ofList
  rw [addAll_append, addAll_addAll, addAll_nil, addAll_addAll, addAll_nil]

end Repeats

end Distinct

namespace Analysis

/-! ### Runs that differ in what was before them -/

/-- From `s₀` to `s` the same happened as from `t₀` to `t`, but for the numbers of nodes. -/
structure SameSince (s₀ t₀ s t : State) : Prop where
  globals : s.globals = t.globals
  drawn : s.drawn = t.drawn
  warnings : ∃ ds, s.warnings.entries = Distinct.addAll s₀.warnings.entries ds ∧
    t.warnings.entries = Distinct.addAll t₀.warnings.entries ds
  added : ∃ new, s.added = s₀.added ++ new ∧ t.added = t₀.added ++ new

namespace SameSince

variable {s₀ t₀ s t s' t' : State}

theorem refl (hg : s₀.globals = t₀.globals) (hd : s₀.drawn = t₀.drawn) : SameSince s₀ t₀ s₀ t₀ :=
  ⟨hg, hd, ⟨[], rfl, rfl⟩, ⟨[], by simp, by simp⟩⟩

theorem symm (h : SameSince s₀ t₀ s t) : SameSince t₀ s₀ t s := by
  obtain ⟨ds, hs, ht⟩ := h.warnings
  obtain ⟨new, hs', ht'⟩ := h.added
  exact ⟨h.globals.symm, h.drawn.symm, ⟨ds, ht, hs⟩, ⟨new, ht', hs'⟩⟩

theorem warn (d : Diagnostic) (h : SameSince s₀ t₀ s t) :
    SameSince s₀ t₀ (s.warned d) (t.warned d) := by
  obtain ⟨ds, hs, ht⟩ := h.warnings
  refine ⟨h.globals, h.drawn, ⟨ds ++ [d], ?_, ?_⟩, h.added⟩
  · show (s.warnings.add d).entries = _
    rw [Diagnostic.Queue.entries_add, hs, Distinct.addAll_append]
    rfl
  · show (t.warnings.add d).entries = _
    rw [Diagnostic.Queue.entries_add, ht, Distinct.addAll_append]
    rfl

theorem define (home name : String) (h : SameSince s₀ t₀ s t) :
    SameSince s₀ t₀ (s.defining home name) (t.defining home name) := by
  obtain ⟨new, hs, ht⟩ := h.added
  refine ⟨?_, h.drawn, h.warnings, ?_⟩
  · rw [State.globals_defining, State.globals_defining, h.globals]
  · unfold State.defining
    rw [h.globals]
    dsimp only
    split
    · exact ⟨new ++ [(home, name)], by rw [hs, List.append_assoc], by rw [ht, List.append_assoc]⟩
    · exact ⟨new, hs, ht⟩

/-- A mark behind what was added since cuts both logs at the same place. -/
theorem withdraw (h : SameSince s₀ t₀ s t) (h' : SameSince s₀ t₀ s' t') :
    SameSince s₀ t₀ (s'.withdraw s.added.length) (t'.withdraw t.added.length) := by
  obtain ⟨mark, hs, ht⟩ := h.added
  obtain ⟨new, hs', ht'⟩ := h'.added
  have hdrop : ∀ xs : List (String × String),
      (xs ++ new).drop (xs ++ mark).length = new.drop mark.length := by
    intro xs
    rw [List.length_append, List.drop_length_add_append]
  have htake : ∀ xs : List (String × String),
      (xs ++ new).take (xs ++ mark).length = xs ++ new.take mark.length := by
    intro xs
    rw [List.length_append, List.take_length_add_append]
  refine ⟨?_, h'.drawn, h'.warnings, ⟨new.take mark.length, ?_, ?_⟩⟩
  · simp only [State.withdraw, hs, ht, hs', ht', hdrop, h'.globals]
  · simp only [State.withdraw, hs, hs', htake]
  · simp only [State.withdraw, ht, ht', htake]

end SameSince

/-- **What was queued and logged before plays no part.** -/
theorem simulation_sameSince (s₀ t₀ : State) : Simulation (SameSince s₀ t₀) where
  drawn h := h.drawn
  resolve symbol home h := by rw [h.globals]
  isDefined home name h := by rw [h.globals]
  draw h _ := ⟨h.globals, rfl, h.warnings, h.added⟩
  number h := ⟨h.globals, h.drawn, h.warnings, h.added⟩
  warn d h := h.warn d
  define home name h := h.define home name
  withdraw h h' := h.withdraw h'

theorem forms_ok_since {s t s' : State} {fs : List Form} {scope : Scope} {ns : List Node}
    (h : all form fs scope s = .ok ns s') (hg : s.globals = t.globals) (hd : s.drawn = t.drawn) :
    ∃ ms t', all form fs scope t = .ok ms t' ∧ AllAlike ns ms ∧ SameSince s t s' t' := by
  have hagree := (simulation_sameSince s t).forms scope fs s t (.refl hg hd)
  rw [h] at hagree
  generalize all form fs scope t = r at hagree ⊢
  cases hagree with
  | ok hns hst => exact ⟨_, _, rfl, hns, hst⟩

/-- The warnings of a run that starts with none are the first occurrences of what it reports. -/
theorem warnings_of_start {g : Globals} {drawn : Nat} {fs : List Form} {scope : Scope}
    {ns : List Node} {s : State} (h : all form fs scope (.start g drawn) = .ok ns s) :
    ∃ ds, s.warnings.entries = Distinct.ofList ds := by
  obtain ⟨ms, t, -, -, hsince⟩ := forms_ok_since h rfl rfl
  obtain ⟨ds, hs, -⟩ := hsince.warnings
  exact ⟨ds, hs⟩

/-- Warnings that were queued behind others are the same as those queued behind none, less what is
there already. -/
theorem warnings_since {g g' : Globals} {drawn drawn' : Nat} {fs : List Form} {scope : Scope}
    {ns : List Node} {s s' t : State} (h : all form fs scope (.start g drawn) = .ok ns s)
    (hsince : SameSince s (.start g' drawn') s' t) :
    s'.warnings.entries = Distinct.ofList (s.warnings.entries ++ t.warnings.entries) := by
  obtain ⟨before, hbefore⟩ := warnings_of_start h
  obtain ⟨ds, hs', ht⟩ := hsince.warnings
  have ht : t.warnings.entries = Distinct.ofList ds := ht
  rw [hs', ht, hbefore, Distinct.ofList_append_ofList]

/-! ### Units cut in two -/

theorem all_append (visit : Visit) (fs gs : List Form) (scope : Scope) :
    all visit (fs ++ gs) scope = do
      let ns ← all visit fs scope
      let ms ← all visit gs scope
      return ns ++ ms := by
  induction fs with
  | nil => simp [all]
  | cons f fs ih => simp only [List.cons_append, all, ih, bind_assoc, pure_bind]

theorem all_append_eq_ok {visit : Visit} {fs gs : List Form} {scope : Scope} {s s' : State}
    {ns : List Node} :
    all visit (fs ++ gs) scope s = .ok ns s' ↔
      ∃ ns₁ s₁ ns₂, all visit fs scope s = .ok ns₁ s₁ ∧ all visit gs scope s₁ = .ok ns₂ s' ∧
        ns = ns₁ ++ ns₂ := by
  rw [all_append, bind_eq_ok]
  constructor
  · rintro ⟨ns₁, s₁, h₁, h⟩
    obtain ⟨ns₂, s₂, h₂, hpure⟩ := bind_eq_ok.1 h
    cases hpure
    exact ⟨ns₁, s₁, ns₂, h₁, h₂, rfl⟩
  · rintro ⟨ns₁, s₁, ns₂, h₁, h₂, rfl⟩
    exact ⟨ns₁, s₁, h₁, bind_eq_ok.2 ⟨ns₂, s', h₂, rfl⟩⟩

end Analysis

namespace Session

open Analysis

theorem compile_eq_ok {options : Options} {forms : List Form} {w w' : Workspace} {out : Output} :
    compile options forms w = (.ok out, w') ↔
      ∃ ns s, all form forms (rootScope options) (.start w.globals w.drawn) = .ok ns s ∧
        out = ⟨Php.program options.emit ns, s.warnings.entries⟩ ∧ w' = ⟨s.globals, s.drawn⟩ := by
  unfold compile compileIn unit withdrawing
  cases all form forms (rootScope options) (.start w.globals w.drawn) with
  | ok ns s =>
    constructor
    · intro h
      cases h
      exact ⟨ns, s, rfl, rfl, rfl⟩
    · rintro ⟨ns, s, h, rfl, rfl⟩
      cases h
      rfl
  | error e s => simp

theorem program_append {config : Php.Config} (h : config.openTag = false) {ns₁ ns₂ ms : List Node}
    (hms : AllAlike ns₂ ms) :
    Php.program config (ns₁ ++ ns₂) = Php.program config ns₁ ++ Php.program config ms := by
  unfold Php.program
  rw [List.map_append, Php.roots_eq_of_unnumbered_eq config hms, String.join_append]
  simp [h]

/-- **A unit can be compiled in pieces.**  Without an opening tag, all of it compiles if and only if
the first piece does and then the second, in the workspace that the first one left; the codes follow
each other, the warnings do so too with later repeats dropped, and the workspace afterwards is the
same. -/
theorem compile_append (options : Options) (hopen : options.emit.openTag = false)
    (fs gs : List Form) (w w' : Workspace) (out : Output) :
    compile options (fs ++ gs) w = (.ok out, w') ↔
      ∃ out₁ w₁ out₂, compile options fs w = (.ok out₁, w₁) ∧
        compile options gs w₁ = (.ok out₂, w') ∧ out.code = out₁.code ++ out₂.code ∧
        out.warnings = Distinct.ofList (out₁.warnings ++ out₂.warnings) := by
  constructor
  · intro h
    obtain ⟨ns, s', hall, rfl, rfl⟩ := compile_eq_ok.1 h
    obtain ⟨ns₁, s₁, ns₂, h₁, h₂, rfl⟩ := all_append_eq_ok.1 hall
    -- the second piece again, with nothing queued or logged before it
    obtain ⟨ms, t, ht, hms, hsince⟩ :=
      forms_ok_since (t := .start s₁.globals s₁.drawn) h₂ rfl rfl
    refine ⟨_, _, _, compile_eq_ok.2 ⟨ns₁, s₁, h₁, rfl, rfl⟩,
      compile_eq_ok.2 ⟨ms, t, ht, rfl, ?_⟩, program_append hopen hms, warnings_since h₁ hsince⟩
    rw [hsince.globals, hsince.drawn]
  · rintro ⟨out₁, w₁, out₂, hfs, hgs, hcode, hwarnings⟩
    obtain ⟨ns₁, s₁, h₁, rfl, rfl⟩ := compile_eq_ok.1 hfs
    obtain ⟨ms, t, ht, rfl, rfl⟩ := compile_eq_ok.1 hgs
    obtain ⟨ns₂, s', h₂, hms, hsince⟩ := forms_ok_since (t := s₁) ht rfl rfl
    refine compile_eq_ok.2 ⟨ns₁ ++ ns₂, s', all_append_eq_ok.2 ⟨ns₁, s₁, ns₂, h₁, h₂, rfl⟩, ?_, ?_⟩
    · obtain ⟨code, warnings⟩ := out
      rw [program_append hopen hms.symm, warnings_since h₁ hsince.symm]
      exact congr (congrArg Output.mk hcode) hwarnings
    · rw [hsince.globals, hsince.drawn]

/-- A piece that defines a name and discards a value. -/
def definingPiece : List Form :=
  [.parens [.name "def", .name "a", .int 1], .parens [.name "do", .int 7, .name "a"]]

/-- A piece that discards the same value and defines the name again. -/
def redefiningPiece : List Form :=
  [.parens [.name "do", .int 7, .name "a"], .parens [.name "def", .name "a", .name "a"]]

/-- Both pieces warn of the discarded value, which is reported once for all of the unit. -/
theorem compile_append_repeated_warning :
    Options.standard.emit.openTag = false ∧
      ∃ out w out₁ w₁ out₂,
        compile .standard (definingPiece ++ redefiningPiece) default = (.ok out, w) ∧
        compile .standard definingPiece default = (.ok out₁, w₁) ∧
        compile .standard redefiningPiece w₁ = (.ok out₂, w) ∧
        out.code = out₁.code ++ out₂.code ∧
        out.warnings = Distinct.ofList (out₁.warnings ++ out₂.warnings) ∧
        out.warnings.length = 2 := by
  refine ⟨rfl, ?_⟩
  have hlength : ((compile .standard (definingPiece ++ redefiningPiece) default).1.map
      fun out => out.warnings.length).toOption = some 2 := by
    decide +kernel
  cases hrun : compile .standard (definingPiece ++ redefiningPiece) default with
  | mk outcome w =>
    rw [hrun] at hlength
    cases outcome with
    | error e => cases hlength
    | ok out =>
      obtain ⟨out₁, w₁, out₂, h₁, h₂, hcode, hwarnings⟩ :=
        (compile_append .standard rfl definingPiece redefiningPiece default w out).1 hrun
      exact ⟨out, w, out₁, w₁, out₂, rfl, h₁, h₂, hcode, hwarnings, Option.some.inj hlength⟩

end Session

end LarkPhp
