import LarkPhp.Proofs.Agreement
import LarkPhp.Proofs.Effects

/-!
A unit is a transaction on the definitions.

Names are defined as soon as their definitions are reached, and the log of first definitions is what
a failure takes back.  While a unit runs, the log holds exactly the names by which the definitions
have grown (`Extends`), so taking back the end of the log restores the earlier definitions.  A unit
that succeeds leaves defined what was defined before and what the definitions among its nodes
define (`Adds`).
-/

namespace LarkPhp

/-! ### What can be asked of globals -/

namespace Globals

/-- Two globals give the same answers. -/
structure SameAnswers (g h : Globals) : Prop where
  isDefined : ∀ home name, g.isDefined home name = h.isDefined home name
  count : ∀ home, g.count home = h.count home
  resolve : ∀ symbol home, g.resolve symbol home = h.resolve symbol home

/-- All answers come from the defined names, the expanders and the core namespace. -/
theorem sameAnswers_of_eq {g h : Globals} (hd : g.defined = h.defined)
    (he : g.expanders = h.expanders) (hc : g.core = h.core) : g.SameAnswers h := by
  have hdef : ∀ home name, g.isDefined home name = h.isDefined home name := by
    intro home name
    unfold isDefined
    rw [hd]
  have hin : ∀ home name, g.resolveIn home name = h.resolveIn home name := by
    intro home name
    unfold resolveIn
    rw [hdef, he]
  refine ⟨hdef, fun home => ?_, fun symbol home => ?_⟩
  · unfold count
    rw [hd]
  · unfold resolve
    simp only [hin, hc]

theorem defined_undefineAll (g : Globals) (names : List (String × String)) :
    (g.undefineAll names).defined = g.defined.filter fun x => !names.contains x := by
  induction names generalizing g with
  | nil => exact (List.filter_eq_self.2 fun _ _ => rfl).symm
  | cons n names ih =>
    have h := ih (g.undefine n.1 n.2)
    unfold undefineAll at h ⊢
    rw [List.foldl_cons, h]
    simp only [undefine, List.filter_filter]
    refine List.filter_congr fun x _ => ?_
    rw [List.contains_cons, Bool.not_or, Bool.and_comm]
    rfl

theorem expanders_undefineAll (g : Globals) (names : List (String × String)) :
    (g.undefineAll names).expanders = g.expanders := by
  induction names generalizing g with
  | nil => rfl
  | cons n names ih => exact ih (g.undefine n.1 n.2)

theorem core_undefineAll (g : Globals) (names : List (String × String)) :
    (g.undefineAll names).core = g.core := by
  induction names generalizing g with
  | nil => rfl
  | cons n names ih => exact ih (g.undefine n.1 n.2)

/-- Macros are found among the registered expanders. -/
theorem exists_of_resolve {g : Globals} {x name : Symbol} {home : String}
    {expander : Expander} (h : g.resolve x home = .expander name expander) :
    ∃ key, (key, expander) ∈ g.expanders := by
  have hin : ∀ {home text : String}, g.resolveIn home text = .expander name expander →
      ∃ key, (key, expander) ∈ g.expanders := by
    intro home text h
    unfold resolveIn at h
    split at h
    · split at h
      · next hlookup =>
        cases h
        obtain ⟨before, after, heq, -⟩ := List.lookup_eq_some_iff.1 hlookup
        exact ⟨(home, text), by rw [heq]; simp⟩
      · cases h
    · cases h
  unfold resolve at h
  split at h
  · cases h
  · split at h
    · exact hin h
    · split at h
      · exact hin h
      · exact hin h

end Globals

namespace Analysis

/-! ### The log of first definitions -/

/-- The definitions have grown by exactly what was added to the log. -/
def Extends (s₀ s : State) : Prop :=
  ∃ new, s.added = s₀.added ++ new ∧ s.globals.defined = s₀.globals.defined ++ new ∧ new.Nodup ∧
    (∀ x ∈ new, x ∉ s₀.globals.defined) ∧ s.globals.expanders = s₀.globals.expanders ∧
    s.globals.core = s₀.globals.core

section Extends
variable {s₀ s s' : State}

theorem Extends.refl (s : State) : Extends s s :=
  ⟨[], by simp, by simp, List.nodup_nil, by simp, rfl, rfl⟩

theorem Extends.define (home name : String) (h : Extends s₀ s) :
    Extends s₀ (s.defining home name) := by
  obtain ⟨new, hadded, hdefined, hnodup, hnew, he, hc⟩ := h
  by_cases hin : s.globals.isDefined home name = true
  · refine ⟨new, ?_, ?_, hnodup, hnew, he, hc⟩
    · simpa [State.defining, hin] using hadded
    · show Distinct.add s.globals.defined (home, name) = _
      rw [Distinct.add_of_contains hin, hdefined]
  · have hout : (home, name) ∉ s.globals.defined := by
      rwa [Globals.isDefined_iff] at hin
    rw [hdefined, List.mem_append, not_or] at hout
    refine ⟨new ++ [(home, name)], ?_, ?_, ?_, ?_, he, hc⟩
    · simp only [State.defining, hin, Bool.not_false, if_true, hadded, List.append_assoc]
    · show Distinct.add s.globals.defined (home, name) = _
      rw [Distinct.add_of_not_contains (by simpa [Globals.isDefined] using hin), hdefined,
        List.append_assoc]
    · rw [List.nodup_append]
      refine ⟨hnodup, by simp, ?_⟩
      rintro x hx y hy rfl
      rw [List.mem_singleton.1 hy] at hx
      exact hout.2 hx
    · intro x hx
      rcases List.mem_append.1 hx with hx | hx
      · exact hnew x hx
      · rw [List.mem_singleton.1 hx]
        exact hout.1

/-- Taking back the log from a place behind its first entries keeps what was added before it. -/
theorem Extends.withdraw (h : Extends s₀ s) {mark : Nat} (hm : s₀.added.length ≤ mark) :
    Extends s₀ (s.withdraw mark) := by
  obtain ⟨new, hadded, hdefined, hnodup, hnew, he, hc⟩ := h
  obtain ⟨k, rfl⟩ := Nat.exists_eq_add_of_le hm
  refine ⟨new.take k, ?_, ?_, hnodup.sublist (List.take_sublist k new), ?_, ?_, ?_⟩
  · simp only [State.withdraw, hadded, List.take_append, Nat.add_sub_cancel_left]
    rw [List.take_of_length_le (Nat.le_add_right _ _)]
  · simp only [State.withdraw, Globals.defined_undefineAll, hadded, hdefined]
    rw [List.drop_append, List.drop_of_length_le (Nat.le_add_right _ _), List.nil_append,
      Nat.add_sub_cancel_left, List.filter_append]
    congr 1
    · refine List.filter_eq_self.2 fun x hx => ?_
      have : x ∉ new.drop k := fun hd => hnew x (List.mem_of_mem_drop hd) hx
      simpa using this
    · have hsplit : (new.take k ++ new.drop k).Nodup := by rwa [List.take_append_drop]
      rw [List.nodup_append] at hsplit
      generalize hrest : new.drop k = rest at hsplit
      have hnew : new = new.take k ++ rest := by rw [← hrest, List.take_append_drop]
      rw [show new.filter _ = (new.take k ++ rest).filter _ from congrArg _ hnew,
        List.filter_append, List.filter_eq_self.2 ?_, List.filter_eq_nil_iff.2 ?_, List.append_nil]
      · intro x hx
        simpa using hx
      · intro x hx
        have : x ∉ rest := fun hd => hsplit.2.2 x hx x hd rfl
        simpa using this
  · exact fun x hx => hnew x (List.mem_of_mem_take hx)
  · simp only [State.withdraw, Globals.expanders_undefineAll, he]
  · simp only [State.withdraw, Globals.core_undefineAll, hc]

theorem Extends.length_le (h : Extends s₀ s) : s₀.added.length ≤ s.added.length := by
  obtain ⟨new, hadded, -⟩ := h
  rw [hadded, List.length_append]
  exact Nat.le_add_right _ _

/-- **The log is exact along every run.** -/
theorem invariant_extends (s₀ : State) : Invariant (Extends s₀) where
  draw h _ := h
  number h := h
  warn _ h := h
  define home name h := h.define home name
  withdraw h h' := h'.withdraw h.length_le

/-- Taking back all that was added restores what the answers come from. -/
theorem Extends.restored_eq (h : Extends s₀ s) :
    (s.withdraw s₀.added.length).globals.defined = s₀.globals.defined ∧
      (s.withdraw s₀.added.length).globals.expanders = s₀.globals.expanders ∧
      (s.withdraw s₀.added.length).globals.core = s₀.globals.core ∧
      (s.withdraw s₀.added.length).added = s₀.added := by
  obtain ⟨new, hadded, hdefined, -, -, he, hc⟩ := h.withdraw (Nat.le_refl _)
  have hlen : (s.withdraw s₀.added.length).added.length ≤ s₀.added.length := by
    show (s.added.take s₀.added.length).length ≤ _
    rw [List.length_take]
    exact Nat.min_le_left _ _
  have hnew : new = [] := by
    rw [hadded, List.length_append] at hlen
    exact List.eq_nil_of_length_eq_zero (by omega)
  subst hnew
  rw [List.append_nil] at hadded hdefined
  exact ⟨hdefined, he, hc, hadded⟩

/-- Taking back all that was added restores the definitions. -/
theorem Extends.restored (h : Extends s₀ s) :
    (s.withdraw s₀.added.length).globals.SameAnswers s₀.globals ∧
      (s.withdraw s₀.added.length).added = s₀.added := by
  obtain ⟨hdefined, he, hc, hadded⟩ := h.restored_eq
  exact ⟨Globals.sameAnswers_of_eq hdefined he hc, hadded⟩

end Extends

/-! ### What a success defines -/

/-- Defined afterwards is what was defined before, and the names. -/
def Adds (s : State) (names : List (String × String)) (s' : State) : Prop :=
  ∀ home name, s'.globals.isDefined home name = true ↔
    s.globals.isDefined home name = true ∨ (home, name) ∈ names

section Adds
variable {s s₁ s₂ s' : State} {names more : List (String × String)}

theorem adds_of_globals_eq (h : s'.globals = s.globals) : Adds s [] s' := by
  intro home name
  rw [h]
  simp

theorem Adds.trans (h₁ : Adds s names s₁) (h₂ : Adds s₁ more s₂) : Adds s (names ++ more) s₂ := by
  intro home name
  rw [h₂ home name, h₁ home name, List.mem_append, or_assoc]

/-- Names are defined in addition to what is defined already. -/
theorem effect_adds (home : String) : Effect home Adds where
  draw _ _ := adds_of_globals_eq rfl
  number _ := adds_of_globals_eq rfl
  note s f position span := adds_of_globals_eq (State.globals_noting s span position f)
  announce s name span h n := by
    rw [State.globals_announcing, Globals.isDefined_define, List.mem_singleton]
  trans := Adds.trans
  perm hperm h home name := by rw [h home name, hperm.mem_iff]

/-- What is said of forms: the node's definitions are what the form defines. -/
def Defines : Judgement := fun _ _ s n s' => Adds s n.definitions s'

theorem adds_all {scope : Scope} {fs : List Form} {ns : List Node}
    (h : Rules.All Defines scope fs s ns s') : Adds s (ns.flatMap Node.definitions) s' := by
  induction h with
  | nil => exact adds_of_globals_eq rfl
  | cons hf _ ih => exact hf.trans ih

/-- **A form that is analyzed defines what the definitions among its nodes define,** and nothing
else. -/
theorem defines_form : form.Sound Defines :=
  fun {_ scope _ _ _} h => (effect_adds scope.homeName).form h rfl

end Adds

/-! ### What a failed definition leaves -/

/-- A definition is read as such in any scope, and its value is analyzed like every other form. -/
theorem form_definition (headSpan : Option Span) (name value : Form) (span : Option Span)
    (scope : Scope) :
    ∃ visit : Visit,
      (∀ {P}, Simulation P → ∀ f scope, Agree P Alike (visit f scope) (visit f scope)) ∧
      form (.tuple .paren [.symbol SpecialForm.definition.symbol headSpan, name, value] span) scope =
        located span (definition visit name value scope span) := by
  generalize hf : Form.tuple .paren [.symbol SpecialForm.definition.symbol headSpan, name, value]
    span = f
  obtain ⟨h, hh⟩ := Nat.exists_eq_succ_of_ne_zero (Nat.ne_of_gt f.height_pos)
  have hstep : ∀ reenter : Visit, toDepth reenter f.height f scope =
      located span (definition (toDepth reenter h) name value scope span) := by
    intro reenter
    rw [hh, ← hf]
    rfl
  unfold form
  cases expansionLimit with
  | zero =>
    exact ⟨toDepth exhausted h,
      fun hP => Simulation.agree (hP.unnumbered.toDepth Correspondence.exhausted h), hstep _⟩
  | succ n =>
    exact ⟨toDepth (withExpansions n) h,
      fun hP => Simulation.agree (hP.unnumbered.toDepth (hP.unnumbered.withExpansions n) h), hstep _⟩

theorem definition_error {visit : Visit}
    (hv : ∀ {P}, Simulation P → ∀ f scope, Agree P Alike (visit f scope) (visit f scope))
    {name value : Form} {scope : Scope} {span : Option Span} {s s' : State} {e : Stop}
    (h : definition visit name value scope span s = .error e s') :
    s'.globals.SameAnswers s.globals ∧ s'.added = s.added := by
  have hunchanged : s.globals.SameAnswers s.globals ∧ s.added = s.added :=
    ⟨⟨fun _ _ => rfl, fun _ => rfl, fun _ _ => rfl⟩, rfl⟩
  unfold definition at h
  split at h
  · next n nameSpan =>
    split at h
    · have hsim := (invariant_extends s).simulation
      have hvalue := (hsim.announce scope n.name span).bind fun _ _ _ =>
        hv hsim value scope.operand
      have hleft := Invariant.left_of_agree hvalue (Extends.refl s)
      rw [bind_run] at h
      unfold transaction withdrawing at h
      generalize (announce scope.homeName n.name span >>= fun _ =>
        visit value scope.operand : Analyze Node) s = r at h hleft
      cases r with
      | ok init s₁ => cases h
      | error e s₁ =>
        cases h
        exact Extends.restored hleft
    · cases h
      exact hunchanged
  · cases h
    exact hunchanged

/-- **A unit is a transaction on the definitions.**  If it stops, all questions to the globals have
the answers that they had before.  If it succeeds, defined is what was defined before together with
what the definitions among its nodes define, and the macros are the same.  A single definition that
stops, in whatever state, takes back all that was defined while it was analyzed, and nothing else. -/
theorem unit_transactional (g : Globals) (drawn : Nat) (forms : List Form) (scope : Scope) :
    (match unit forms scope (.start g drawn) with
      | .error _ s => s.globals.SameAnswers g
      | .ok nodes s =>
        (∀ home name, s.globals.isDefined home name = true ↔
          g.isDefined home name = true ∨ (home, name) ∈ nodes.flatMap Node.definitions) ∧
        s.globals.expanders = g.expanders) ∧
    ∀ (s : State) (headSpan : Option Span) (name value : Form) (span : Option Span),
      match form (.tuple .paren [.symbol SpecialForm.definition.symbol headSpan, name, value] span)
        scope s with
      | .error _ s' => s'.globals.SameAnswers s.globals ∧ s'.added = s.added
      | .ok _ _ => True := by
  constructor
  · have hleft := (invariant_extends (.start g drawn)).forms forms scope (Extends.refl _)
    unfold unit withdrawing
    cases hall : all form forms scope (.start g drawn) with
    | ok nodes s =>
      rw [hall] at hleft
      obtain ⟨_, _, _, _, _, he, _⟩ := hleft
      exact ⟨adds_all (Rules.all_sound defines_form hall), he⟩
    | error e s =>
      rw [hall] at hleft
      exact (Extends.restored hleft).1
  · intro s headSpan name value span
    obtain ⟨visit, hv, hform⟩ := form_definition headSpan name value span scope
    rw [hform]
    unfold located
    cases hd : definition visit name value scope span s with
    | ok n s' => trivial
    | error e s' =>
      have h := definition_error hv hd
      cases e <;> exact h

end Analysis

end LarkPhp
