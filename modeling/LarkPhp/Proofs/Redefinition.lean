import LarkPhp.Proofs.Transaction

/-!
Warnings about redefinitions.

A definition is warned about if its name is defined when it is reached, be it from before the run or
by a definition that was reached earlier, which can be the one around it.  Other warnings have
another code, and the queue drops nothing but repeats.  So which names are warned about can be told
from what was defined before and from how often the nodes define each name: that is the effect of
definitions on the warnings (`Analysis.effect_redefinitions`).
-/

namespace LarkPhp.Analysis

/-- There is a warning that the name was defined again. -/
def Warned (home : String) (s : State) (name : String) : Prop :=
  ∃ d ∈ s.warnings.entries, d.code = .redefinition ∧
    d.message = "redefining global '" ++ home ++ "/" ++ name ++ "'"

/-- Among the names that are defined there is one again: it was defined before, or it is there more
than once. -/
def Redefines (s : State) (names : List (String × String)) (e : String × String) : Prop :=
  (s.globals.isDefined e.1 e.2 = true ∧ e ∈ names) ∨ 2 ≤ names.count e

section Warnings
variable {home name : String} {s s₁ s' : State} {names more : List (String × String)}
  {e : String × String}

/-! ### Single warnings -/

theorem warned_warned {d : Diagnostic} :
    Warned home (s.warned d) name ↔ Warned home s name ∨ d.code = .redefinition ∧
      d.message = "redefining global '" ++ home ++ "/" ++ name ++ "'" := by
  have hentries : ∀ x, x ∈ (s.warned d).warnings.entries ↔ x ∈ s.warnings.entries ∨ x = d := by
    intro x
    show x ∈ (s.warnings.add d).entries ↔ _
    rw [Diagnostic.Queue.entries_add, Distinct.mem_add]
  simp only [Warned, hentries, or_and_right, exists_or, exists_eq_left]

/-- A discarded value is another warning. -/
theorem warned_noting (f : Form) (position : Nat) (span : Option Span) :
    Warned home (s.noting f position span) name ↔ Warned home s name := by
  unfold State.noting
  split
  · rw [warned_warned]
    simp [Diagnostic.warning]
  · rfl

/-! ### Names that are defined again -/

theorem not_redefines_nil : ¬ Redefines s [] e := by
  simp [Redefines]

theorem redefines_singleton {d : String × String} :
    Redefines s [d] e ↔ s.globals.isDefined e.1 e.2 = true ∧ e = d := by
  have hcount : ¬ 2 ≤ [d].count e := Nat.not_le.2 (Nat.lt_succ_of_le List.count_le_length)
  simp only [Redefines, hcount, or_false, List.mem_singleton]

/-- What is defined first counts as defined before for what is defined then. -/
theorem redefines_append (h : Adds s names s₁) :
    Redefines s (names ++ more) e ↔ Redefines s names e ∨ Redefines s₁ more e := by
  have hnames : e ∈ names ↔ 0 < names.count e := List.count_pos_iff.symm
  have hmore : e ∈ more ↔ 0 < more.count e := List.count_pos_iff.symm
  simp only [Redefines, h e.1 e.2, List.count_append, List.mem_append, hnames, hmore]
  by_cases hdefined : s.globals.isDefined e.1 e.2 = true
  · simp only [hdefined, true_and, true_or]
    omega
  · simp only [hdefined, Bool.false_eq_true, false_and, false_or]
    omega

/-- A name is warned about if it is defined already. -/
theorem warned_announcing (n : String) (span : Option Span) :
    Warned home (s.announcing home n span) name ↔
      Warned home s name ∨ Redefines s [(home, n)] (home, name) := by
  rw [redefines_singleton]
  unfold State.announcing
  split
  · next hdefined =>
    rw [warned_warned]
    refine or_congr_right ⟨?_, ?_⟩
    · rintro ⟨-, hmessage⟩
      obtain rfl : n = name := by
        simpa [Diagnostic.warning, String.append_assoc] using hmessage
      exact ⟨hdefined, rfl⟩
    · rintro ⟨-, hsame⟩
      cases hsame
      exact ⟨rfl, rfl⟩
  · next hdefined =>
    refine (or_iff_left ?_).symm
    rintro ⟨hname, hsame⟩
    cases hsame
    exact hdefined hname

end Warnings

/-! ### Whole runs -/

/-- The names that are warned about are those that are defined again. -/
theorem effect_redefinitions (home : String) :
    Effect home fun s names s' => Adds s names s' ∧ ∀ name,
      Warned home s' name ↔ Warned home s name ∨ Redefines s names (home, name) where
  draw s n := ⟨(effect_adds home).draw s n, fun _ => (or_iff_left not_redefines_nil).symm⟩
  number s := ⟨(effect_adds home).number s, fun _ => (or_iff_left not_redefines_nil).symm⟩
  note s f position span := ⟨(effect_adds home).note s f position span, fun _ =>
    (warned_noting f position span).trans (or_iff_left not_redefines_nil).symm⟩
  announce s n span := ⟨(effect_adds home).announce s n span, fun _ => warned_announcing n span⟩
  trans h₁ h₂ := ⟨h₁.1.trans h₂.1, fun name => by
    rw [h₂.2, h₁.2, redefines_append h₁.1, or_assoc]⟩
  perm hperm h := ⟨(effect_adds home).perm hperm h.1, fun name => by
    rw [h.2]
    simp only [Redefines, hperm.mem_iff, hperm.count_eq]⟩

/-- **Redefinition warnings are exact.**  After a unit that succeeds there is a warning about a name
of its namespace if and only if the name was defined before and is defined by at least one node, or
it is defined by at least two. -/
theorem warned_iff_redefined {g : Globals} {drawn : Nat} {forms : List Form} {scope : Scope}
    {nodes : List Node} {s' : State} (h : unit forms scope (.start g drawn) = .ok nodes s')
    (name : String) :
    (∃ d ∈ s'.warnings.entries, d.code = .redefinition ∧
      d.message = "redefining global '" ++ scope.homeName ++ "/" ++ name ++ "'") ↔
    (g.isDefined scope.homeName name = true ∧
      (scope.homeName, name) ∈ nodes.flatMap Node.definitions) ∨
    2 ≤ (nodes.flatMap Node.definitions).count (scope.homeName, name) := by
  have hnone : ¬ Warned scope.homeName (.start g drawn) name := by
    rintro ⟨d, hd, -⟩
    cases hd
  have heffect := ((effect_redefinitions scope.homeName).unit h rfl).2 name
  rw [or_iff_right hnone] at heffect
  exact heffect

/-- The forms `(def a (def a 1))` and `(def b 2)`. -/
def redefiningForms : List Form :=
  [.parens [.name "def", .name "a", .parens [.name "def", .name "a", .int 1]],
    .parens [.name "def", .name "b", .int 2]]

/-- Where `b` is defined before and `c` is too, there are warnings about `a` and `b` only. -/
theorem warned_iff_redefined_redefiningForms :
    ∃ nodes s', unit redefiningForms .empty
        (.start (((default : Globals).define "user" "b").define "user" "c") 0) = .ok nodes s' ∧
      Warned "user" s' "a" ∧ Warned "user" s' "b" ∧ ¬ Warned "user" s' "c" := by
  have hrun : ((unit redefiningForms .empty).run'
      (.start (((default : Globals).define "user" "b").define "user" "c") 0)).any (fun nodes =>
        nodes.flatMap Node.definitions == [("user", "a"), ("user", "a"), ("user", "b")]) = true := by
    decide +kernel
  obtain ⟨nodes, s', hrun, hdefined⟩ := exists_ok_of_any hrun
  have hdefinitions := eq_of_beq hdefined
  have hwarned := warned_iff_redefined hrun
  rw [hdefinitions] at hwarned
  refine ⟨nodes, s', hrun, (hwarned "a").2 ?_, (hwarned "b").2 ?_, fun h => ?_⟩
  · decide
  · decide
  · exact absurd ((hwarned "c").1 h) (by decide)

end LarkPhp.Analysis
