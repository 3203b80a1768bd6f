import Mathlib.Data.Finmap
import LarkPhp.Expanders
import LarkPhp.Proofs.FunctionScope

/-!
The globals as a map.

Seen from outside, globals are a map that says of a name in a namespace whether it is a plain definition
or a macro.  They are kept in two tables, one of the defined names and one of the expanders, and the
changes do not treat them alike: a name that is undefined keeps its expander, so that it is a macro again
as soon as it is defined again.  A second difference is in the answers: the name of a definition is read
as if it had been written, so that a `/` in it ends a namespace.  In everything else the globals are the
map, along all sequences of changes (`run_refines`).
-/

namespace LarkPhp

/-! ### Changes -/

/-- A change of the globals. -/
inductive Change where
  | define (home name : String)
  | undefine (home name : String)
  | addExpander (home name : String) (expander : Expander)

namespace Change

/-- The answers to a sequence of changes, and what it leads to. -/
def run {σ : Type} (change : σ → Change → Option Bool × σ) : σ → List Change → List (Option Bool) × σ
  | s, [] => ([], s)
  | s, c :: cs =>
    let rest := run change (change s c).2 cs
    ((change s c).1 :: rest.1, rest.2)

/-- The expander that was registered last for a name. -/
def registered : List Change → String × String → Option Expander
  | [], _ => none
  | .addExpander home name e :: cs, k =>
    (registered cs k).or (if k = (home, name) then some e else none)
  | _ :: cs, k => registered cs k

end Change

/-- Makes a change.  The answer to a definition is whether the name is new, that to its removal whether
the name was there. -/
def Globals.change (g : Globals) : Change → Option Bool × Globals
  | .define home name => (some (!g.isDefined home name), g.define home name)
  | .undefine home name => (some (g.isDefined home name), g.undefine home name)
  | .addExpander home name e => (none, g.addExpander home name e)

/-! ### The map -/

/-- What a name is defined as. -/
inductive Standing where
  | definition
  | expander (expander : Expander)

/-- The names that are defined, each in its namespace, and what they are defined as. -/
abbrev Register := Finmap fun _ : String × String => Standing

namespace Register

/-- Adds a definition.  A name that is there stays what it is. -/
def define (m : Register) (home name : String) : Register :=
  if (home, name) ∈ m then m else m.insert (home, name) .definition

/-- Makes a change. -/
def change (m : Register) : Change → Option Bool × Register
  | .define home name => (some (decide ((home, name) ∉ m)), m.define home name)
  | .undefine home name => (some (decide ((home, name) ∈ m)), m.erase (home, name))
  | .addExpander home name e => (none, m.insert (home, name) (.expander e))

/-- Number of names of a namespace. -/
def count (m : Register) (home : String) : Nat := (m.keys.filter (·.1 = home)).card

/-- What a name of a namespace refers to, if a definition brings back the expander `revived`. -/
def find (m : Register) (revived : String × String → Option Expander) (home name : String) :
    Resolution :=
  match m.lookup (home, name) with
  | none => .unresolved
  | some (.expander e) => .expander (.qualified home name) e
  | some .definition =>
    match revived (home, name) with
    | some e => .expander (.qualified home name) e
    | none => .global home (.ofWritten name)

/-- What a symbol refers to.  Drawn symbols refer to nothing, qualified ones to their own namespace
only, others to the namespace around them or else to the core namespace. -/
def resolve (m : Register) (revived : String × String → Option Expander) (core : String)
    (x : Symbol) (home : String) : Resolution :=
  if x.generated then .unresolved
  else
    match x.qualifier with
    | some own => m.find revived own x.name
    | none =>
      if (home, x.name) ∈ m then m.find revived home x.name else m.find revived core x.name

end Register

namespace Globals

/-! ### One change -/

theorem lookup_addExpander (g : Globals) (home name : String) (e : Expander) (k : String × String) :
    (g.addExpander home name e).expanders.lookup k =
      if k = (home, name) then some e else g.expanders.lookup k := by
  unfold addExpander
  by_cases hk : k = (home, name)
  · rw [if_pos hk, hk]
    exact List.lookup_cons_self
  · have hne : (k == (home, name)) = false := beq_eq_false_iff_ne.2 hk
    have hothers : (g.expanders.filter (·.1 != (home, name))).lookup k = g.expanders.lookup k :=
      lookup_filter_of_pos (p := fun f => f.1 != (home, name)) (fun _ => bne_iff_ne.2 hk) _
    rw [if_neg hk, List.lookup_cons, hne]
    exact hothers

/-- Where nothing is found in the namespace around a symbol, the name is not defined there. -/
theorem resolveIn_or_core (g : Globals) (home name : String) :
    (match g.resolveIn home name with
      | .unresolved => g.resolveIn g.core name
      | found => found) =
      if g.isDefined home name then g.resolveIn home name else g.resolveIn g.core name := by
  unfold resolveIn
  cases g.isDefined home name with
  | false => rfl
  | true =>
    simp only [if_true]
    cases g.expanders.lookup (home, name) <;> rfl

/-- The globals have the names of the map, and the expanders of its macros. -/
structure Registers (g : Globals) (m : Register) : Prop where
  nodup : g.defined.Nodup
  mem_iff (k : String × String) : k ∈ g.defined ↔ k ∈ m
  expander {k : String × String} {e : Expander} :
    m.lookup k = some (.expander e) → g.expanders.lookup k = some e

namespace Registers
variable {g : Globals} {m : Register} (h : g.Registers m) (home name : String)
include h

theorem isDefined_eq : g.isDefined home name = decide ((home, name) ∈ m) := by
  rw [Bool.eq_iff_iff, isDefined_iff, h.mem_iff, decide_eq_true_iff]

theorem define : (g.define home name).Registers (m.define home name) := by
  unfold Register.define
  split
  · next hin =>
    have hdefined : (g.define home name).defined = g.defined :=
      Distinct.add_of_contains ((isDefined_iff g home name).2 ((h.mem_iff _).2 hin))
    exact ⟨hdefined ▸ h.nodup, hdefined ▸ h.mem_iff, h.expander⟩
  · next hout =>
    refine ⟨Distinct.nodup_add h.nodup _, fun k => ?_, fun {k e} hk => ?_⟩
    · rw [Finmap.mem_insert, ← h.mem_iff, or_comm]
      exact Distinct.mem_add
    · by_cases hkey : k = (home, name)
      · rw [hkey, Finmap.lookup_insert] at hk
        cases hk
      · rw [Finmap.lookup_insert_of_ne _ hkey] at hk
        exact h.expander hk

theorem undefine : (g.undefine home name).Registers (m.erase (home, name)) := by
  refine ⟨h.nodup.filter _, fun k => ?_, fun {k e} hk => ?_⟩
  · rw [Finmap.mem_erase, ← h.mem_iff, and_comm]
    simp [Globals.undefine]
  · by_cases hkey : k = (home, name)
    · rw [hkey, Finmap.lookup_erase] at hk
      cases hk
    · rw [Finmap.lookup_erase_ne hkey] at hk
      exact h.expander hk

theorem addExpander (e : Expander) :
    (g.addExpander home name e).Registers (m.insert (home, name) (.expander e)) := by
  refine ⟨Distinct.nodup_add h.nodup _, fun k => ?_, fun {k e'} hk => ?_⟩
  · rw [Finmap.mem_insert, ← h.mem_iff, or_comm]
    exact Distinct.mem_add
  · rw [lookup_addExpander]
    by_cases hkey : k = (home, name)
    · rw [hkey, Finmap.lookup_insert] at hk
      cases hk
      exact if_pos hkey
    · rw [Finmap.lookup_insert_of_ne _ hkey] at hk
      rw [if_neg hkey]
      exact h.expander hk

/-- **A change has the same answer on both sides, and the two go on together.** -/
theorem change (c : Change) :
    (g.change c).1 = (m.change c).1 ∧ (g.change c).2.Registers (m.change c).2 := by
  cases c with
  | define home name =>
    refine ⟨congrArg some ?_, h.define home name⟩
    rw [h.isDefined_eq, decide_not]
  | undefine home name =>
    exact ⟨congrArg some (h.isDefined_eq home name), h.undefine home name⟩
  | addExpander home name e => exact ⟨rfl, h.addExpander home name e⟩

/-- **So does a sequence of changes.** -/
theorem run (cs : List Change) :
    (Change.run Globals.change g cs).1 = (Change.run Register.change m cs).1 ∧
      (Change.run Globals.change g cs).2.Registers (Change.run Register.change m cs).2 := by
  induction cs generalizing g m with
  | nil => exact ⟨rfl, h⟩
  | cons c cs ih =>
    obtain ⟨hanswer, hchange⟩ := h.change c
    obtain ⟨hanswers, hrun⟩ := ih hchange
    exact ⟨congrArg₂ _ hanswer hanswers, hrun⟩

theorem count_eq : g.count home = m.count home := by
  have hkeys : g.defined.toFinset = m.keys := by
    ext k
    rw [List.mem_toFinset, Finmap.mem_keys, h.mem_iff]
  unfold count Register.count
  rw [← hkeys, List.countP_eq_length_filter, ← List.toFinset_card_of_nodup (h.nodup.filter _),
    List.toFinset_filter]
  simp

variable {revived : String × String → Option Expander}
  (hrevived : ∀ k, g.expanders.lookup k = revived k)
include hrevived

theorem resolveIn_eq : g.resolveIn home name = m.find revived home name := by
  unfold resolveIn Register.find
  rw [h.isDefined_eq]
  cases hk : m.lookup (home, name) with
  | none =>
    rw [decide_eq_false (Finmap.lookup_eq_none.1 hk)]
    rfl
  | some standing =>
    rw [decide_eq_true (Finmap.mem_iff.2 ⟨standing, hk⟩), if_pos rfl]
    cases standing with
    | definition =>
      have hlookup := hrevived (home, name)
      cases hr : revived (home, name) with
      | none => rw [hlookup, hr]
      | some e => rw [hlookup, hr]
    | expander e => rw [h.expander hk]

theorem resolve_eq (x : Symbol) : g.resolve x home = m.resolve revived g.core x home := by
  unfold resolve Register.resolve
  cases x.generated with
  | true => rfl
  | false =>
    cases x.qualifier with
    | some own => exact h.resolveIn_eq own x.name hrevived
    | none =>
      refine (resolveIn_or_core g home x.name).trans ?_
      rw [h.isDefined_eq, h.resolveIn_eq _ _ hrevived, h.resolveIn_eq _ _ hrevived]
      simp only [decide_eq_true_eq]
      rfl

end Registers

/-! ### Sequences of changes -/

theorem core_run (g : Globals) (cs : List Change) : (Change.run change g cs).2.core = g.core := by
  induction cs generalizing g with
  | nil => rfl
  | cons c cs ih =>
    have hcore : (g.change c).2.core = g.core := by cases c <;> rfl
    exact (ih _).trans hcore

/-- Expanders are only ever replaced. -/
theorem lookup_run (g : Globals) (cs : List Change) (k : String × String) :
    (Change.run change g cs).2.expanders.lookup k =
      (Change.registered cs k).or (g.expanders.lookup k) := by
  induction cs generalizing g with
  | nil => rfl
  | cons c cs ih =>
    refine (ih (g.change c).2).trans ?_
    cases c with
    | addExpander home name e =>
      show (Change.registered cs k).or ((g.addExpander home name e).expanders.lookup k) =
        ((Change.registered cs k).or (if k = (home, name) then some e else none)).or _
      rw [lookup_addExpander, Option.or_assoc]
      split <;> rfl
    | _ => rfl

/-- **The globals are the map, along all sequences of changes:** they give the same answers to the
changes, have the same names, and find for a symbol what the map holds for it.  But a definition brings
back the last expander of its name, if there ever was one, and the name of a definition is read as if it
had been written. -/
theorem run_refines (core : String) (changes : List Change) :
    let globals := Change.run Globals.change (.empty core) changes
    let register := Change.run Register.change ∅ changes
    globals.1 = register.1 ∧
    (∀ home name, globals.2.isDefined home name = decide ((home, name) ∈ register.2)) ∧
    (∀ home, globals.2.count home = register.2.count home) ∧
    ∀ x home, globals.2.resolve x home =
      register.2.resolve (Change.registered changes) core x home := by
  intro globals register
  have hempty : (Globals.empty core).Registers ∅ :=
    ⟨List.nodup_nil, fun k => iff_of_false List.not_mem_nil Finmap.notMem_empty,
      fun {k _} hk => by rw [Finmap.lookup_empty] at hk; cases hk⟩
  obtain ⟨hanswers, hrun⟩ := hempty.run changes
  have hrevived : ∀ k, globals.2.expanders.lookup k = Change.registered changes k := by
    intro k
    rw [lookup_run]
    exact Option.or_none
  refine ⟨hanswers, hrun.isDefined_eq, hrun.count_eq, fun x home => ?_⟩
  have hcore : globals.2.core = core := core_run _ _
  rw [hrun.resolve_eq home hrevived x, hcore]

/-- A macro is registered, withdrawn and defined as something else. -/
def revival : List Change :=
  [.addExpander "user" "m" Expander.identity, .undefine "user" "m", .define "user" "m"]

/-- A name is defined that looks as if it had a namespace. -/
def splitting : List Change := [.define "user" "a/b"]

/-- The map holds a definition in both cases, but the first one is found as a macro, and the second one
under a part of its name. -/
theorem resolve_revived_split :
    ((Change.run Register.change ∅ revival).2.lookup ("user", "m") = some .definition ∧
      (Change.run change (.empty defaultCore) revival).2.resolve (.plain "m") "user" =
        .expander (.qualified "user" "m") Expander.identity) ∧
    ((Change.run Register.change ∅ splitting).2.lookup ("user", "a/b") = some .definition ∧
      (Change.run change (.empty defaultCore) splitting).2.resolve (.qualified "user" "a/b") "user" =
        .global "user" (.qualified "a" "b")) :=
  ⟨⟨rfl, rfl⟩, rfl, rfl⟩

end Globals

end LarkPhp
