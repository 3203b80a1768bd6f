import LarkPhp.Proofs.Naming
import LarkPhp.Proofs.Quotation

/-!
Identifiers.

A name becomes an identifier character by character: some characters have an escape, and all others
stay as they are.  So the identifier is one that the host accepts exactly if every character of the
name is accepted by the host or has an escape (`munge_accepted`), and a variable is one if the name
does not start with a digit either.  What a unit reads it has bound somewhere, so all its variables are
valid as soon as those of its binders are.

Escapes are underscores and capital letters, and a dash becomes an underscore as well.  Names without
underscores and capital letters can be read back all the same: underscores before capital letters are
dashes but for the last two, and the capital letters up to the next other character are one escape
(`unmunge_munge`).
-/

namespace LarkPhp

namespace Php

/-! ### Accepted characters -/

/-- Whether the host accepts the character in an identifier. -/
def isIdentifierChar (c : Char) : Bool := c.isAlphanum || c == '_' || 128 ≤ c.toNat

/-- Whether the text is a variable of the host: a sigil and an identifier, which does not start with a
digit. -/
def isVariable (t : String) : Bool :=
  match t.toList with
  | '$' :: c :: cs => !c.isDigit && (c :: cs).all isIdentifierChar
  | _ => false

/-- The characters that have an escape. -/
def escapedChars : List Char := ['-', '?', '!', '*', '>', '<', '=', '/', '+', '%', '&', '.', '\'']

/-- Whether the character becomes one that the host accepts, or several. -/
def isNameChar (c : Char) : Bool := isIdentifierChar c || escapedChars.contains c

/-- Whether the variable for the name is one of the host. -/
def isNameable (name : String) : Bool :=
  match name.toList with
  | [] => false
  | c :: cs => !c.isDigit && (c :: cs).all isNameChar

section Accepted
variable {c : Char} {name : String}

/-- A character without an escape stays as it is. -/
theorem mungeChar_of_not_escaped (h : c ∉ escapedChars) : mungeChar c = [c] := by
  unfold mungeChar
  split
  iterate 13 exact absurd (by decide) h
  rfl

theorem all_mungeChar (c : Char) : (mungeChar c).all isIdentifierChar = isNameChar c := by
  have hescaped : escapedChars.all (fun c =>
      (mungeChar c).all isIdentifierChar == isNameChar c) = true := by decide
  by_cases h : c ∈ escapedChars
  · exact beq_iff_eq.1 (List.all_eq_true.1 hescaped c h)
  · have hcontains : escapedChars.contains c = false := by simpa using h
    rw [mungeChar_of_not_escaped h, isNameChar, hcontains]
    simp

/-- No escape starts with a digit. -/
theorem exists_mungeChar_cons (c : Char) :
    ∃ d ds, mungeChar c = d :: ds ∧ d.isDigit = c.isDigit := by
  have hescaped : escapedChars.all (fun c =>
      (mungeChar c).head? == some '_' && !c.isDigit) = true := by decide
  by_cases h : c ∈ escapedChars
  · have hc := List.all_eq_true.1 hescaped c h
    rw [Bool.and_eq_true, beq_iff_eq, Bool.not_eq_true'] at hc
    obtain ⟨hhead, hdigit⟩ := hc
    obtain ⟨ds, hds⟩ := List.head?_eq_some_iff.1 hhead
    exact ⟨'_', ds, hds, hdigit.symm⟩
  · exact ⟨c, [], mungeChar_of_not_escaped h, rfl⟩

theorem all_munged (cs : List Char) :
    (cs.flatMap mungeChar).all isIdentifierChar = cs.all isNameChar := by
  rw [List.all_flatMap]
  simp only [all_mungeChar]

/-- **The host accepts an identifier if and only if it accepts or there are escapes for all characters
of the name.** -/
theorem munge_accepted (name : String) :
    (∀ c ∈ (munge name).toList, isIdentifierChar c = true) ↔
      ∀ c ∈ name.toList, isNameChar c = true := by
  rw [← List.all_eq_true, ← List.all_eq_true, munge, String.toList_ofList, all_munged]

theorem isVariable_variableName (name : String) : isVariable (variableName name) = isNameable name := by
  have hlist : (variableName name).toList = '$' :: name.toList.flatMap mungeChar := by
    rw [variableName, String.toList_append, munge]
    exact congrArg ('$' :: ·) String.toList_ofList
  unfold isVariable isNameable
  rw [hlist]
  cases name.toList with
  | nil => rfl
  | cons c cs =>
    obtain ⟨d, ds, hd, hdigit⟩ := exists_mungeChar_cons c
    have hall := all_munged (c :: cs)
    rw [List.flatMap_cons, hd, List.cons_append] at hall ⊢
    show (!d.isDigit && (d :: (ds ++ cs.flatMap mungeChar)).all isIdentifierChar) =
      (!c.isDigit && (c :: cs).all isNameChar)
    rw [hdigit, hall]

/-- Drawn symbols are spelled as identifiers. -/
theorem isNameable_fresh (k : Nat) : isNameable (Symbol.fresh k).name = true := by
  have hdigit : ∀ c ∈ Nat.toDigits 10 k, isNameChar c = true := by
    intro c hc
    simp [isNameChar, isIdentifierChar, Char.isAlphanum, isDigit_of_mem hc]
  have hword : "__lark_".toList.all isNameChar = true := by decide
  unfold isNameable
  rw [toList_fresh]
  show (!Char.isDigit '_' && ("__lark_".toList ++ Nat.toDigits 10 k).all isNameChar) = true
  rw [List.all_append, hword, List.all_eq_true.2 hdigit]
  rfl

end Accepted

/-! ### Reading identifiers back -/

/-- The name has neither underscores nor capital letters. -/
def Kebab (name : String) : Prop := ∀ c ∈ name.toList, c ≠ '_' ∧ c.isUpper = false

instance (name : String) : Decidable (Kebab name) :=
  List.decidableBAll (fun c => c ≠ '_' ∧ c.isUpper = false) name.toList

/-- The character whose escape has these letters. -/
def ofLetters? : List Char → Option Char
  | ['Q'] => some '?'
  | ['E'] => some '!'
  | ['S'] => some '*'
  | ['G', 'T'] => some '>'
  | ['L', 'T'] => some '<'
  | ['E', 'Q'] => some '='
  | ['S', 'L'] => some '/'
  | ['P'] => some '+'
  | ['P', 'C'] => some '%'
  | ['A'] => some '&'
  | ['D'] => some '.'
  | ['Q', 'T'] => some '\''
  | _ => none

/-- The characters that an identifier was made from.  Two underscores start an escape if capital
letters of one follow; any other underscore was a dash. -/
def unmunge : List Char → List Char
  | [] => []
  | '_' :: '_' :: cs =>
    match ofLetters? (cs.takeWhile Char.isUpper) with
    | some c => c :: unmunge (cs.dropWhile Char.isUpper)
    | none => '-' :: unmunge ('_' :: cs)
  | '_' :: cs => '-' :: unmunge cs
  | c :: cs => c :: unmunge cs
termination_by cs => cs.length
decreasing_by
  all_goals
    have := (List.dropWhile_sublist Char.isUpper (l := cs)).length_le
    simp only [List.length_cons]
    omega

/-- A text that does not go on with capital letters, nor with an underscore and capital letters: no
escape before it is longer than it was written, and no dash becomes part of one. -/
structure Separate (cs : List Char) : Prop where
  head : ∀ c ∈ cs.head?, c.isUpper = false
  behind : ∀ ds, cs = '_' :: ds → ∀ c ∈ ds.head?, c.isUpper = false

section Reading
variable {c : Char} {cs letters : List Char}

theorem unmunge_escape (hletters : ∀ l ∈ letters, l.isUpper = true) (hc : ofLetters? letters = some c)
    (h : Separate cs) : unmunge ('_' :: '_' :: (letters ++ cs)) = c :: unmunge cs := by
  obtain ⟨htake, hdrop⟩ := span_append hletters h.head
  rw [unmunge, htake, hc, hdrop]

theorem unmunge_dash (h : Separate cs) : unmunge ('_' :: cs) = '-' :: unmunge cs := by
  by_cases hunderscore : ∃ ds, cs = '_' :: ds
  · obtain ⟨ds, rfl⟩ := hunderscore
    -- two underscores, but the second one belongs to what follows: no capital letter is behind it
    have hletters : ∀ l ∈ ([] : List Char), l.isUpper = true := nofun
    have htake : ds.takeWhile Char.isUpper = [] := (span_append hletters (h.behind ds rfl)).1
    rw [unmunge, htake]
    rfl
  · rw [unmunge]
    exact fun ds hds => hunderscore ⟨ds, hds⟩

/-- What becomes of a character: nothing, an underscore, or an escape with letters of its own. -/
theorem mungeChar_cases (c : Char) :
    mungeChar c = [c] ∨ (c = '-' ∧ mungeChar c = ['_']) ∨
      ∃ letters, mungeChar c = '_' :: '_' :: letters ∧ (∀ l ∈ letters, l.isUpper = true) ∧
        ofLetters? letters = some c := by
  have hescaped : escapedChars.all (fun c => c == '-' && mungeChar c == ['_'] ||
      mungeChar c == '_' :: '_' :: (mungeChar c).drop 2 &&
        ((mungeChar c).drop 2).all Char.isUpper &&
        ofLetters? ((mungeChar c).drop 2) == some c) = true := by decide
  by_cases h : c ∈ escapedChars
  · have hc := List.all_eq_true.1 hescaped c h
    simp only [Bool.or_eq_true, Bool.and_eq_true, beq_iff_eq, List.all_eq_true] at hc
    rcases hc with hdash | ⟨⟨hmunge, hletters⟩, hof⟩
    · exact .inr (.inl hdash)
    · exact .inr (.inr ⟨_, hmunge, hletters, hof⟩)
  · exact .inl (mungeChar_of_not_escaped h)

theorem unmunge_mungeChar (hc : c ≠ '_') (h : Separate cs) :
    unmunge (mungeChar c ++ cs) = c :: unmunge cs := by
  rcases mungeChar_cases c with hmunge | ⟨rfl, hmunge⟩ | ⟨letters, hmunge, hletters, hof⟩
  · rw [hmunge, List.singleton_append, unmunge]
    · rintro _ rfl
      exact absurd rfl hc
    · exact hc
  · rw [hmunge, List.singleton_append, unmunge_dash h]
  · rw [hmunge, List.cons_append, List.cons_append, unmunge_escape hletters hof h]

theorem head?_munged (h : ∀ c ∈ cs, c.isUpper = false) :
    ∀ d ∈ (cs.flatMap mungeChar).head?, d.isUpper = false := by
  cases cs with
  | nil => nofun
  | cons c cs =>
    rw [List.flatMap_cons, List.head?_append]
    rcases mungeChar_cases c with hmunge | ⟨-, hmunge⟩ | ⟨letters, hmunge, -, -⟩
    · rw [hmunge]
      rintro d ⟨⟩
      exact h c List.mem_cons_self
    all_goals
      rw [hmunge]
      rintro d ⟨⟩
      rfl

theorem separate_munged (h : ∀ c ∈ cs, c ≠ '_' ∧ c.isUpper = false) :
    Separate (cs.flatMap mungeChar) := by
  refine ⟨head?_munged fun c hc => (h c hc).2, fun ds hds => ?_⟩
  cases cs with
  | nil => cases hds
  | cons c cs =>
    obtain ⟨hc, hcs⟩ := List.forall_mem_cons.1 h
    rw [List.flatMap_cons] at hds
    rcases mungeChar_cases c with hmunge | ⟨-, hmunge⟩ | ⟨letters, hmunge, -, -⟩
    · rw [hmunge] at hds
      exact absurd (List.cons.inj hds).1 hc.1
    · rw [hmunge] at hds
      rw [← (List.cons.inj hds).2]
      exact head?_munged fun c hc => (hcs c hc).2
    · rw [hmunge] at hds
      rw [← (List.cons.inj hds).2]
      rintro d ⟨⟩
      rfl

end Reading

/-- **A name without underscores and capital letters can be read back from its identifier.** -/
theorem unmunge_munge {name : String} (h : Kebab name) :
    unmunge (munge name).toList = name.toList := by
  have hall : ∀ cs : List Char, (∀ c ∈ cs, c ≠ '_' ∧ c.isUpper = false) →
      unmunge (cs.flatMap mungeChar) = cs := by
    intro cs
    induction cs with
    | nil => intro _; rw [List.flatMap_nil, unmunge]
    | cons c cs ih =>
      intro h
      obtain ⟨hc, hcs⟩ := List.forall_mem_cons.1 h
      rw [List.flatMap_cons, unmunge_mungeChar hc.1 (separate_munged hcs), ih hcs]
  rw [munge, String.toList_ofList, hall _ h]

/-- **Names without underscores and capital letters have different identifiers.** -/
theorem munge_injective {a b : String} (ha : Kebab a) (hb : Kebab b) (h : munge a = munge b) :
    a = b := by
  apply String.ext
  calc
    a.toList = unmunge (munge a).toList := (unmunge_munge ha).symm
    _ = unmunge (munge b).toList := by rw [h]
    _ = b.toList := unmunge_munge hb

/-- The names `-->?` and `--->?`: a dash, or two, before an escape. -/
theorem munge_injective_dashes :
    Kebab "-->?" ∧ Kebab "--->?" ∧ munge "-->?" = "____GT__Q" ∧ munge "--->?" = "_____GT__Q" ∧
      munge "-->?" ≠ munge "--->?" := by
  have ha : Kebab "-->?" := by decide
  have hb : Kebab "--->?" := by decide
  refine ⟨ha, hb, by decide, by decide, fun h => ?_⟩
  have hname := munge_injective ha hb h
  exact absurd hname (by decide)

end Php

/-! ### Variables of a unit -/

namespace Node

/-- The locals that the node binds: what a `let` or a loop sets, and the parameters of a function. -/
def binders : Node → List Symbol
  | function params _ _ _ _ => params
  | n => n.allocated

section Binders
variable {vars : List Symbol} {n : Node} {v : Symbol}

theorem mem_bindingParts {bs : List (Binding Node)} {body : Node} {p : List Symbol × Node}
    (hp : p ∈ bindingParts vars bs body) (hv : v ∈ p.1) : v ∈ vars ∨ v ∈ bs.map Binding.var := by
  induction bs generalizing vars with
  | nil =>
    cases List.mem_singleton.1 hp
    exact .inl hv
  | cons b bs ih =>
    rcases List.mem_cons.1 hp with rfl | hp
    · exact .inl hv
    · rcases ih hp with hv | hv
      · rcases List.mem_cons.1 hv with rfl | hv
        · exact .inr List.mem_cons_self
        · exact .inl hv
      · exact .inr (List.mem_cons_of_mem _ hv)

theorem mem_entered (h : v ∈ n.entered vars) : v ∈ vars ∨ v ∈ n.reads := by
  unfold entered at h
  split at h
  · next hwrapped =>
    have hreads : n.reads = if n.wrapped then n.scope.vars else [] := by
      cases n <;> first | rfl | cases hwrapped
    rw [hreads, if_pos hwrapped]
    exact .inr h
  · exact .inl h

/-- What is at hand below a node was at hand before, or the node reads or binds it. -/
theorem mem_parts {p : List Symbol × Node} (hp : p ∈ n.parts vars) (hv : v ∈ p.1) :
    v ∈ vars ∨ v ∈ n.reads ∨ v ∈ n.binders := by
  have hentered : v ∈ n.entered vars → v ∈ vars ∨ v ∈ n.reads ∨ v ∈ n.binders :=
    fun h => (mem_entered h).imp_right .inl
  cases n with
  | bindings bs body i =>
    rcases mem_bindingParts hp hv with h | h
    · exact hentered h
    · exact .inr (.inr h)
  | function params variadic uses body i =>
    cases List.mem_singleton.1 hp
    rcases List.mem_append.1 hv with h | h
    · exact .inr (.inr h)
    · exact .inr (.inl h)
  | loop value key coll body i =>
    rcases List.mem_cons.1 hp with rfl | hp
    · exact hentered hv
    · cases List.mem_singleton.1 hp
      simp only [List.mem_append, List.mem_cons] at hv
      rcases hv with h | rfl | h
      · exact .inr (.inr (List.mem_cons_of_mem _ h))
      · exact .inr (.inr List.mem_cons_self)
      · exact hentered h
  | _ =>
    obtain ⟨c, -, rfl⟩ := List.mem_map.1 hp
    exact hentered hv

/-- What holds of all variables at hand and of all binders holds of all that is read. -/
theorem Everywhere.reads {P : Symbol → Prop} (h : n.Everywhere Defined vars)
    (hvars : ∀ v ∈ vars, P v) (hbinders : ∀ m ∈ n.nodes, ∀ v ∈ m.binders, P v) :
    ∀ m ∈ n.nodes, ∀ v ∈ m.reads, P v := by
  induction h with
  | @intro vars n hdefined hparts ih =>
    have hreads : ∀ v ∈ n.reads, P v := fun v hv => hvars v (hdefined v hv)
    intro m hm
    rw [nodes_eq] at hm
    rcases List.mem_append.1 hm with hm | hm
    · obtain ⟨c, hc, hm⟩ := List.mem_flatMap.1 hm
      rw [← n.parts_snd vars] at hc
      obtain ⟨p, hp, rfl⟩ := List.mem_map.1 hc
      have hchild : p.2 ∈ n.children := n.parts_snd vars ▸ List.mem_map_of_mem hp
      refine ih p hp (fun v hv => ?_) (fun k hk => hbinders k (mem_nodes_of_child hchild hk)) m hm
      rcases mem_parts hp hv with h | h | h
      · exact hvars v h
      · exact hreads v h
      · exact hbinders n n.mem_nodes_self v h
    · rw [List.mem_singleton.1 hm]
      exact hreads

end Binders

end Node

namespace Analysis

open Php

/-- **Identifiers and variables.**  An identifier is made of characters that the host accepts exactly
if each character of the name is accepted or has an escape, and a variable is one of the host exactly
if the name does not start with a digit either; so it is for all drawn symbols.  In a unit that nothing
is bound around, all variables that are read, taken over or bound are variables of the host if and only
if the names of its binders are such names. -/
theorem unit_identifiers (name : String) (k : Nat) (forms : List Form) (scope : Scope) (s s' : State)
    (nodes : List Node) :
    ((∀ c ∈ (munge name).toList, isIdentifierChar c = true) ↔
      ∀ c ∈ name.toList, isIdentifierChar c = true ∨ c ∈ escapedChars) ∧
    isVariable (variableName name) = isNameable name ∧
    isNameable (Symbol.fresh k).name = true ∧
    (scope.locals = [] → scope.shadows = [] → unit forms scope s = .ok nodes s' →
      ((∀ root ∈ nodes, ∀ n ∈ root.nodes, ∀ v ∈ n.reads ++ n.binders, isVariable (var v) = true) ↔
        ∀ root ∈ nodes, ∀ n ∈ root.nodes, ∀ v ∈ n.binders, isNameable v.name = true)) := by
  refine ⟨?_, isVariable_variableName name, isNameable_fresh k, ?_⟩
  · simpa [isNameChar] using munge_accepted name
  · intro hlocals hshadows h
    have hvar : ∀ v : Symbol, isVariable (var v) = true ↔ isNameable v.name = true := by
      intro v
      rw [var, isVariable_variableName]
    simp only [List.forall_mem_append, hvar]
    refine ⟨fun hall root hroot n hn => (hall root hroot n hn).2, fun hbinders root hroot n hn => ?_⟩
    have hdefined : root.Everywhere Node.Defined [] :=
      fits_all (unit_induction fits_step h) root hroot [] (.nil hlocals hshadows)
    exact ⟨hdefined.reads nofun (hbinders root hroot) n hn, hbinders root hroot n hn⟩

/-- `(fn [a? & more*] (let [x->y a? a? 2] (foreach [k' v more*] (php/f x->y k' v))))`: binders of all
kinds with escapes in their names, and one that is bound again. -/
def escapedBindersForm : Form :=
  .parens [.name "fn", .brackets [.name "a?", .name "&", .name "more*"],
    .parens [.name "let", .brackets [.name "x->y", .name "a?", .name "a?", .int 2],
      .parens [.name "foreach", .brackets [.name "k'", .name "v", .name "more*"],
        .parens [.symbol (.qualified "php" "f") none, .name "x->y", .name "k'", .name "v"]]]]

theorem unit_identifiers_escaped :
    Scope.empty.locals = [] ∧ Scope.empty.shadows = [] ∧
      ∃ nodes s, unit [escapedBindersForm] .empty (.start default 0) = .ok nodes s ∧
        (nodes.flatMap fun root => root.nodes.flatMap Node.binders).length = 6 ∧
        (∀ root ∈ nodes, ∀ n ∈ root.nodes, ∀ v ∈ n.binders, isNameable v.name = true) ∧
        ∀ root ∈ nodes, ∀ n ∈ root.nodes, ∀ v ∈ n.reads ++ n.binders, isVariable (var v) = true := by
  have hfound : ((unit [escapedBindersForm] .empty).run' (.start default 0)).any (fun nodes =>
      decide ((nodes.flatMap fun root => root.nodes.flatMap Node.binders).length = 6 ∧
        ∀ root ∈ nodes, ∀ n ∈ root.nodes, ∀ v ∈ n.binders, isNameable v.name = true)) = true := by
    decide +kernel
  obtain ⟨nodes, s, hrun, hfound⟩ := exists_ok_of_any hfound
  obtain ⟨hlength, hbinders⟩ := of_decide_eq_true hfound
  exact ⟨rfl, rfl, nodes, s, hrun, hlength, hbinders,
    ((unit_identifiers "a?" 0 _ _ _ _ _).2.2.2 rfl rfl hrun).2 hbinders⟩

/-- `(let [a#b 1] (php/f a#b))`: a binder with a character that the host does not accept. -/
def unescapedBinderForm : Form :=
  .parens [.name "let", .brackets [.name "a#b", .int 1],
    .parens [.symbol (.qualified "php" "f") none, .name "a#b"]]

/-- What has no escape stays in the identifier, and the variable is none of the host. -/
theorem unit_identifiers_unescaped :
    munge "a#b" = "a#b" ∧ isIdentifierChar '#' = false ∧
      ∃ nodes s, unit [unescapedBinderForm] .empty (.start default 0) = .ok nodes s ∧
        program .standard nodes = "$a#b = 1;\nf($a#b);\n" ∧
        ∃ root ∈ nodes, ∃ n ∈ root.nodes, ∃ v ∈ n.binders, isVariable (var v) = false := by
  have hfound : ((unit [unescapedBinderForm] .empty).run' (.start default 0)).any (fun nodes =>
      decide (program .standard nodes = "$a#b = 1;\nf($a#b);\n" ∧
        ∃ root ∈ nodes, ∃ n ∈ root.nodes, ∃ v ∈ n.binders, isVariable (var v) = false)) = true := by
    decide +kernel
  obtain ⟨nodes, s, hrun, hfound⟩ := exists_ok_of_any hfound
  exact ⟨by decide, by decide, nodes, s, hrun, of_decide_eq_true hfound⟩

end Analysis

end LarkPhp
