import LarkPhp.Proofs.Operands
import LarkPhp.Proofs.Slots

/-!
Integers.

The host has no negative literals: a sign is an operator, and what it is applied to is a decimal
literal, which denotes an integer up to 2⁶³ - 1 and a double from there on.  `readOperand` reads a
number in this way, between what stands before and behind it.

A node writes each of its operands between two texts, whatever the operand is (`fills_slot`).  So
an integer is read as it was meant wherever it stands, with two exceptions: the magnitude of -2⁶³ is
too large for an integer, and operators that stand next to a number without parentheses may run into
it or take its digits away from its sign (`Node.Slot.crowds`).
-/

namespace LarkPhp

namespace Php

/-! ### Numbers of the host -/

/-- What a number of the host denotes. -/
inductive Number where
  | integer (n : Int)
  /-- The double that is nearest to a number. -/
  | double (n : Int)
deriving DecidableEq

namespace Number

/-- What a decimal literal denotes: an integer up to 2⁶³ - 1. -/
def ofMagnitude (k : Nat) : Number := if k ≤ 9223372036854775807 then .integer k else .double k

/-- What a sign makes of a number. -/
def negated : Number → Number
  | integer n => integer (-n)
  | double n => double (-n)

/-- What is read where an integer is written with sign and digits. -/
def ofWritten (m : Int64) : Number :=
  if m = Int64.minValue then .double m.toInt else .integer m.toInt

end Number

/-- Whether a number goes on with the character: with more digits, a fraction, an exponent, or as one
of another base. -/
def extendsNumber (c : Char) : Bool := isWordChar c || c == '.'

/-- Reads a decimal literal.  Digits behind a zero are no decimal ones. -/
def readDecimal (cs : List Char) : Option (Number × List Char) :=
  let digits := cs.takeWhile Char.isDigit
  let rest := cs.dropWhile Char.isDigit
  if digits = [] ∨ (digits.head? = some '0' ∧ digits ≠ ['0']) ∨
      rest.head?.any extendsNumber = true then none
  else some (.ofMagnitude (Nat.ofDigitChars 10 digits 0), rest)

/-- Whether two characters that stand next to each other are read as part of one token: of a word, of
a number that starts with its point, or of a longer sign. -/
def glues (a b : Char) : Bool :=
  ((isWordChar a || a == '$') && isWordChar b) || (a == '.' && b.isDigit) ||
    signTokens.any fun t => (t.toList.zip t.toList.tail).contains (a, b)

/-- What binds its operand stronger than a sign does. -/
def tightTokens : List String := ["**", "++", "--", "[", "(", "->", "?->", "::"]

/-- Whether the text takes the operand before it away from its sign. -/
def takesOperand (cs : List Char) : Bool :=
  tightTokens.any fun t => t.toList.isPrefixOf (cs.dropWhile (· == ' '))

/-- Reads an operand that is a number, a decimal literal with or without a sign, behind some text.
There is none if a token before it goes on into it, or if the sign belongs to more than the
literal. -/
def readOperand (before cs : List Char) : Option (Number × List Char) :=
  if before.getLast?.any (fun a => cs.head?.any (glues a)) = true then none
  else if cs.head? = some '-' then
    (readDecimal cs.tail).bind fun (k, rest) =>
      if takesOperand rest then none else some (k.negated, rest)
  else readDecimal cs

section Numbers
variable {k : Nat} {rest : List Char}

/-- No number but zero starts with a zero. -/
theorem head?_toDigits (h : 0 < k) : (Nat.toDigits 10 k).head? ≠ some '0' := by
  induction k using Nat.strongRecOn with
  | ind k ih =>
    by_cases hk : k < 10
    · have hsmall : ∀ k < 10, 0 < k → ([k.digitChar].head? ≠ some '0') := by decide
      rw [Nat.toDigits_of_lt_base hk]
      exact hsmall k hk h
    · -- the first digit is that of a tenth of the number, which is not zero either
      rw [Nat.toDigits_of_base_le (by decide) (by omega),
        List.head?_append_of_ne_nil _ Nat.toDigits_ne_nil]
      exact ih (k / 10) (by omega) (by omega)

theorem readDecimal_toDigits (k : Nat) (hrest : ∀ c ∈ rest.head?, extendsNumber c = false) :
    readDecimal (Nat.toDigits 10 k ++ rest) = some (.ofMagnitude k, rest) := by
  have hdigit : ∀ c ∈ Nat.toDigits 10 k, c.isDigit = true := fun c hc => isDigit_of_mem hc
  have hstop : ∀ c ∈ rest.head?, c.isDigit = false := by
    intro c hc
    rw [Bool.eq_false_iff]
    intro hdigit
    have hextends := hrest c hc
    rw [extendsNumber, isWordChar_of_isDigit hdigit] at hextends
    cases hextends
  obtain ⟨htake, hdrop⟩ := span_append hdigit hstop
  have hzero : ¬((Nat.toDigits 10 k).head? = some '0' ∧ Nat.toDigits 10 k ≠ ['0']) := by
    rintro ⟨hhead, hne⟩
    rcases Nat.eq_zero_or_pos k with rfl | hk
    · exact hne rfl
    · exact head?_toDigits hk hhead
  have hany : rest.head?.any extendsNumber = false := (Option.any_eq_false _ _).2 hrest
  unfold readDecimal
  simp only [htake, hdrop, hany, Nat.toDigits_ne_nil, hzero, Nat.ofDigitChars_ten_toDigits]
  rfl

/-- The magnitude of no negative integer but the least one is too large. -/
theorem negated_ofMagnitude {m : Int64} (h : m.toInt < 0) :
    (Number.ofMagnitude (-m.toInt).toNat).negated = .ofWritten m := by
  have hleast := m.le_toInt
  have hcast : ((-m.toInt).toNat : Int) = -m.toInt := Int.toNat_of_nonneg (by omega)
  unfold Number.ofMagnitude Number.ofWritten
  by_cases hm : m = Int64.minValue
  · subst hm
    rfl
  · have hne : m.toInt ≠ -2 ^ 63 := fun heq => hm (Int64.toInt_inj.1 heq)
    rw [if_pos (by omega), if_neg hm, Number.negated, hcast, Int.neg_neg]

theorem ofMagnitude_toNat {m : Int64} (h : 0 ≤ m.toInt) :
    Number.ofMagnitude m.toInt.toNat = .ofWritten m := by
  have hlargest := m.toInt_lt
  have hcast : (m.toInt.toNat : Int) = m.toInt := Int.toNat_of_nonneg h
  have hm : m ≠ Int64.minValue := by
    rintro rfl
    exact absurd h (by decide)
  unfold Number.ofMagnitude Number.ofWritten
  rw [if_pos (by omega), if_neg hm, hcast]

/-- What is written for an integer is read as such, if no token before it goes on into it and nothing
takes its digits away from the sign. -/
theorem readOperand_toString (m : Int64) (before : List Char)
    (hrest : ∀ c ∈ rest.head?, extendsNumber c = false) :
    readOperand before ((toString m.toInt).toList ++ rest) =
      if before.getLast?.any (fun a => (toString m.toInt).toList.head?.any (glues a)) = true ∨
          m.toInt < 0 ∧ takesOperand rest = true then none
      else some (.ofWritten m, rest) := by
  rw [toList_toString_int, readOperand]
  by_cases hsign : 0 ≤ m.toInt
  · obtain ⟨c, cs, hcs⟩ :=
      List.exists_cons_of_ne_nil (Nat.toDigits_ne_nil (n := m.toInt.toNat) (b := 10))
    have hread := readDecimal_toDigits m.toInt.toNat hrest
    have hc : c ≠ '-' := by
      rintro rfl
      cases isDigit_of_mem (hcs ▸ List.mem_cons_self)
    rw [hcs, List.cons_append, ofMagnitude_toNat hsign] at hread
    rw [if_pos hsign, hcs]
    simp [hc, hread, Int.not_lt.2 hsign]
  · have hnegative : m.toInt < 0 := Int.not_le.1 hsign
    have hread := readDecimal_toDigits (-m.toInt).toNat hrest
    by_cases hglued : before.getLast?.any (glues · '-') = true <;>
      simp [hsign, hglued, hread, hnegative, negated_ofMagnitude hnegative]

end Numbers

/-! ### What stands next to an integer -/

section Neighbours
variable {leading following : Option String} {before after : String}

/-- The last character before an operand is that of the operator, or of none. -/
theorem Behind.any_getLast? (h : Behind leading before) {p : Char → Bool} {q : String → Bool}
    (hopened : ∀ t ∈ openers, t.toList.getLast?.any p = false)
    (hoperator : ∀ operator ∈ hostOperators, operator.toList.getLast?.any p = q operator) :
    before.toList.getLast?.any p = leading.any q := by
  have hlast : ∀ {t : String}, t.toList ≠ [] → t.toList <:+ before.toList →
      before.toList.getLast? = t.toList.getLast? := by
    rintro t hne ⟨start, hstart⟩
    rw [← hstart, List.getLast?_append_of_ne_nil _ hne]
  cases leading with
  | none =>
    obtain ⟨t, ht, hend⟩ := h
    have hne : ∀ t ∈ openers, t.toList ≠ [] := by decide
    rw [hlast (hne t ht) hend, hopened t ht]
    rfl
  | some operator =>
    have hmem : operator ∈ hostOperators := List.contains_iff_mem.1 h.1
    have hne : ∀ operator ∈ hostOperators, operator.toList ≠ [] := by decide
    rw [hlast (hne operator hmem) h.2, hoperator operator hmem]
    rfl

/-- A digit is read with words, with the names of variables, and with a point before it. -/
theorem glues_of_isDigit {c : Char} (h : c.isDigit = true) (a : Char) :
    glues a c = (isWordChar a || a == '$' || a == '.') := by
  have hsigns : signTokens.all (fun t => t.toList.all (!Char.isDigit ·)) = true := by decide
  have hno : (signTokens.any fun t => (t.toList.zip t.toList.tail).contains (a, c)) = false := by
    refine List.any_eq_false.2 fun t ht hpair => ?_
    have hmem : c ∈ t.toList :=
      List.mem_of_mem_tail (List.of_mem_zip (List.contains_iff_mem.1 hpair)).2
    have hsign := List.all_eq_true.1 (List.all_eq_true.1 hsigns t ht) c hmem
    rw [h] at hsign
    cases hsign
  rw [glues, hno, isWordChar_of_isDigit h, h, Bool.and_true, Bool.and_true, Bool.or_false]

/-- What runs into an integer are the operators that clash with it. -/
theorem Behind.any_glues (h : Behind leading before) (m : Int64) :
    before.toList.getLast?.any (fun a => (toString m.toInt).toList.head?.any (glues a)) =
      leading.any (fun operator => clashes.contains (operator, valueOpening (.int m))) := by
  rw [toList_toString_int, valueOpening]
  split
  · obtain ⟨c, cs, hcs⟩ :=
      List.exists_cons_of_ne_nil (Nat.toDigits_ne_nil (n := m.toInt.toNat) (b := 10))
    have hc : c.isDigit = true := isDigit_of_mem (hcs ▸ List.mem_cons_self)
    simp only [hcs, List.head?_cons, Option.any_some, glues_of_isDigit hc]
    exact h.any_getLast? (by decide) (by decide)
  · exact h.any_getLast? (p := (glues · '-')) (by decide) (by decide)

/-- What holds of all texts that start with a mark or an operator holds of what follows an operand. -/
theorem Ahead.induction (h : Ahead following after) {P : Option String → List Char → Prop}
    (hclosed : ∀ t ∈ closers, ∀ rest, P none (t.toList ++ rest))
    (hoperator : ∀ operator ∈ hostOperators, ∀ rest,
      P (some operator) ((" " ++ operator ++ " ").toList ++ rest)) : P following after.toList := by
  cases following with
  | none =>
    obtain ⟨t, ht, rest, hrest⟩ := h
    rw [← hrest]
    exact hclosed t ht rest
  | some operator =>
    obtain ⟨hop, rest, hrest⟩ := h
    rw [← hrest]
    exact hoperator operator (List.contains_iff_mem.1 hop) rest

/-- No number goes on into what follows it. -/
theorem Ahead.not_extends (h : Ahead following after) :
    ∀ c ∈ after.toList.head?, extendsNumber c = false := by
  have hclosed : ∀ t ∈ closers, t.toList ≠ [] ∧ t.toList.head?.any extendsNumber = false := by decide
  have hspace : ∀ operator : String, (" " ++ operator ++ " ").toList =
      ' ' :: (operator ++ " ").toList := by
    intro operator
    rw [String.append_assoc, String.toList_append]
    rfl
  refine h.induction (P := fun _ cs => ∀ c ∈ cs.head?, extendsNumber c = false) ?_ ?_
  · intro t ht rest
    rw [List.head?_append_of_ne_nil _ (hclosed t ht).1]
    exact fun c hc => (Option.any_eq_false _ _).1 (hclosed t ht).2 c hc
  · intro operator _ rest
    rw [hspace]
    rintro c ⟨⟩
    decide

/-- Whether no token that takes an operand is longer than the text, spaces before it aside. -/
def settled (t : List Char) : Bool :=
  let u := t.dropWhile (· == ' ')
  !u.isEmpty && tightTokens.all fun k => !u.isPrefixOf k.toList || k.toList.isPrefixOf u

/-- Whether an operand is taken does not depend on what comes later. -/
theorem takesOperand_append {t : List Char} (h : settled t = true) (rest : List Char) :
    takesOperand (t ++ rest) = takesOperand t := by
  obtain ⟨hne, hall⟩ := Bool.and_eq_true_iff.1 h
  have hdrop : (t ++ rest).dropWhile (· == ' ') = t.dropWhile (· == ' ') ++ rest := by
    rw [List.dropWhile_append, if_neg (by simpa using hne)]
  rw [Bool.eq_iff_iff]
  simp only [takesOperand, hdrop, List.any_eq_true, List.isPrefixOf_iff_prefix]
  refine exists_congr fun k => and_congr_right fun hk => ⟨fun hstart => ?_, fun hstart => ?_⟩
  -- a token at the start of the longer text is part of `t` or goes beyond it, which none does
  · rcases List.prefix_or_prefix_of_prefix hstart (List.prefix_append _ rest) with hshort | hlong
    · exact hshort
    · have hwhole := List.all_eq_true.1 hall k hk
      rw [List.isPrefixOf_iff_prefix.2 hlong] at hwhole
      exact List.isPrefixOf_iff_prefix.1 hwhole
  · exact hstart.trans (List.prefix_append _ rest)

/-- Of all operators `**` alone takes an operand away from its sign. -/
theorem Ahead.takesOperand_eq (h : Ahead following after) :
    takesOperand after.toList = (following == some "**") := by
  have hclosed : ∀ t ∈ closers, settled t.toList = true ∧ takesOperand t.toList = false := by decide
  have hoperator : ∀ operator ∈ hostOperators, settled (" " ++ operator ++ " ").toList = true ∧
      takesOperand (" " ++ operator ++ " ").toList = (operator == "**") := by decide
  refine h.induction (P := fun following cs => takesOperand cs = (following == some "**")) ?_ ?_
  · intro t ht rest
    rw [takesOperand_append (hclosed t ht).1, (hclosed t ht).2]
    rfl
  · intro operator hop rest
    rw [takesOperand_append (hoperator operator hop).1, (hoperator operator hop).2]
    rfl

end Neighbours

end Php

/-! ### Integers in their slots -/

namespace Node

/-- The integer that the code of a node ends with, where the node is an expression: one by itself, or
the value of an assignment. -/
def lastInteger? : Node → Option Int64
  | literal (.int m) _ => some m
  | block [] last _ => lastInteger? last
  | definition _ _ init _ => lastInteger? init
  | arraySet _ _ v _ => lastInteger? v
  | _ => none

/-- Whether an integer in the slot is read as something else: an operator right before it runs into
it, or one behind it takes its digits away from its sign. -/
def Slot.crowds (slot : Slot) (assigned : Bool) (m : Int64) : Bool :=
  (!assigned && slot.leading?.any fun operator =>
    Php.clashes.contains (operator, Php.valueOpening (.int m))) ||
  (slot.following? == some "**" && decide (m.toInt < 0))

end Node

namespace Php

open Node

section Slots
variable {config : Config} {c : Node} {m : Int64}

theorem selfContained_of_lastInteger? (h : c.lastInteger? = some m) : selfContained c = true := by
  cases c with
  | literal | block | definition | arraySet => rfl
  | _ => simp [lastInteger?] at h

/-- A text that ends with another: with it alone, or with it as the value of an assignment. -/
def EndsWith (assigned : Bool) (value t : String) : Prop :=
  ∃ lead, t = lead ++ value ∧ if assigned then Behind none lead else lead = ""

theorem EndsWith.assign {assigned : Bool} {value t : String} (h : EndsWith assigned value t)
    (place : String) : EndsWith true value (place ++ " = " ++ t) := by
  have hequals : Behind none (place ++ " = ") := behind_append ⟨" ", by decide⟩ place
  obtain ⟨lead, rfl, hlead⟩ := h
  refine ⟨place ++ " = " ++ lead, String.append_assoc.symm, ?_⟩
  cases assigned with
  | false =>
    cases hlead
    simpa using hequals
  | true => exact behind_append hlead _

/-- The code of such a node ends with the integer. -/
theorem endsWith_lastInteger (hsits : c.Sits (.value .expression)) (h : c.lastInteger? = some m)
    (d : Nat) : EndsWith (assigns c) (toString m.toInt) (code config c d) := by
  induction c using Node.ind generalizing d with
  | h c ih =>
    have hcontext : c.context = .expression := hsits.context
    cases c with
    | literal v i =>
      cases v with
      | int n =>
        cases h
        rw [code, show i.scope.context = .expression from hcontext]
        exact ⟨"", (String.empty_append).symm, by simp [assigns]⟩
      | _ => simp [lastInteger?] at h
    | block stmts last i =>
      cases stmts with
      | cons => simp [lastInteger?] at h
      | nil =>
        have hplace : (Use.value i.scope.context, last) ∈ (Node.block [] last i).places :=
          List.mem_singleton.2 rfl
        rw [show i.scope.context = .expression from hcontext] at hplace
        have hlast := ih last (mem_children_of_places hplace) (hsits.part hplace)
          (by simpa [lastInteger?] using h) d
        simpa [code, codes, assigns] using hlast
    | definition home name init i =>
      have hinit := ih init List.mem_cons_self (hsits.part List.mem_cons_self)
        (by simpa [lastInteger?] using h) d
      rw [code, framed_expression i hcontext, assigns]
      exact hinit.assign _
    | arraySet a index v i =>
      have hplace : (Use.value .expression, v) ∈ (Node.arraySet a index v i).places := by
        simp [places, children]
      have hvalue := ih v (mem_children_of_places hplace) (hsits.part hplace)
        (by simpa [lastInteger?] using h) d
      rw [code, framed_expression i hcontext, assigns]
      exact hvalue.assign _
    | _ => simp [lastInteger?] at h

/-- The ends of the texts around an operand. -/
theorem Holds.exists_eq {leading following : Option String} {f : String → String}
    (h : Holds leading following f) :
    ∃ before after, (∀ t, f t = before ++ t ++ after) ∧ Behind leading before ∧
      (∀ k ∈ after.toList.head?, extendsNumber k = false) ∧
      takesOperand after.toList = (following == some "**") := by
  rcases h with ⟨before, after, hbefore, hafter, hf⟩ | ⟨rfl, before, hbefore, hf⟩
  · exact ⟨before, after, hf, hbefore, hafter.not_extends, hafter.takesOperand_eq⟩
  · exact ⟨before, "", fun t => by rw [hf, String.append_empty], hbefore, nofun, rfl⟩

/-- An integer is read as written, unless it is crowded by operators. -/
theorem readOperand_lead {leading following : Option String} {before after lead : String}
    {assigned : Bool} (hbefore : Behind leading before)
    (hafter : ∀ k ∈ after.toList.head?, extendsNumber k = false)
    (htakes : takesOperand after.toList = (following == some "**"))
    (hlead : if assigned then Behind none lead else lead = "") :
    readOperand (before ++ lead).toList ((toString m.toInt).toList ++ after.toList) =
      if (!assigned && leading.any fun operator =>
            clashes.contains (operator, valueOpening (.int m))) ||
          (following == some "**" && decide (m.toInt < 0)) then none
      else some (.ofWritten m, after.toList) := by
  have hglues : (before ++ lead).toList.getLast?.any
      (fun a => (toString m.toInt).toList.head?.any (glues a)) =
      (!assigned && leading.any fun operator =>
        clashes.contains (operator, valueOpening (.int m))) := by
    cases assigned with
    | false =>
      cases hlead
      rw [String.append_empty, hbefore.any_glues m]
      rfl
    -- before the value of an assignment there is a space, whatever stands before the place
    | true => exact (behind_append hlead before).any_glues m
  rw [readOperand_toString m _ hafter, hglues, htakes]
  simp [and_comm]

end Slots

end Php

namespace Analysis

open Php

/-- **Integers.**  Wherever an integer stands in a unit as an operand, an argument, an element or an
initial value, by itself or as the value of an assignment, it is written between texts that do not
depend on it, and read as an operand there it denotes itself.  There are two exceptions: an operator
next to it may crowd it, and the least integer denotes a double.  The only form of a block is written
as the block. -/
theorem unit_integers {forms : List Form} {scope : Scope} {s s' : State} {nodes : List Node}
    (h : unit forms scope s = .ok nodes s') {root : Node} (hroot : root ∈ nodes) {p c : Node}
    (hp : p ∈ root.nodes) (hc : (.value .expression, c) ∈ p.places) {m : Int64}
    (hm : c.lastInteger? = some m) (config : Config) (d : Nat) :
    (∃ i, p = .block [] c i ∧ code config p d = code config c d) ∨
    ∃ slot : Node.Slot, p = slot.fill c ∧ selfContained c = true ∧
      ∃ before after depth,
        (∀ n, selfContained n = true →
          code config (slot.fill n) d = before ++ code config n depth ++ after) ∧
        ∃ lead, code config c depth = lead ++ toString m.toInt ∧
          readOperand (before ++ lead).toList ((toString m.toInt).toList ++ after.toList) =
            if slot.crowds (assigns c) m then none
            else some (if m = Int64.minValue then .double m.toInt else .integer m.toInt,
              after.toList) := by
  have hsits : c.Sits (.value .expression) := ((sits_unit h root hroot).of_mem hp).part hc
  rcases Node.exists_slot hc with ⟨i, rfl⟩ | ⟨slot, rfl⟩
  · exact .inl ⟨i, rfl, by simp [code, codes]⟩
  · obtain ⟨depth, f, hholds, hcode⟩ := fills_slot config d slot
    obtain ⟨before, after, hf, hbefore, hafter, htakes⟩ := hholds.exists_eq
    obtain ⟨lead, hlead, hends⟩ := endsWith_lastInteger hsits hm depth
    refine .inr ⟨slot, rfl, selfContained_of_lastInteger? hm, before, after, depth,
      fun n hn => ?_, lead, hlead, readOperand_lead hbefore hafter htakes hends⟩
    rw [hcode n hn, hf]

/-- Whether the node defines something as the integer. -/
def definesInteger (m : Int64) : Node → Bool
  | .definition _ _ (.literal (.int n) _) _ => n == m
  | _ => false

theorem exists_definition_of_any {m : Int64} {nodes : List Node}
    (h : nodes.any (fun root => root.nodes.any (definesInteger m)) = true) :
    ∃ root ∈ nodes, ∃ home name j i, .definition home name (.literal (.int m) j) i ∈ root.nodes := by
  obtain ⟨root, hroot, hany⟩ := List.any_eq_true.1 h
  obtain ⟨n, hn, hfound⟩ := List.any_eq_true.1 hany
  unfold definesInteger at hfound
  split at hfound
  · next home name k j i =>
    cases beq_iff_eq.1 hfound
    exact ⟨root, hroot, home, name, j, i, hn⟩
  · cases hfound

/-- `(def x m)`, for an integer. -/
def integerForm (m : Int64) : Form := .parens [.name "def", .name "x", .int m]

theorem unit_integers_negative :
    ∃ nodes s, unit [integerForm (-7)] .empty (.start default 0) = .ok nodes s ∧
      ∃ root ∈ nodes, ∃ p ∈ root.nodes, ∃ c, (.value .expression, c) ∈ p.places ∧
        c.lastInteger? = some (-7) ∧ ∃ before after,
          code .standard p 0 = before ++ "-7" ++ after ∧
          readOperand before.toList ("-7".toList ++ after.toList) =
            some (.integer (-7), after.toList) := by
  have hfound : ((unit [integerForm (-7)] .empty).run' (.start default 0)).any (fun nodes =>
      nodes.any fun root => root.nodes.any (definesInteger (-7))) = true := by
    decide +kernel
  obtain ⟨nodes, s, hrun, hfound⟩ := exists_ok_of_any hfound
  obtain ⟨root, hroot, home, name, j, i, hp⟩ := exists_definition_of_any hfound
  refine ⟨nodes, s, hrun, root, hroot, _, hp, _, List.mem_cons_self, rfl, ?_⟩
  rcases unit_integers hrun hroot hp List.mem_cons_self (m := -7) rfl .standard 0 with
    ⟨_, hblock, -⟩ | ⟨slot, hslot, hself, before, after, depth, hcode, lead, hlead, hread⟩
  · cases hblock
  · have htext : toString (-7 : Int64).toInt = "-7" := by decide
    have hcrowds : slot.crowds (assigns (.literal (.int (-7)) j)) (-7) = false := by
      cases slot <;> cases hslot
      rfl
    rw [hcrowds, htext] at hread
    refine ⟨before ++ lead, after, ?_, hread⟩
    rw [hslot, hcode _ hself, hlead, htext]
    simp only [String.append_assoc]

/-- The magnitude of the least integer is read as a double, and the sign makes a double of it. -/
theorem unit_integers_least :
    ∃ nodes s, unit [integerForm Int64.minValue] .empty (.start default 0) = .ok nodes s ∧
      program .standard nodes = "$GLOBALS[\"__lark\"][\"user\"][\"x\"] = -9223372036854775808;\n" ∧
      readOperand "$GLOBALS[\"__lark\"][\"user\"][\"x\"] = ".toList "-9223372036854775808;\n".toList =
        some (.double (-9223372036854775808), ";\n".toList) := by
  have hfound : ((unit [integerForm Int64.minValue] .empty).run' (.start default 0)).any
      (fun nodes => program .standard nodes ==
        "$GLOBALS[\"__lark\"][\"user\"][\"x\"] = -9223372036854775808;\n") = true := by
    decide +kernel
  obtain ⟨nodes, s, hrun, hfound⟩ := exists_ok_of_any hfound
  exact ⟨nodes, s, hrun, beq_iff_eq.1 hfound, by decide⟩

end Analysis

end LarkPhp
