import LarkPhp.Proofs.CodeGrammar
import LarkPhp.Proofs.Numbering
import LarkPhp.Proofs.Placement

/-!
Operands in their slots.

A slot is a node with an operand left open (`Node.Slot`).  Whatever operand is put into it, the code
of the node is the code of the operand between two fixed texts (`fills_slot`).  Their ends are known:
an operand stands between brackets, commas, the spaces around a sign, or next to an operator
(`Behind`, `Ahead`).
-/

namespace LarkPhp

/-- The value of a block does not leave as an expression. -/
theorem Context.tail_ne_expression (context : Context) : context.tail ≠ .expression := by
  cases context <;> decide

namespace Node

/-! ### Slots -/

/-- The operator that a call with this callee is written as. -/
def operator? : Node → Option String
  | hostVar name _ => if isHostOperator name.name then some name.name else none
  | _ => none

/-- A node with an operand left open: a node below it that is an expression, whatever the node itself
is written as.  The arms of a branch are operands only where the branch is an expression. -/
inductive Slot where
  | callee (args : List Node) (info : Info)
  | argument (callee : Node) (before after : List Node) (info : Info)
  | test (yes no : Node) (info : Info)
  | yesArm (test no : Node) (info : Info) (h : info.scope.context = .expression)
  | noArm (test yes : Node) (info : Info) (h : info.scope.context = .expression)
  | initializer (before : List (Binding Node)) (name var : Symbol) (after : List (Binding Node))
      (body : Node) (info : Info)
  | definition (home : String) (name : Symbol) (info : Info)
  | collection (value : Symbol) (key : Option Symbol) (body : Node) (info : Info)
  | exception (info : Info)
  | tableItem (before after : List Node) (info : Info)
  | arrayItem (before after : List Node) (info : Info)
  | setItem (before after : List Node) (info : Info)
  | tupleItem (before after : List Node) (info : Info)
  | newClass (args : List Node) (info : Info)
  | newArgument (cls : Node) (before after : List Node) (info : Info)
  | object (part : Node) (static method : Bool) (info : Info)
  | methodArgument (name : Symbol) (before after : List Node) (info : Info)
  | getArray (index : Node) (info : Info)
  | getIndex (array : Node) (info : Info)
  | setArray (index value : Node) (info : Info)
  | setIndex (array value : Node) (info : Info)
  | setValue (array index : Node) (info : Info)

namespace Slot

/-- The node with an operand put into its slot. -/
def fill (n : Node) : Slot → Node
  | callee args i => .call n args i
  | argument f before after i => .call f (before ++ n :: after) i
  | test yes no i => .branch n yes no i
  | yesArm cond no i _ => .branch cond n no i
  | noArm cond yes i _ => .branch cond yes n i
  | initializer before name var after body i => .bindings (before ++ ⟨name, var, n⟩ :: after) body i
  | definition home name i => .definition home name n i
  | collection value key body i => .loop value key n body i
  | exception i => .throw n i
  | tableItem before after i => .table (before ++ n :: after) i
  | arrayItem before after i => .array (before ++ n :: after) i
  | setItem before after i => .set (before ++ n :: after) i
  | tupleItem before after i => .tuple (before ++ n :: after) i
  | newClass args i => .new n args i
  | newArgument cls before after i => .new cls (before ++ n :: after) i
  | object part static method i => .member n part static method i
  | methodArgument name before after i => .methodCall name (before ++ n :: after) i
  | getArray index i => .arrayGet n index i
  | getIndex a i => .arrayGet a n i
  | setArray index value i => .arraySet n index value i
  | setIndex a value i => .arraySet a n value i
  | setValue a index i => .arraySet a index n i

/-- The operator that stands right before the operand. -/
def leading? : Slot → Option String
  | argument f [] [] _ => operator? f
  | _ => none

/-- The operator that follows the operand. -/
def following? : Slot → Option String
  | argument f _ (_ :: _) _ => operator? f
  | _ => none

end Slot

/-- **What a node uses as an expression is in one of its slots,** but for the only form of a block,
which stands for the block itself. -/
theorem exists_slot {p c : Node} (h : (.value .expression, c) ∈ p.places) :
    (∃ i, p = .block [] c i) ∨ ∃ slot : Slot, p = slot.fill c := by
  have hchild : ∀ {cs : List Node},
      (Use.value .expression, c) ∈ cs.map (Use.value .expression, ·) → c ∈ cs := by
    intro cs hmem
    obtain ⟨n, hn, heq⟩ := List.mem_map.1 hmem
    cases heq
    exact hn
  cases p with
  | literal | localVar | globalVar | hostVar | className | property => cases h
  | call f args i =>
    rcases List.mem_cons.1 (hchild h) with rfl | hc
    · exact .inr ⟨.callee args i, rfl⟩
    · obtain ⟨before, after, rfl⟩ := List.append_of_mem hc
      exact .inr ⟨.argument f before after i, rfl⟩
  | block stmts last i =>
    rcases List.mem_append.1 h with h | h
    · obtain ⟨n, -, heq⟩ := List.mem_map.1 h
      cases heq
    · have heq := List.mem_singleton.1 h
      cases stmts with
      | nil =>
        cases (Prod.mk.inj heq).2
        exact .inl ⟨i, rfl⟩
      | cons stmt stmts =>
        -- such a block is wrapped, so its last form is a result
        exact absurd (Use.value.inj (Prod.mk.inj heq).1).symm i.scope.context.tail_ne_expression
  | branch test yes no i =>
    simp only [places, List.mem_cons, List.not_mem_nil, or_false, Prod.mk.injEq, Use.value.injEq,
      true_and] at h
    rcases h with rfl | ⟨hcontext, rfl⟩ | ⟨hcontext, rfl⟩
    · exact .inr ⟨.test yes no i, rfl⟩
    · exact .inr ⟨.yesArm test no i hcontext.symm, rfl⟩
    · exact .inr ⟨.noArm test yes i hcontext.symm, rfl⟩
  | bindings bs body i =>
    rcases List.mem_append.1 h with h | h
    · obtain ⟨⟨name, var, init⟩, hb, heq⟩ := List.mem_map.1 h
      cases heq
      obtain ⟨before, after, rfl⟩ := List.append_of_mem hb
      exact .inr ⟨.initializer before name var after body i, rfl⟩
    · have heq := List.mem_singleton.1 h
      exact absurd (Use.value.inj (Prod.mk.inj heq).1).symm i.scope.context.tail_ne_expression
  | function => cases List.mem_singleton.1 h
  | definition home name init i =>
    cases List.mem_singleton.1 (hchild h)
    exact .inr ⟨.definition home name i, rfl⟩
  | loop value key coll body i =>
    rcases List.mem_cons.1 h with heq | h
    · cases heq
      exact .inr ⟨.collection value key body i, rfl⟩
    · cases List.mem_singleton.1 h
  | throw x i =>
    cases List.mem_singleton.1 (hchild h)
    exact .inr ⟨.exception i, rfl⟩
  | table items i =>
    obtain ⟨before, after, rfl⟩ := List.append_of_mem (hchild h)
    exact .inr ⟨.tableItem before after i, rfl⟩
  | array items i =>
    obtain ⟨before, after, rfl⟩ := List.append_of_mem (hchild h)
    exact .inr ⟨.arrayItem before after i, rfl⟩
  | set items i =>
    obtain ⟨before, after, rfl⟩ := List.append_of_mem (hchild h)
    exact .inr ⟨.setItem before after i, rfl⟩
  | tuple items i =>
    obtain ⟨before, after, rfl⟩ := List.append_of_mem (hchild h)
    exact .inr ⟨.tupleItem before after i, rfl⟩
  | new cls args i =>
    rcases List.mem_cons.1 (hchild h) with rfl | hc
    · exact .inr ⟨.newClass args i, rfl⟩
    · obtain ⟨before, after, rfl⟩ := List.append_of_mem hc
      exact .inr ⟨.newArgument cls before after i, rfl⟩
  | member target part static method i =>
    rcases List.mem_cons.1 h with heq | h
    · cases heq
      exact .inr ⟨.object part static method i, rfl⟩
    · cases List.mem_singleton.1 h
  | methodCall name args i =>
    obtain ⟨before, after, rfl⟩ := List.append_of_mem (hchild h)
    exact .inr ⟨.methodArgument name before after i, rfl⟩
  | arrayGet a index i =>
    rcases List.mem_cons.1 (hchild h) with rfl | hc
    · exact .inr ⟨.getArray index i, rfl⟩
    · cases List.mem_singleton.1 hc
      exact .inr ⟨.getIndex a i, rfl⟩
  | arraySet a index v i =>
    rcases List.mem_cons.1 (hchild h) with rfl | hc
    · exact .inr ⟨.setArray index v i, rfl⟩
    rcases List.mem_cons.1 hc with rfl | hc
    · exact .inr ⟨.setIndex a v i, rfl⟩
    · cases List.mem_singleton.1 hc
      exact .inr ⟨.setValue a index i, rfl⟩

end Node

namespace Php

open Node

/-! ### What stands around an operand -/

/-- What an operand can follow if there is no operator. -/
def openers : List String := ["(", "[", " "]

/-- What can follow an operand if there is no operator. -/
def closers : List String := [")", "]", ",", ";", " : ", " ?? "]

/-- How a text ends that an operand follows: in an opening bracket, in a space, or in an operator. -/
def Behind : (operator? : Option String) → String → Prop
  | none, before => ∃ t ∈ openers, t.toList <:+ before.toList
  | some operator, before => isHostOperator operator = true ∧ operator.toList <:+ before.toList

/-- How a text starts that follows an operand: with a bracket or mark that closes it, or with a sign
or operator between spaces. -/
def Ahead : (operator? : Option String) → String → Prop
  | none, after => ∃ t ∈ closers, t.toList <+: after.toList
  | some operator, after =>
    isHostOperator operator = true ∧ (" " ++ operator ++ " ").toList <+: after.toList

/-- A text with an operand in it, and the operators next to it. -/
def Around (leading following : Option String) (f : String → String) : Prop :=
  ∃ before after, Behind leading before ∧ Ahead following after ∧ ∀ t, f t = before ++ t ++ after

section Around
variable (config : Config) {leading following : Option String} {f : String → String}
  {before after : String}

theorem Behind.prepend (h : Behind leading before) (s : String) : Behind leading (s ++ before) := by
  have hsuffix : before.toList <:+ (s ++ before).toList := by
    rw [String.toList_append]
    exact List.suffix_append _ _
  cases leading with
  | none =>
    obtain ⟨t, ht, hend⟩ := h
    exact ⟨t, ht, hend.trans hsuffix⟩
  | some operator => exact ⟨h.1, h.2.trans hsuffix⟩

/-- A text that ends in a bracket or space, whatever stands before. -/
theorem behind_append {t : String} (h : ∃ u ∈ openers, u.toList <:+ t.toList) (s : String) :
    Behind none (s ++ t) := by
  have ht : Behind none t := h
  exact ht.prepend s

theorem Ahead.append (h : Ahead following after) (s : String) : Ahead following (after ++ s) := by
  have hstart : after.toList <+: (after ++ s).toList := by
    rw [String.toList_append]
    exact List.prefix_append _ _
  cases following with
  | none =>
    obtain ⟨t, ht, hend⟩ := h
    exact ⟨t, ht, hend.trans hstart⟩
  | some operator => exact ⟨h.1, h.2.trans hstart⟩

theorem Around.mk (hbefore : Behind leading before) (hafter : Ahead following after) :
    Around leading following (fun t => before ++ t ++ after) :=
  ⟨before, after, hbefore, hafter, fun _ => rfl⟩

theorem Around.prepend (h : Around leading following f) (s : String) :
    Around leading following (fun t => s ++ f t) := by
  obtain ⟨before, after, hbefore, hafter, hf⟩ := h
  refine ⟨s ++ before, after, hbefore.prepend s, hafter, fun t => ?_⟩
  simp only [hf, String.append_assoc]

theorem Around.append (h : Around leading following f) (s : String) :
    Around leading following (fun t => f t ++ s) := by
  obtain ⟨before, after, hbefore, hafter, hf⟩ := h
  refine ⟨before, after ++ s, hbefore, hafter.append s, fun t => ?_⟩
  simp only [hf, String.append_assoc]

theorem Around.framed (h : Around leading following f) (context : Context) (d : Nat) :
    Around leading following (fun t => framed config context d (f t)) := by
  cases context with
  | expression => exact h
  | statement => exact (h.prepend _).append _
  | result => exact (h.prepend _).append _

theorem Around.line (h : Around leading following f) (d : Nat) :
    Around leading following (fun t => line config d (f t)) := (h.prepend _).append _

theorem Around.closure (h : Around leading following f) (scope : Scope) (d : Nat) :
    Around leading following (fun t => closure config scope d (f t)) :=
  ((h.prepend _).append _).append _

theorem around_parens : Around none none (fun t => "(" ++ t ++ ")") :=
  .mk ⟨"(", by decide⟩ ⟨")", by decide⟩

theorem around_brackets : Around none none (fun t => "[" ++ t ++ "]") :=
  .mk ⟨"[", by decide⟩ ⟨"]", by decide⟩

/-! ### Operands between others -/

theorem intercalate_cons (between t : String) (ts : List String) :
    between.intercalate (t :: ts) = t ++ String.join (ts.map (between ++ ·)) := by
  induction ts generalizing t with
  | nil => simp
  | cons u us ih =>
    rw [String.intercalate_cons_cons, ih]
    simp [String.append_assoc]

theorem intercalate_insert (between t : String) (xs ys : List String) :
    between.intercalate (xs ++ t :: ys) =
      String.join (xs.map (· ++ between)) ++ t ++ String.join (ys.map (between ++ ·)) := by
  induction xs with
  | nil => simp [intercalate_cons]
  | cons x xs ih =>
    have hne : xs ++ t :: ys ≠ [] := by simp
    rw [List.cons_append, String.intercalate_cons_of_ne_nil hne, ih]
    simp [String.append_assoc]

/-- Texts with spaces behind them end in a space. -/
theorem Behind.items (h : Behind none before) {between : String} (hbetween : Behind none between)
    (xs : List String) : Behind none (before ++ String.join (xs.map (· ++ between))) := by
  induction xs generalizing before with
  | nil => simpa using h
  | cons x xs ih =>
    have hnext := ih (hbetween.prepend (before ++ x))
    simpa [String.append_assoc] using hnext

/-- What follows an operand goes on with the text between operands, or closes if it is the last
one. -/
theorem Ahead.items {between : String} (h : Ahead following between) (ys : List String) :
    Ahead (if ys = [] then none else following) (String.join (ys.map (between ++ ·)) ++ ")") := by
  cases ys with
  | nil =>
    have hclosed : Ahead none ")" := ⟨")", by decide⟩
    simpa using hclosed
  | cons y ys =>
    have hrest := h.append (y ++ String.join (ys.map (between ++ ·)) ++ ")")
    simpa [String.append_assoc] using hrest

theorem around_commas (xs ys : List String) :
    Around none none (fun t => "(" ++ commas (xs ++ t :: ys) ++ ")") := by
  have hbefore : Behind none ("(" ++ String.join (xs.map (· ++ ", "))) :=
    Behind.items ⟨"(", by decide⟩ ⟨" ", by decide⟩ xs
  have hcomma : Ahead none ", " := ⟨",", by decide⟩
  have hafter := hcomma.items ys
  rw [ite_self] at hafter
  refine ⟨_, _, hbefore, hafter, fun t => ?_⟩
  simp only [commas, intercalate_insert, String.append_assoc]

/-- Between several operands there are spaces around the operator. -/
theorem operation_of_ne {operator : String} {ts : List String} (h : ts.length ≠ 1) :
    operation operator ts = "(" ++ (" " ++ operator ++ " ").intercalate ts ++ ")" := by
  unfold operation
  split
  · exact absurd rfl h
  · rfl

/-- A single operand stands right behind its operator; of several all but the last stand before
one. -/
theorem around_operation {operator : String} (h : isHostOperator operator = true)
    (xs ys : List String) :
    Around (if xs = [] ∧ ys = [] then some operator else none)
      (if ys = [] then none else some operator) (fun t => operation operator (xs ++ t :: ys)) := by
  by_cases hsingle : xs = [] ∧ ys = []
  · obtain ⟨rfl, rfl⟩ := hsingle
    have hoperator : Behind (some operator) operator := ⟨h, List.suffix_rfl⟩
    exact .mk (hoperator.prepend "(") ⟨")", by decide⟩
  · have hspace : Behind none " " := ⟨" ", by decide⟩
    have hbefore : Behind none ("(" ++ String.join (xs.map (· ++ (" " ++ operator ++ " ")))) :=
      Behind.items ⟨"(", by decide⟩ (hspace.prepend (" " ++ operator)) xs
    have hoperator : Ahead (some operator) (" " ++ operator ++ " ") := ⟨h, List.prefix_rfl⟩
    have hlength : ∀ t, (xs ++ t :: ys).length ≠ 1 := by
      intro t hone
      rw [List.length_append, List.length_cons] at hone
      have hlengths : xs.length = 0 ∧ ys.length = 0 := by omega
      exact hsingle ⟨List.length_eq_zero_iff.1 hlengths.1, List.length_eq_zero_iff.1 hlengths.2⟩
    rw [if_neg hsingle]
    refine ⟨_, _, hbefore, hoperator.items ys, fun t => ?_⟩
    simp only [operation_of_ne (hlength t), intercalate_insert, String.append_assoc]

theorem around_args (head : String) (xs ys : List String) :
    Around none none (fun t => head ++ "(" ++ commas (xs ++ t :: ys) ++ ")") := by
  simp only [args_eq]
  exact (around_commas xs ys).prepend head

theorem application_cases (callee : Node) (text : String) :
    (∃ operator, callee.operator? = some operator ∧ isHostOperator operator = true ∧
      application callee text = operation operator) ∨
    callee.operator? = none ∧
      ∃ head, application callee text = fun ts => head ++ "(" ++ commas ts ++ ")" := by
  cases callee with
  | hostVar name i =>
    by_cases h : isHostOperator name.name = true
    · exact .inl ⟨name.name, if_pos h, h, funext fun ts => if_pos h⟩
    · exact .inr ⟨if_neg h, name.name, funext fun ts => if_neg h⟩
  | _ => exact .inr ⟨rfl, "(" ++ text ++ ")", funext fun ts => callText_eq text (commas ts)⟩

theorem around_application (callee : Node) (text : String) (xs ys : List String) :
    Around (if xs = [] ∧ ys = [] then callee.operator? else none)
      (if ys = [] then none else callee.operator?)
      (fun t => application callee text (xs ++ t :: ys)) := by
  rcases application_cases callee text with ⟨operator, hoperator, hop, heq⟩ | ⟨hoperator, head, heq⟩
  · rw [hoperator, heq]
    exact around_operation hop xs ys
  · rw [hoperator, heq, ite_self, ite_self]
    exact around_args head xs ys

theorem around_truth : Around none none (truth config) :=
  .mk (behind_append ⟨"(", by decide⟩ (config.runtimeClass "Truthy")) ⟨")", by decide⟩

theorem around_subscript (array : Node) (text : String) :
    Around none none (subscript array text) := by
  have hindex := around_brackets.prepend (if assignable array then text else "(" ++ text ++ ")")
  rwa [← funext (subscript_eq array text)] at hindex

theorem around_loopHead (value : Symbol) (key : Option Symbol) :
    Around none none (loopHead value key) := by
  have hcollection : Around none none (fun t => "foreach ((" ++ t ++ " ?? []) as ") :=
    .mk ⟨"(", by decide⟩ ⟨" ?? ", by decide⟩
  cases key with
  | none => exact ((hcollection.append _).append _).append _
  | some k => exact ((hcollection.append _).append _).append _

end Around

/-! ### Slots as code -/

/-- Whether the code of a node is always its own: names of the host are written as such where they
are called or accessed, and what is assigned to has no parentheses. -/
def selfContained : Node → Bool
  | .hostVar .. | .className .. => false
  | n => !assignable n

theorem codes_insert (config : Config) (d : Nat) (before after : List Node) (n : Node) :
    codes config (before ++ n :: after) d =
      codes config before d ++ code config n d :: codes config after d := by
  simp only [codes_eq, List.map_append, List.map_cons]

section SelfContained
variable {n : Node} (h : selfContained n = true)
include h

theorem application_of_selfContained (text : String) (ts : List String) :
    application n text ts = "(" ++ text ++ ")(" ++ commas ts ++ ")" := by
  cases n with
  | hostVar => cases h
  | _ => rfl

theorem target_of_selfContained (text : String) : target n text = "(" ++ text ++ ")" := by
  cases n with
  | className => cases h
  | _ => rfl

theorem subscript_of_selfContained (text index : String) :
    subscript n text index = "(" ++ text ++ ")" ++ ("[" ++ index ++ "]") := by
  have hassignable : assignable n = false := by
    cases n with
    | hostVar | className => cases h
    | _ => simpa [selfContained] using h
  rw [subscript_eq, hassignable]
  rfl

end SelfContained

/-- A text with an operand in it, which may stand at the end if no operator follows. -/
def Holds (leading following : Option String) (f : String → String) : Prop :=
  Around leading following f ∨
    following = none ∧ ∃ before, Behind leading before ∧ ∀ t, f t = before ++ t

/-- Whatever operand a node is made with, its code is that of the operand between two fixed texts. -/
def Fills (config : Config) (d : Nat) (leading following : Option String) (fill : Node → Node) :
    Prop :=
  ∃ depth f, Holds leading following f ∧ ∀ c, selfContained c = true →
    code config (fill c) d = f (code config c depth)

section Fills
variable {config : Config} {d : Nat} {leading following : Option String} {fill : Node → Node}
  {context : Context} {f : String → String}

theorem Around.fills (h : Around leading following f) (depth : Nat)
    (hcode : ∀ c, selfContained c = true → code config (fill c) d = f (code config c depth)) :
    Fills config d leading following fill := ⟨depth, f, .inl h, hcode⟩

theorem Around.fills_framed (h : Around leading following f) (context : Context)
    (hcode : ∀ c, selfContained c = true →
      code config (fill c) d = Php.framed config context d (f (code config c d))) :
    Fills config d leading following fill := (h.framed config context d).fills d hcode

/-- A value that is assigned is at the end of an expression, and has a semicolon behind it
elsewhere. -/
theorem fills_assigned {place : String} (hcode : ∀ c, selfContained c = true →
      code config (fill c) d = framed config context d (place ++ " = " ++ code config c d)) :
    Fills config d none none fill := by
  have hequals : Behind none (place ++ " = ") := behind_append ⟨" ", by decide⟩ place
  have hstatement : Around none none (fun t => place ++ " = " ++ t ++ ";\n") :=
    .mk hequals ⟨";", by decide⟩
  cases context with
  | expression => exact ⟨d, _, .inr ⟨rfl, _, hequals, fun _ => rfl⟩, hcode⟩
  | statement =>
    refine (hstatement.prepend (margin config d)).fills d fun c hc => ?_
    rw [hcode c hc]
    simp only [framed, String.append_assoc]
  | result =>
    refine (hstatement.prepend (margin config d ++ "return ")).fills d fun c hc => ?_
    rw [hcode c hc]
    simp only [framed, String.append_assoc]

/-- An argument of a function, a method or a constructor. -/
theorem fills_args (context : Context) {head : String} {before after : List Node}
    (hcode : ∀ c, selfContained c = true → code config (fill c) d = framed config context d
      (head ++ "(" ++ commas (codes config (before ++ c :: after) d) ++ ")")) :
    Fills config d none none fill := by
  have hargs := around_args head (codes config before d) (codes config after d)
  refine hargs.fills_framed context fun c hc => ?_
  rw [hcode c hc, codes_insert]

theorem fills_argument (callee : Node) (before after : List Node) (i : Info) :
    Fills config d (Slot.argument callee before after i).leading?
      (Slot.argument callee before after i).following?
      (fun c => .call callee (before ++ c :: after) i) := by
  have haround := around_application callee (code config callee d) (codes config before d)
    (codes config after d)
  have hleading : (Slot.argument callee before after i).leading? =
      if codes config before d = [] ∧ codes config after d = [] then callee.operator? else none := by
    cases before <;> cases after <;> rfl
  have hfollowing : (Slot.argument callee before after i).following? =
      if codes config after d = [] then none else callee.operator? := by
    cases after <;> rfl
  -- which operators are next to the argument depends only on whether there are others around it
  rw [hleading, hfollowing]
  exact haround.fills_framed i.scope.context fun c _ => by rw [code, codes_insert]

/-- The test of a branch. -/
theorem fills_test (yes no : Node) (i : Info) :
    Fills config d none none (.branch · yes no i) := by
  have htruth := around_truth config
  by_cases hcontext : i.scope.context = .expression
  · refine (((((htruth.prepend "(").append " ? ").append (code config yes d)).append
      " : ").append (code config no d) |>.append ")").fills d fun c _ => ?_
    rw [code, if_pos hcontext]
  · have hhead := ((htruth.prepend "if (").append ") \x7b").line config d
    refine ((((hhead.append (code config yes (d + 1))).append (line config d "\x7d else \x7b")).append
      (code config no (d + 1))).append (line config d "\x7d")).fills d fun c _ => ?_
    rw [code, if_neg hcontext]

/-- An arm of a branch that is an expression. -/
theorem fills_arm {i : Info} (hcontext : i.scope.context = .expression) (test n : Node) :
    Fills config d none none (.branch test · n i) ∧
      Fills config d none none (.branch test n · i) := by
  have hyes : Around none none (fun t =>
      "(" ++ truth config (code config test d) ++ " ? " ++ t ++ " : ") :=
    .mk (behind_append ⟨" ", by decide⟩ _) ⟨" : ", by decide⟩
  have hno : Around none none (fun t => "(" ++ truth config (code config test d) ++ " ? "
      ++ code config n d ++ " : " ++ t ++ ")") :=
    .mk (behind_append ⟨" ", by decide⟩ _) ⟨")", by decide⟩
  refine ⟨((hyes.append (code config n d)).append ")").fills d fun c _ => ?_,
    hno.fills d fun c _ => ?_⟩ <;> rw [code, if_pos hcontext]

theorem assignments_insert (before after : List (Binding Node)) (name v : Symbol) (n : Node) :
    assignments config (before ++ ⟨name, v, n⟩ :: after) d =
      assignments config before d ++ (line config d (var v ++ " = " ++ code config n d ++ ";")
        ++ assignments config after d) := by
  simp only [assignments_eq, List.map_append, List.map_cons, String.join_append, String.join_cons]

/-- The value of a binding. -/
theorem fills_initializer (before after : List (Binding Node)) (name v : Symbol) (body : Node)
    (i : Info) :
    Fills config d none none (fun c => .bindings (before ++ ⟨name, v, c⟩ :: after) body i) := by
  have hassigned : Around none none (fun t => var v ++ " = " ++ t ++ ";") :=
    .mk (behind_append ⟨" ", by decide⟩ (var v)) ⟨";", by decide⟩
  have hinit := fun depth => (((hassigned.line config depth).append
    (assignments config after depth)).prepend (assignments config before depth)).append
      (code config body depth)
  by_cases hcontext : i.scope.context = .expression
  · refine ((hinit (d + 1)).closure config i.scope d).fills (d + 1) fun c _ => ?_
    rw [code, if_pos hcontext, assignments_insert]
  · refine (hinit d).fills d fun c _ => ?_
    rw [code, if_neg hcontext, assignments_insert]

/-- The collection that a loop goes through. -/
theorem fills_collection (value : Symbol) (key : Option Symbol) (body : Node) (i : Info) :
    Fills config d none none (.loop value key · body i) := by
  have hloop := fun depth => (((around_loopHead value key).line config depth).append
    (code config body (depth + 1))).append (line config depth "\x7d")
  cases hcontext : i.scope.context with
  | expression =>
    have hresult := (hloop (d + 1)).append (line config (d + 1) "return null;")
    refine (hresult.closure config i.scope d).fills (d + 1) fun c _ => ?_
    simp only [code, hcontext]
  | statement =>
    refine (hloop d).fills d fun c _ => ?_
    simp only [code, hcontext]
  | result =>
    refine ((hloop d).append (line config d "return null;")).fills d fun c _ => ?_
    simp only [code, hcontext]

theorem fills_exception (i : Info) : Fills config d none none (.throw · i) := by
  by_cases hcontext : i.scope.context = .expression
  · have hthrow : Around none none (fun t => "(throw " ++ t ++ ")") :=
      .mk ⟨" ", by decide⟩ ⟨")", by decide⟩
    refine hthrow.fills d fun c _ => ?_
    rw [code, if_pos hcontext]
  · have hthrow : Around none none (fun t => "throw " ++ t ++ ";") :=
      .mk ⟨" ", by decide⟩ ⟨";", by decide⟩
    refine (hthrow.line config d).fills d fun c _ => ?_
    rw [code, if_neg hcontext]

/-- **Whatever operand is put into a slot, the code of the node is that of the operand between two
fixed texts,** with the operators next to it. -/
theorem fills_slot (config : Config) (d : Nat) (slot : Slot) :
    Fills config d slot.leading? slot.following? (fun c => slot.fill c) := by
  cases slot with
  | callee args i =>
    refine (((around_parens.append "(").append (commas (codes config args d))).append
      ")").fills_framed i.scope.context fun c hc => ?_
    rw [Slot.fill, code, application_of_selfContained hc, callText_eq, args_eq]
  | argument callee before after i => exact fills_argument callee before after i
  | test yes no i => exact fills_test yes no i
  | yesArm test no i h => exact (fills_arm h test no).1
  | noArm test yes i h => exact (fills_arm h test yes).2
  | initializer before name v after body i => exact fills_initializer before after name v body i
  | definition home name i => exact fills_assigned fun c _ => by rw [Slot.fill, code]
  | collection value key body i => exact fills_collection value key body i
  | exception i => exact fills_exception i
  | tableItem _ _ i | arrayItem _ _ i | setItem _ _ i | tupleItem _ _ i =>
    exact fills_args i.scope.context fun c _ => by rw [Slot.fill, code, construct]
  | newArgument _ _ _ i => exact fills_args i.scope.context fun c _ => by rw [Slot.fill, code]
  | methodArgument => exact fills_args .expression fun c _ => by rw [Slot.fill, code, framed]
  | newClass args i =>
    refine ((((around_parens.prepend "new ").append "(").append (commas (codes config args d))).append
      ")").fills_framed i.scope.context fun c hc => ?_
    rw [Slot.fill, code, target_of_selfContained hc]
  | object part static method i =>
    refine ((around_parens.append (if static then "::" else "->")).append
      (code config part d)).fills_framed i.scope.context fun c hc => ?_
    rw [Slot.fill, code, target_of_selfContained hc]
  | getArray index i =>
    refine (around_parens.append ("[" ++ code config index d ++ "]")).fills_framed
      i.scope.context fun c hc => ?_
    rw [Slot.fill, code, subscript_of_selfContained hc]
  | getIndex a i =>
    refine (around_subscript a (code config a d)).fills_framed i.scope.context fun c _ => ?_
    rw [Slot.fill, code]
  | setArray index value i =>
    refine (((around_parens.append ("[" ++ code config index d ++ "]")).append " = ").append
      (code config value d)).fills_framed i.scope.context fun c hc => ?_
    rw [Slot.fill, code, subscript_of_selfContained hc]
  | setIndex a value i =>
    refine (((around_subscript a (code config a d)).append " = ").append
      (code config value d)).fills_framed i.scope.context fun c _ => ?_
    rw [Slot.fill, code]
  | setValue => exact fills_assigned fun c _ => by rw [Slot.fill, code]

end Fills

end Php

end LarkPhp
