import LarkPhp.Php.Code
import Mathlib.Data.List.Forall2

/-!
The grammar of code.

`Shaped` is the grammar of the code that nodes are written as, with one kind of text for each context.
An expression is built from words, variables, string literals, pairs of brackets and functions.
Statements stand on lines of their own and end in a semicolon or a closing brace.  A result is made of
statements of which the last one leaves: it returns or throws, or it is a branch and both of its arms
are results again.

The grammar keeps account of the variables at hand.  An assignment or the head of a loop adds to them
for the statements that it is for, and a function has its parameters and what its header takes over,
and nothing else.  A `Grammar` says which variables may be read where, which words are taken as they
are, and what lines may begin with.

The pieces that code is put together from are of these shapes.
-/

namespace LarkPhp.Php

/-! ### Words -/

/-- Whether a character opens, closes or ends something where it stands outside of a literal. -/
def isMark (c : Char) : Bool :=
  ['(', ')', '[', ']', '\x7b', '\x7d', ';', '"', '\n'].contains c

/-- A text without any such character. -/
def Plain (t : String) : Prop := ∀ c ∈ t.toList, isMark c = false

instance (t : String) : Decidable (Plain t) := List.decidableBAll (isMark · = false) t.toList

/-- A text with neither such characters nor variables. -/
def Inert (t : String) : Prop := ∀ c ∈ t.toList, isMark c = false ∧ c ≠ '$'

instance (t : String) : Decidable (Inert t) :=
  List.decidableBAll (fun c => isMark c = false ∧ c ≠ '$') t.toList

/-- A text of blanks. -/
def Blank (t : String) : Prop := ∀ c ∈ t.toList, c = ' ' ∨ c = '\t'

instance (t : String) : Decidable (Blank t) :=
  List.decidableBAll (fun c => c = ' ' ∨ c = '\t') t.toList

theorem Inert.plain {t : String} (h : Inert t) : Plain t := fun c hc => (h c hc).1

theorem forall_append {P : Char → Prop} {a b : String} (ha : ∀ c ∈ a.toList, P c)
    (hb : ∀ c ∈ b.toList, P c) : ∀ c ∈ (a ++ b).toList, P c := by
  rw [String.toList_append]
  exact List.forall_mem_append.2 ⟨ha, hb⟩

theorem plain_append {a b : String} (ha : Plain a) (hb : Plain b) : Plain (a ++ b) :=
  forall_append ha hb

theorem plain_munge {name : String} (h : Plain name) : Plain (munge name) := by
  have hchar : ∀ c, isMark c = false → (mungeChar c).all (!isMark ·) = true := by
    intro c hc
    unfold mungeChar
    split
    iterate 13 decide
    · rw [List.all_cons, hc]
      rfl
  unfold Plain munge
  rw [String.toList_ofList]
  intro m hm
  obtain ⟨c, hc, hm⟩ := List.mem_flatMap.1 hm
  have hmarks := List.all_eq_true.1 (hchar c (h c hc)) m hm
  rwa [Bool.not_eq_true'] at hmarks

theorem plain_var {v : Symbol} (h : Plain v.name) : Plain (var v) :=
  plain_append (by decide) (plain_munge h)

theorem forall_margin {P : Char → Prop} {config : Config} (h : ∀ c ∈ config.indent.toList, P c)
    (d : Nat) : ∀ c ∈ (margin config d).toList, P c := by
  unfold margin indentation
  induction d with
  | zero => exact nofun
  | succ d ih =>
    rw [List.replicate_succ, String.join_cons]
    exact forall_append h ih

/-! ### The grammar -/

/-- What is left open by the grammar. -/
structure Grammar where
  /-- What a line may begin with. -/
  blank : String → Prop
  /-- Words that are taken as they are. -/
  word : String → Prop
  /-- The variables that may be set or be parameters. -/
  binds : Symbol → Prop
  /-- The variables that may be read where some are at hand. -/
  reads : List Symbol → Symbol → Prop

/-- The grammar of code in which words and variables are plain, and variables may be read anywhere. -/
def Grammar.plain (blank : String → Prop) : Grammar where
  blank := blank
  word := Plain
  binds v := Plain v.name
  reads _ v := Plain v.name

/-- The text of a parameter. -/
inductive Parameter (v : Symbol) : String → Prop
  | one : Parameter v ("$" ++ munge v.name)
  | rest : Parameter v ("..." ++ ("$" ++ munge v.name))

/-- The parameters of a function and the variables that it takes over, as its header. -/
inductive Header (params : List Symbol) : (uses : List Symbol) → String → Prop
  | alone {ts} : List.Forall₂ Parameter params ts → Header params [] ("(" ++ ", ".intercalate ts ++ ")")
  | taking {uses ts} :
    uses ≠ [] → List.Forall₂ Parameter params ts →
    Header params uses ("(" ++ ", ".intercalate ts ++ ")" ++ " use " ++
      ("(" ++ ", ".intercalate (uses.map fun v => "$" ++ munge v.name) ++ ")"))

/-- The variables that the head of a loop sets, as they stand there. -/
inductive Targets : List Symbol → String → Prop
  | value (v : Symbol) : Targets [v] ("$" ++ munge v.name)
  | both (k v : Symbol) : Targets [k, v] ("$" ++ munge k.name ++ " => " ++ ("$" ++ munge v.name))

/-- The texts of code where some variables are at hand, by context. -/
inductive Shaped (g : Grammar) : (vars : List Symbol) → Context → String → Prop
  /-- Text with neither marks nor variables. -/
  | inert {vars t} : Inert t → Shaped g vars .expression t
  | word {vars t} : g.word t → Shaped g vars .expression t
  | read {vars v} : g.reads vars v → Shaped g vars .expression ("$" ++ munge v.name)
  | globals {vars} : Shaped g vars .expression "$GLOBALS"
  /-- An operator as a function, with variables of its own. -/
  | operator {vars name} :
    isHostOperator name = true →
    Shaped g vars .expression ("fn " ++ ("(" ++ "$a, $b" ++ ")") ++ " => $a " ++ name ++ " $b")
  | literal {vars} (s : String) : Shaped g vars .expression (quote s)
  | append {vars a b} :
    Shaped g vars .expression a → Shaped g vars .expression b → Shaped g vars .expression (a ++ b)
  | parens {vars a} : Shaped g vars .expression a → Shaped g vars .expression ("(" ++ a ++ ")")
  | brackets {vars a} : Shaped g vars .expression a → Shaped g vars .expression ("[" ++ a ++ "]")
  /-- A function, whose body has its parameters and what it takes over. -/
  | function {vars params uses gap header a m} :
    gap = "" ∨ gap = " " → Header params uses header → (∀ v ∈ params, g.binds v) →
    (∀ v ∈ uses, g.reads vars v) → g.blank m → Shaped g (params ++ uses) .result a →
    Shaped g vars .expression ("function" ++ gap ++ header ++ " " ++ ("\x7b\n" ++ (a ++ m) ++ "\x7d"))
  | nothing {vars} : Shaped g vars .statement ""
  /-- An expression as a statement. -/
  | simple {vars a m} :
    g.blank m → Shaped g vars .expression a → Shaped g vars .statement (m ++ a ++ ";\n")
  | loop {vars set targets a b m₁ m₂} :
    g.blank m₁ → g.blank m₂ → Targets set targets → (∀ v ∈ set, g.binds v) →
    Shaped g vars .expression a → Shaped g (set ++ vars) .statement b →
    Shaped g vars .statement
      (m₁ ++ "foreach " ++ ("(" ++ ("(" ++ (a ++ " ?? " ++ "[]") ++ ")" ++ " as " ++ targets) ++ ")")
        ++ " " ++ ("\x7b\n" ++ (b ++ m₂) ++ "\x7d") ++ "\n")
  | returned {vars a m} :
    g.blank m → Shaped g vars .expression a → a ≠ "" →
    Shaped g vars .result (m ++ "return " ++ a ++ ";\n")
  | thrown {vars a m} :
    g.blank m → Shaped g vars .expression a → a ≠ "" →
    Shaped g vars .result (m ++ "throw " ++ a ++ ";\n")
  | branch {vars context test a b m₁ m₂ m₃} :
    context ≠ .expression → g.blank m₁ → g.blank m₂ → g.blank m₃ →
    Shaped g vars .expression test → Shaped g vars context a → Shaped g vars context b →
    Shaped g vars context
      (m₁ ++ "if " ++ ("(" ++ test ++ ")") ++ " " ++ ("\x7b\n" ++ (a ++ m₂) ++ "\x7d") ++ " else "
        ++ ("\x7b\n" ++ (b ++ m₃) ++ "\x7d") ++ "\n")
  /-- An assignment, with the variable at hand in what comes after it. -/
  | assign {vars context v a b m} :
    context ≠ .expression → g.binds v → g.blank m → Shaped g vars .expression a →
    Shaped g (v :: vars) context b →
    Shaped g vars context (m ++ ("$" ++ munge v.name ++ " = " ++ a) ++ ";\n" ++ b)
  /-- Statements before others, or before what leaves. -/
  | follow {vars context a b} :
    context ≠ .expression → Shaped g vars .statement a → Shaped g vars context b →
    Shaped g vars context (a ++ b)

/-- The grammar takes what comes from the settings: the namespace of the runtime, and margins. -/
structure Grammar.Takes (g : Grammar) (config : Config) : Prop where
  runtime : g.word config.runtime
  margin (depth : Nat) : g.blank (margin config depth)

/-! ### Ends of lines -/

/-- The text is empty or ends with a line. -/
def Lines (t : String) : Prop := t = "" ∨ ∃ u, t = u ++ "\n"

theorem Lines.append {a b : String} (ha : Lines a) (hb : Lines b) : Lines (a ++ b) := by
  rcases hb with rfl | ⟨u, rfl⟩
  · rw [String.append_empty]
    exact ha
  · exact .inr ⟨a ++ u, String.append_assoc.symm⟩

theorem lines_semicolon (a : String) : Lines (a ++ ";\n") := by
  refine .inr ⟨a ++ ";", ?_⟩
  rw [show ";\n" = ";" ++ "\n" from rfl, String.append_assoc]

/-- Statements end with their line. -/
theorem lines_of_shaped {g : Grammar} {vars : List Symbol} {context : Context} {t : String}
    (h : Shaped g vars context t) (hcontext : context ≠ .expression) : Lines t := by
  induction h with
  | nothing => exact .inl rfl
  | simple | returned | thrown => exact lines_semicolon _
  | loop | branch => exact .inr ⟨_, rfl⟩
  | assign _ _ _ _ _ _ ih => exact (lines_semicolon _).append (ih hcontext)
  | follow _ _ _ iha ihb => exact (iha nofun).append (ihb hcontext)
  | _ => exact absurd rfl hcontext

section Pieces
variable {config : Config} {g : Grammar} {vars : List Symbol} {context : Context} {d : Nat}

/-! ### Pieces of expressions -/

/-- The texts of expressions in parentheses. -/
def Grouped (g : Grammar) (vars : List Symbol) (t : String) : Prop :=
  ∃ a, t = "(" ++ a ++ ")" ∧ Shaped g vars .expression a

theorem Grouped.shaped {t : String} (h : Grouped g vars t) : Shaped g vars .expression t := by
  obtain ⟨a, rfl, ha⟩ := h
  exact .parens ha

theorem shaped_intercalate {between : String} (hb : Shaped g vars .expression between)
    {ts : List String} (h : ∀ t ∈ ts, Shaped g vars .expression t) :
    Shaped g vars .expression (between.intercalate ts) := by
  induction ts with
  | nil =>
    rw [String.intercalate_nil]
    exact .inert (by decide)
  | cons t ts ih =>
    obtain ⟨ht, hts⟩ := List.forall_mem_cons.1 h
    cases ts with
    | nil =>
      rw [String.intercalate_singleton]
      exact ht
    | cons u us =>
      rw [String.intercalate_cons_cons]
      exact (ht.append hb).append (ih hts)

theorem shaped_commas {ts : List String} (h : ∀ t ∈ ts, Shaped g vars .expression t) :
    Shaped g vars .expression (commas ts) :=
  shaped_intercalate (.inert (by decide)) h

theorem args_eq (f args : String) : f ++ "(" ++ args ++ ")" = f ++ ("(" ++ args ++ ")") := by
  simp only [String.append_assoc]

theorem shaped_args {f : String} (hf : Shaped g vars .expression f) {ts : List String}
    (h : ∀ t ∈ ts, Shaped g vars .expression t) :
    Shaped g vars .expression (f ++ "(" ++ commas ts ++ ")") := by
  rw [args_eq]
  exact hf.append (.parens (shaped_commas h))

theorem shaped_runtimeClass (hg : g.Takes config) {cls : String} (h : Inert cls) :
    Shaped g vars .expression (config.runtimeClass cls) :=
  .append (.append (.word hg.runtime) (.inert (by decide))) (.inert h)

theorem shaped_construct (hg : g.Takes config) {cls constructor : String} (hcls : Inert cls)
    (hconstructor : Inert constructor) {ts : List String}
    (h : ∀ t ∈ ts, Shaped g vars .expression t) :
    Shaped g vars .expression (construct config cls constructor ts) := by
  refine shaped_args ?_ h
  exact ((shaped_runtimeClass hg hcls).append (.inert (by decide))).append (.inert hconstructor)

theorem shaped_truth (hg : g.Takes config) {t : String} (h : Shaped g vars .expression t) :
    Shaped g vars .expression (truth config t) := by
  have heq : truth config t = config.runtimeClass "Truthy" ++ "::isTruthy" ++ ("(" ++ t ++ ")") := by
    unfold truth
    rw [show "::isTruthy(" = "::isTruthy" ++ "(" from rfl]
    simp only [String.append_assoc]
  rw [heq]
  exact .append (.append (shaped_runtimeClass hg (by decide)) (.inert (by decide))) (.parens h)

theorem globalPlace_eq (config : Config) (home : String) (name : Symbol) :
    globalPlace config home name =
      "$GLOBALS" ++ ("[" ++ quote config.globalsKey ++ "]") ++ ("[" ++ quote home ++ "]")
        ++ ("[" ++ quote name.name ++ "]") := by
  unfold globalPlace
  rw [show "$GLOBALS[" = "$GLOBALS" ++ "[" from rfl, show "][" = "]" ++ "[" from rfl]
  simp only [String.append_assoc]

theorem shaped_globalPlace (home : String) (name : Symbol) :
    Shaped g vars .expression (globalPlace config home name) := by
  rw [globalPlace_eq]
  exact .append (.append (.append .globals (.brackets (.literal _))) (.brackets (.literal _)))
    (.brackets (.literal _))

theorem inert_of_isHostOperator {name : String} (h : isHostOperator name = true) : Inert name := by
  have hall : ∀ op ∈ hostOperators, Inert op := by decide
  exact hall name (by simpa [isHostOperator] using h)

/-- An operator as a value. -/
theorem grouped_hostValue {name : String} (h : isHostOperator name = true) :
    Grouped g vars (hostValue name) := by
  have heq : hostValue name =
      "(" ++ ("fn " ++ ("(" ++ "$a, $b" ++ ")") ++ " => $a " ++ name ++ " $b") ++ ")" := by
    rw [hostValue, if_pos h,
      show "(fn ($a, $b) => $a " = "(" ++ ("fn " ++ ("(" ++ "$a, $b" ++ ")") ++ " => $a ") from rfl,
      show " $b)" = " $b" ++ ")" from rfl]
    simp only [String.append_assoc]
  exact ⟨_, heq, .operator h⟩

theorem shaped_hostValue (name : String) : Shaped g vars .expression (hostValue name) := by
  cases h : isHostOperator name with
  | true => exact (grouped_hostValue h).shaped
  | false =>
    rw [hostValue, if_neg (Bool.eq_false_iff.1 h)]
    exact .literal name

theorem grouped_operation {operator : String} (ho : Inert operator) {ts : List String}
    (h : ∀ t ∈ ts, Shaped g vars .expression t) : Grouped g vars (operation operator ts) := by
  have hbetween : Shaped g vars .expression (" " ++ operator ++ " ") :=
    .append (.append (.inert (by decide)) (.inert ho)) (.inert (by decide))
  unfold operation
  split
  · next x =>
    have heq : "(" ++ operator ++ x ++ ")" = "(" ++ (operator ++ x) ++ ")" := by
      simp only [String.append_assoc]
    exact ⟨_, heq, .append (.inert ho) (h x (List.mem_singleton.2 rfl))⟩
  · exact ⟨_, rfl, shaped_intercalate hbetween h⟩

theorem grouped_branch (hg : g.Takes config) {a b c : String} (ha : Shaped g vars .expression a)
    (hb : Shaped g vars .expression b) (hc : Shaped g vars .expression c) :
    Grouped g vars ("(" ++ truth config a ++ " ? " ++ b ++ " : " ++ c ++ ")") := by
  have heq : "(" ++ truth config a ++ " ? " ++ b ++ " : " ++ c ++ ")" =
      "(" ++ (truth config a ++ " ? " ++ b ++ " : " ++ c) ++ ")" := by
    simp only [String.append_assoc]
  exact ⟨_, heq, .append (.append (.append (.append (shaped_truth hg ha) (.inert (by decide))) hb)
    (.inert (by decide))) hc⟩

theorem grouped_throw {a : String} (h : Shaped g vars .expression a) :
    Grouped g vars ("(throw " ++ a ++ ")") := by
  have heq : "(throw " ++ a ++ ")" = "(" ++ ("throw " ++ a) ++ ")" := by
    rw [show "(throw " = "(" ++ "throw " from rfl]
    simp only [String.append_assoc]
  exact ⟨_, heq, .append (.inert (by decide)) h⟩

/-- A call of what is no function of the host. -/
theorem callText_eq (text args : String) :
    "(" ++ text ++ ")(" ++ args ++ ")" = "(" ++ text ++ ")" ++ "(" ++ args ++ ")" := by
  rw [show ")(" = ")" ++ "(" from rfl]
  simp only [String.append_assoc]

theorem shaped_application {callee : Node} {text : String} {ts : List String}
    (hcallee : ∀ name i, callee = .hostVar name i → g.word name.name)
    (htext : Shaped g vars .expression text) (h : ∀ t ∈ ts, Shaped g vars .expression t) :
    Shaped g vars .expression (application callee text ts) := by
  unfold application
  split
  · next name i =>
    split
    · next hop => exact (grouped_operation (inert_of_isHostOperator hop) h).shaped
    · exact shaped_args (.word (hcallee name i rfl)) h
  · rw [callText_eq]
    exact shaped_args (.parens htext) h

theorem shaped_target {node : Node} {text : String}
    (hnode : ∀ name i, node = .className name i → g.word name.name)
    (htext : Shaped g vars .expression text) : Shaped g vars .expression (target node text) := by
  unfold target
  split
  · next name i => exact .word (hnode name i rfl)
  · exact .parens htext

theorem subscript_eq (node : Node) (text index : String) :
    subscript node text index =
      (if assignable node then text else "(" ++ text ++ ")") ++ ("[" ++ index ++ "]") := by
  unfold subscript
  simp only [String.append_assoc]

theorem shaped_subscript {node : Node} {text index : String}
    (htext : Shaped g vars .expression text) (hindex : Shaped g vars .expression index) :
    Shaped g vars .expression (subscript node text index) := by
  rw [subscript_eq]
  refine .append ?_ (.brackets hindex)
  split
  · exact htext
  · exact .parens htext

/-! ### Functions -/

theorem parameters (variadic : Bool) (params : List Symbol) :
    List.Forall₂ Parameter params (parameterNames variadic params) := by
  fun_induction parameterNames variadic params with
  | case1 => exact .nil
  | case2 p =>
    refine .cons ?_ .nil
    cases variadic with
    | false => exact .one
    | true => exact .rest
  | case3 p ps _ ih => exact .cons .one ih

/-- What stands between the parameters of a function and its body makes up a header with them. -/
theorem header (variadic : Bool) (params uses : List Symbol) :
    Header params uses ("(" ++ commas (parameterNames variadic params) ++ ")" ++ useClause uses) := by
  unfold useClause
  cases uses with
  | nil =>
    rw [if_pos List.isEmpty_nil, String.append_empty]
    exact .alone (parameters variadic params)
  | cons v uses =>
    have heq : "(" ++ commas (parameterNames variadic params) ++ ")" ++
          (if (v :: uses).isEmpty then "" else " use (" ++ commas ((v :: uses).map var) ++ ")") =
        "(" ++ ", ".intercalate (parameterNames variadic params) ++ ")" ++ " use " ++
          ("(" ++ ", ".intercalate ((v :: uses).map fun v => "$" ++ munge v.name) ++ ")") := by
      rw [if_neg (by simp), show " use (" = " use " ++ "(" from rfl]
      simp only [String.append_assoc]
      rfl
    rw [heq]
    exact .taking (List.cons_ne_nil v uses) (parameters variadic params)

/-- The text of a function, with its body apart. -/
theorem functionText_eq (params uses body margin : String) :
    "function (" ++ params ++ ")" ++ uses ++ " \x7b\n" ++ body ++ margin ++ "\x7d" =
      "function" ++ " " ++ ("(" ++ params ++ ")" ++ uses) ++ " "
        ++ ("\x7b\n" ++ (body ++ margin) ++ "\x7d") := by
  rw [show "function (" = "function" ++ " " ++ "(" from rfl,
    show " \x7b\n" = " " ++ "\x7b\n" from rfl]
  simp only [String.append_assoc]

theorem shaped_function (hg : g.Takes config) {params uses : List Symbol}
    (hparams : ∀ v ∈ params, g.binds v) (huses : ∀ v ∈ uses, g.reads vars v) {a : String}
    (ha : Shaped g (params ++ uses) .result a) (variadic : Bool) (d : Nat) :
    Shaped g vars .expression ("function (" ++ commas (parameterNames variadic params) ++ ")"
      ++ useClause uses ++ " \x7b\n" ++ a ++ margin config d ++ "\x7d") := by
  rw [functionText_eq]
  exact .function (.inr rfl) (header variadic params uses) hparams huses (hg.margin d) ha

/-- The text of a function that is called on the spot, with its header and its body apart. -/
theorem closure_eq (config : Config) (scope : Scope) (d : Nat) (a : String) :
    closure config scope d a =
      "(" ++ ("function" ++ "" ++ ("(" ++ commas (parameterNames false []) ++ ")"
        ++ useClause scope.vars) ++ " " ++ ("\x7b\n" ++ (a ++ margin config d) ++ "\x7d")) ++ ")"
        ++ ("(" ++ "" ++ ")") := by
  unfold closure
  rw [show "(function()" = "(" ++ ("function" ++ "" ++ ("(" ++ "" ++ ")")) from rfl,
    show " \x7b\n" = " " ++ "\x7b\n" from rfl,
    show "\x7d)()" = "\x7d" ++ ")" ++ ("(" ++ "" ++ ")") from rfl,
    show commas (parameterNames false []) = "" from rfl]
  simp only [String.append_assoc]

/-- A function that is called on the spot stands in parentheses before the call. -/
theorem grouped_closure (hg : g.Takes config) {scope : Scope}
    (h : ∀ v ∈ scope.vars, g.reads vars v) {a : String} (ha : Shaped g scope.vars .result a)
    (d : Nat) : ∃ f, closure config scope d a = f ++ ("(" ++ "" ++ ")") ∧ Grouped g vars f :=
  ⟨_, closure_eq config scope d a, _, rfl,
    .function (.inl rfl) (header false [] scope.vars) nofun h (hg.margin d) ha⟩

theorem shaped_closure (hg : g.Takes config) {scope : Scope}
    (h : ∀ v ∈ scope.vars, g.reads vars v) {a : String} (ha : Shaped g scope.vars .result a)
    (d : Nat) : Shaped g vars .expression (closure config scope d a) := by
  obtain ⟨f, heq, hf⟩ := grouped_closure hg h ha d
  rw [heq]
  exact hf.shaped.append (.parens (.inert (by decide)))

/-! ### Values -/

theorem inert_of_isDigit {c : Char} (h : c.isDigit = true) : isMark c = false ∧ c ≠ '$' := by
  have hmarks : ['(', ')', '[', ']', '\x7b', '\x7d', ';', '"', '\n'].all (!·.isDigit) = true := by
    decide
  constructor
  · rw [Bool.eq_false_iff]
    intro hc
    have hdigit := List.all_eq_true.1 hmarks c (List.contains_iff_mem.1 hc)
    rw [h] at hdigit
    cases hdigit
  · rintro rfl
    cases h

theorem isDigit_of_mem {n : Nat} {c : Char} (h : c ∈ Nat.toDigits 10 n) : c.isDigit = true :=
  Nat.isDigit_of_mem_toDigits (by decide) (by decide) h

theorem inert_toString_nat (n : Nat) : Inert (toString n) := by
  rw [Nat.toString_eq_ofList_toDigits]
  unfold Inert
  rw [String.toList_ofList]
  exact fun c hc => inert_of_isDigit (isDigit_of_mem hc)

theorem inert_toString_int (n : Int) : Inert (toString n) := by
  rw [Int.toString_eq_repr, Int.repr_eq_if]
  split
  · exact inert_toString_nat _
  · have hsign : Inert "-" := by decide
    exact forall_append hsign (inert_toString_nat _)

theorem plain_fresh (k : Nat) : Plain (Symbol.fresh k).name :=
  plain_append (by decide) (inert_toString_nat k).plain

open Decimal in
/-- Laid out, a decimal has no characters but digits, a point and an exponent. -/
theorem forall_layoutDigits {P : Char → Prop} (hdigit : ∀ c, c.isDigit = true → P c)
    (hothers : P '.' ∧ P 'e' ∧ P '-') (layout : Layout) (x : Scaled) :
    ∀ c ∈ (layout.digits x).toList, P c := by
  have hmarks : ∀ c ∈ ['.', 'e', '-'], P c := by simpa using hothers
  have hlist : ∀ {cs : List Char}, (∀ c ∈ cs, P c) → ∀ c ∈ (String.ofList cs).toList, P c := by
    intro cs hcs
    rwa [String.toList_ofList]
  have hdigits : ∀ {cs : List Char}, (∀ c ∈ cs, c ∈ Nat.toDigits 10 x.significand) →
      ∀ c ∈ (String.ofList cs).toList, P c :=
    fun hcs => hlist fun c hc => hdigit c (isDigit_of_mem (hcs c hc))
  have hzeros : ∀ n, ∀ c ∈ (Layout.zeros n).toList, P c := by
    refine fun n => hlist fun c hc => ?_
    rw [List.eq_of_mem_replicate hc]
    exact hdigit '0' rfl
  have hword : ∀ {t : String}, t.toList.all (fun c => c.isDigit || ['.', 'e', '-'].contains c) = true →
      ∀ c ∈ t.toList, P c := by
    intro t ht c hc
    rcases Bool.or_eq_true_iff.1 (List.all_eq_true.1 ht c hc) with hc | hc
    · exact hdigit c hc
    · exact hmarks c (List.contains_iff_mem.1 hc)
  unfold Layout.digits
  dsimp only
  split
  · split
    · exact forall_append (forall_append (hword (by decide)) (hzeros _)) (hdigits fun _ hc => hc)
    · split
      · exact forall_append (forall_append (hdigits fun _ hc => hc) (hzeros _)) (hword (by decide))
      · refine forall_append (forall_append (hdigits fun _ hc => ?_) (hword (by decide)))
          (hdigits fun _ hc => ?_)
        · exact List.mem_of_mem_take hc
        · exact List.mem_of_mem_drop hc
  · have hnumber : ∀ e : Int, ∀ c ∈ (toString e).toList, P c := by
      intro e
      rw [Int.toString_eq_repr, Int.repr_eq_if]
      split
      · exact hlist fun c hc => hdigit c (isDigit_of_mem hc)
      · exact forall_append (hword (by decide)) (hlist fun c hc => hdigit c (isDigit_of_mem hc))
    have hmark : ∀ e : Int, ∀ c ∈ ("e" ++ toString e).toList, P c :=
      fun e => forall_append (hword (by decide)) (hnumber e)
    split
    · next first rest _ hds =>
      refine forall_append (hlist (List.forall_mem_cons.2 ⟨?_, List.forall_mem_cons.2 ⟨?_, ?_⟩⟩)) (hmark _)
      · exact hdigit first (isDigit_of_mem (hds ▸ List.mem_cons_self))
      · exact hothers.1
      · exact fun c hc => hdigit c (isDigit_of_mem (hds ▸ List.mem_cons_of_mem _ hc))
    · exact forall_append (hdigits fun _ hc => hc) (hmark _)

theorem inert_layoutDigits (layout : Decimal.Layout) (x : Decimal.Scaled) :
    Inert (layout.digits x) :=
  forall_layoutDigits (fun _ => inert_of_isDigit) (by decide) layout x

theorem inert_write {layout : Decimal.Layout} (hnan : Inert layout.nan)
    (hinfinity : Inert layout.infinity) (bits : UInt64) : Inert (layout.write bits) := by
  have hsign : ∀ negative, Inert (Decimal.Layout.sign negative) := by decide
  have hzero : Inert "0.0" := by decide
  unfold Decimal.Layout.write
  split
  · exact hnan
  · exact forall_append (hsign _) hinfinity
  · exact forall_append (hsign _) hzero
  · exact forall_append (hsign _) (inert_layoutDigits _ _)

mutual
theorem shaped_value (hg : g.Takes config) : ∀ f : Form, Shaped g vars .expression (value config f)
  | .nil =>
    have hnull : Inert "null" := by decide
    .inert hnull
  | .bool b =>
    have hbool : ∀ b : Bool, Inert (if b then "true" else "false") := by decide
    .inert (hbool b)
  | .int n => .inert (inert_toString_int _)
  | .float bits => .inert (inert_write (by decide) (by decide) bits)
  | .str s => .literal s
  | .keyword s =>
    shaped_construct hg (by decide) (by decide) (List.forall_mem_singleton.2 (.literal s))
  | .symbol s _ =>
    shaped_construct hg (by decide) (by decide) (List.forall_mem_singleton.2 (.literal s.text))
  | .tuple .paren xs _ | .tuple .bracket xs _ | .set xs _ | .array xs _ =>
    shaped_construct hg (by decide) (by decide) (shaped_values hg xs)
  | .table es _ => shaped_construct hg (by decide) (by decide) (shaped_entryValues hg es)

theorem shaped_values (hg : g.Takes config) :
    ∀ fs : List Form, ∀ t ∈ values config fs, Shaped g vars .expression t
  | [] => by simp [values]
  | f :: fs => List.forall_mem_cons.2 ⟨shaped_value hg f, shaped_values hg fs⟩

theorem shaped_entryValues (hg : g.Takes config) :
    ∀ es : List (Form × Form), ∀ t ∈ entryValues config es, Shaped g vars .expression t
  | [] => by simp [entryValues]
  | (k, v) :: es =>
    List.forall_mem_cons.2 ⟨shaped_value hg k, List.forall_mem_cons.2
      ⟨shaped_value hg v, shaped_entryValues hg es⟩⟩
end

/-! ### Texts that are not empty -/

theorem toString_nat_ne_empty (n : Nat) : toString n ≠ "" := by
  rw [Nat.toString_eq_ofList_toDigits]
  intro h
  have hlist := congrArg String.toList h
  rw [String.toList_ofList] at hlist
  exact Nat.toDigits_ne_nil hlist

theorem toString_int_ne_empty (n : Int) : toString n ≠ "" := by
  rw [Int.toString_eq_repr, Int.repr_eq_if]
  split
  · exact toString_nat_ne_empty _
  · simp [String.append_eq_empty_iff]

theorem layoutDigits_ne_empty (layout : Decimal.Layout) (x : Decimal.Scaled) :
    layout.digits x ≠ "" := by
  unfold Decimal.Layout.digits
  dsimp only
  repeat' split
  all_goals simp [String.append_eq_empty_iff]

theorem write_ne_empty {layout : Decimal.Layout} (hnan : layout.nan ≠ "")
    (hinfinity : layout.infinity ≠ "") (bits : UInt64) : layout.write bits ≠ "" := by
  unfold Decimal.Layout.write
  split
  · exact hnan
  · simp [String.append_eq_empty_iff, hinfinity]
  · simp [String.append_eq_empty_iff]
  · simp [String.append_eq_empty_iff, layoutDigits_ne_empty]

theorem quote_ne_empty (s : String) : quote s ≠ "" := by
  intro h
  have hlist := congrArg String.toList h
  simp [quote] at hlist

theorem construct_ne_empty (cls constructor : String) (ts : List String) :
    construct config cls constructor ts ≠ "" := by
  simp [construct, String.append_eq_empty_iff]

theorem value_ne_empty (f : Form) : value config f ≠ "" := by
  unfold value
  split
  · decide
  · split <;> decide
  · exact toString_int_ne_empty _
  · exact write_ne_empty (by decide) (by decide) _
  · exact quote_ne_empty _
  all_goals exact construct_ne_empty _ _ _

theorem hostValue_ne_empty (name : String) : hostValue name ≠ "" := by
  unfold hostValue
  split
  · simp [String.append_eq_empty_iff]
  · exact quote_ne_empty _

theorem application_ne_empty (callee : Node) (text : String) (ts : List String) :
    application callee text ts ≠ "" := by
  unfold application
  split
  · split
    · unfold operation
      split <;> simp [String.append_eq_empty_iff]
    · simp [String.append_eq_empty_iff]
  · simp [String.append_eq_empty_iff]

/-! ### Statements -/

theorem shaped_framed (hg : g.Takes config) {t : String} (h : Shaped g vars .expression t)
    (ht : t ≠ "") : Shaped g vars context (framed config context d t) := by
  cases context with
  | expression => exact h
  | statement => exact .simple (hg.margin d) h
  | result => exact .returned (hg.margin d) h ht

theorem shaped_join (hcontext : context ≠ .expression) {ts : List String}
    (h : ∀ t ∈ ts, Shaped g vars .statement t) {last : String}
    (hlast : Shaped g vars context last) : Shaped g vars context (String.join ts ++ last) := by
  induction ts with
  | nil =>
    rw [String.join_nil, String.empty_append]
    exact hlast
  | cons t ts ih =>
    obtain ⟨ht, hts⟩ := List.forall_mem_cons.1 h
    rw [String.join_cons, String.append_assoc]
    exact .follow hcontext ht (ih hts)

theorem shaped_assignment (hg : g.Takes config) (hcontext : context ≠ .expression) {v : Symbol}
    (hv : g.binds v) {a b : String} (ha : Shaped g vars .expression a)
    (hb : Shaped g (v :: vars) context b) :
    Shaped g vars context (line config d (var v ++ " = " ++ a ++ ";") ++ b) := by
  have heq : line config d (var v ++ " = " ++ a ++ ";") ++ b =
      margin config d ++ ("$" ++ munge v.name ++ " = " ++ a) ++ ";\n" ++ b := by
    rw [line, show ";\n" = ";" ++ "\n" from rfl]
    simp only [String.append_assoc]
    rfl
  rw [heq]
  exact .assign hcontext hv (hg.margin d) ha hb

theorem shaped_branch (hg : g.Takes config) (hcontext : context ≠ .expression) {test a b : String}
    (htest : Shaped g vars .expression test) (ha : Shaped g vars context a)
    (hb : Shaped g vars context b) :
    Shaped g vars context (line config d ("if (" ++ test ++ ") \x7b") ++ a
      ++ line config d "\x7d else \x7b" ++ b ++ line config d "\x7d") := by
  have heq : line config d ("if (" ++ test ++ ") \x7b") ++ a ++ line config d "\x7d else \x7b" ++ b
        ++ line config d "\x7d" =
      margin config d ++ "if " ++ ("(" ++ test ++ ")") ++ " "
        ++ ("\x7b\n" ++ (a ++ margin config d) ++ "\x7d") ++ " else "
        ++ ("\x7b\n" ++ (b ++ margin config d) ++ "\x7d") ++ "\n" := by
    unfold line
    rw [show "if (" = "if " ++ "(" from rfl, show ") \x7b" = ")" ++ " " ++ "\x7b" from rfl,
      show "\x7b\n" = "\x7b" ++ "\n" from rfl,
      show "\x7d else \x7b" = "\x7d" ++ " else " ++ "\x7b" from rfl]
    simp only [String.append_assoc]
  rw [heq]
  exact .branch hcontext (hg.margin d) (hg.margin d) (hg.margin d) htest ha hb

theorem shaped_loop (hg : g.Takes config) {v : Symbol} {key : Option Symbol}
    (hbinds : ∀ w ∈ key.toList ++ [v], g.binds w) {a b : String}
    (ha : Shaped g vars .expression a) (hb : Shaped g (key.toList ++ v :: vars) .statement b) :
    Shaped g vars .statement (line config d (loopHead v key a) ++ b ++ line config d "\x7d") := by
  have heq : ∀ targets,
      line config d ("foreach ((" ++ a ++ " ?? []) as " ++ targets ++ ") \x7b") ++ b
          ++ line config d "\x7d" =
        margin config d ++ "foreach "
          ++ ("(" ++ ("(" ++ (a ++ " ?? " ++ "[]") ++ ")" ++ " as " ++ targets) ++ ")")
          ++ " " ++ ("\x7b\n" ++ (b ++ margin config d) ++ "\x7d") ++ "\n" := by
    intro targets
    unfold line
    rw [show "foreach ((" = "foreach " ++ "(" ++ "(" from rfl,
      show " ?? []) as " = " ?? " ++ "[]" ++ ")" ++ " as " from rfl,
      show ") \x7b" = ")" ++ " " ++ "\x7b" from rfl, show "\x7b\n" = "\x7b" ++ "\n" from rfl]
    simp only [String.append_assoc]
  cases key with
  | none =>
    have hhead : loopHead v none a = "foreach ((" ++ a ++ " ?? []) as " ++ ("$" ++ munge v.name)
        ++ ") \x7b" := by
      show "foreach ((" ++ a ++ " ?? []) as " ++ "" ++ var v ++ ") \x7b" = _
      rw [String.append_empty]
      rfl
    rw [hhead, heq]
    exact .loop (hg.margin d) (hg.margin d) (.value v) hbinds ha hb
  | some k =>
    have hhead : loopHead v (some k) a = "foreach ((" ++ a ++ " ?? []) as "
        ++ ("$" ++ munge k.name ++ " => " ++ ("$" ++ munge v.name)) ++ ") \x7b" := by
      show "foreach ((" ++ a ++ " ?? []) as " ++ (var k ++ " => ") ++ var v ++ ") \x7b" = _
      simp only [String.append_assoc]
      rfl
    rw [hhead, heq]
    exact .loop (hg.margin d) (hg.margin d) (.both k v) hbinds ha hb

theorem shaped_returnNull (hg : g.Takes config) :
    Shaped g vars .result (line config d "return null;") := by
  have heq : line config d "return null;" = margin config d ++ "return " ++ "null" ++ ";\n" := by
    rw [line, show "return null;" = "return " ++ "null" ++ ";" from rfl,
      show ";\n" = ";" ++ "\n" from rfl]
    simp only [String.append_assoc]
  rw [heq]
  exact .returned (hg.margin d) (.inert (by decide)) (by decide)

theorem shaped_throw (hg : g.Takes config) (hcontext : context ≠ .expression) {a : String}
    (h : Shaped g vars .expression a) (ha : a ≠ "") :
    Shaped g vars context (line config d ("throw " ++ a ++ ";")) := by
  unfold line
  cases context with
  | expression => exact absurd rfl hcontext
  | statement =>
    have heq : margin config d ++ ("throw " ++ a ++ ";") ++ "\n" =
        margin config d ++ ("throw " ++ a) ++ ";\n" := by
      rw [show ";\n" = ";" ++ "\n" from rfl]
      simp only [String.append_assoc]
    rw [heq]
    exact .simple (hg.margin d) (.append (.inert (by decide)) h)
  | result =>
    have heq : margin config d ++ ("throw " ++ a ++ ";") ++ "\n" =
        margin config d ++ "throw " ++ a ++ ";\n" := by
      rw [show ";\n" = ";" ++ "\n" from rfl]
      simp only [String.append_assoc]
    rw [heq]
    exact .thrown (hg.margin d) h ha

end Pieces

end LarkPhp.Php
