import LarkPhp.Proofs.Nesting
import LarkPhp.Proofs.Quotation

/-!
Operands of operators.

An operator is written between the texts of its operands, in parentheses, so the texts keep their
grouping if nothing in them binds less and nothing at their start runs into the operator.  In the
text of a node an assignment stands outside of all brackets exactly if the node assigns (`assigns`),
and the first character is of the kind that the node opens with (`opening`).  Operators can run into
operands of few kinds only (`clashes`).
-/

namespace LarkPhp.Php

/-! ### Words -/

/-- Whether the character may stand in a word: the name of a function, a class or a member, with its
namespaces. -/
def isWordChar (c : Char) : Bool := c.isAlphanum || c == '_' || c == '\\' || 128 ≤ c.toNat

/-- Whether the text is a word.  No word starts with a digit. -/
def isWord (t : String) : Bool :=
  match t.toList with
  | [] => false
  | c :: cs => !c.isDigit && (c :: cs).all isWordChar

theorem exists_cons_of_isWord {t : String} (h : isWord t = true) :
    ∃ c cs, t.toList = c :: cs ∧ c.isDigit = false ∧ ∀ k ∈ c :: cs, isWordChar k = true := by
  unfold isWord at h
  split at h
  · cases h
  · next c cs hcs =>
    rw [Bool.and_eq_true, Bool.not_eq_true', List.all_eq_true] at h
    exact ⟨c, cs, hcs, h.1, h.2⟩

theorem isWordChar_of_isWord {t : String} (h : isWord t = true) :
    ∀ k ∈ t.toList, isWordChar k = true := by
  obtain ⟨c, cs, hcs, -, hall⟩ := exists_cons_of_isWord h
  rwa [hcs]

theorem plain_of_isWord {t : String} (h : isWord t = true) : Plain t := by
  have hmarks : ['(', ')', '[', ']', '\x7b', '\x7d', ';', '"', '\n'].all (!isWordChar ·) = true := by
    decide
  intro c hc
  rw [Bool.eq_false_iff]
  intro hmark
  have hword := List.all_eq_true.1 hmarks c (List.contains_iff_mem.1 hmark)
  rw [isWordChar_of_isWord h c hc] at hword
  cases hword

/-! ### Text outside of brackets -/

namespace Scan

/-- Read from here on, the text has no `=` outside of brackets and literals. -/
def Free : Scan → List Char → Prop
  | _, [] => True
  | s, c :: cs => (s = start → c ≠ '=') ∧ ∀ s', s.step c = some s' → Free s' cs

/-- The text holds a piece outside of brackets and literals. -/
def Meets (piece t : String) : Prop :=
  ∃ before after, t = before ++ piece ++ after ∧ start.run before = some start

/-- The scan with more brackets open around it. -/
def within (s : Scan) (outer : List Char) : Scan := ⟨s.mode, s.pending ++ outer⟩

section Free
variable {s s' : Scan} {a b outer : List Char}

theorem free_of_not_mem (h : '=' ∉ a) : s.Free a := by
  induction a generalizing s with
  | nil => trivial
  | cons c cs ih =>
    rw [List.mem_cons, not_or] at h
    exact ⟨fun _ => Ne.symm h.1, fun s' _ => ih h.2⟩

theorem Free.append (ha : s.Free a) (hb : ∀ s', s.reads a = some s' → s'.Free b) :
    s.Free (a ++ b) := by
  induction a generalizing s with
  | nil => exact hb s rfl
  | cons c cs ih =>
    refine ⟨ha.1, fun s₁ hs₁ => ih (ha.2 s₁ hs₁) fun s' hs' => hb s' ?_⟩
    exact Option.bind_eq_some_iff.2 ⟨s₁, hs₁, hs'⟩

theorem Free.of_append (h : s.Free (a ++ b)) (hrun : s.reads a = some s') : s'.Free b := by
  induction a generalizing s with
  | nil =>
    cases hrun
    exact h
  | cons c cs ih =>
    obtain ⟨s₁, hs₁, hrun⟩ := Option.bind_eq_some_iff.1 hrun
    exact ih (h.2 s₁ hs₁) hrun

/-- No assignment is met where no `=` is. -/
theorem not_meets_of_free {t : String} (h : start.Free t.toList) : ¬Meets " = " t := by
  rintro ⟨before, after, rfl, hrun⟩
  rw [String.toList_append, String.toList_append, List.append_assoc] at h
  have hrest : start.Free ([' ', '=', ' '] ++ after.toList) := h.of_append hrun
  exact (hrest.2 start rfl).1 rfl rfl

/-- Brackets that are open around a text stay open while those inside of it are read. -/
theorem bare_within {pending : List Char} {c : Char} {s₂ : Scan} (h : bare pending c = some s')
    (h₂ : bare (pending ++ outer) c = some s₂) : s₂ = s'.within outer := by
  have hclose : ∀ {p : List Char} {d : Char} {s' s₂ : Scan},
      (if p.head? = some d then some (Scan.mk .code p.tail) else none) = some s' →
      (if (p ++ outer).head? = some d then some (Scan.mk .code (p ++ outer).tail) else none)
        = some s₂ → s₂ = s'.within outer := by
    intro p d s' s₂ h h₂
    cases p with
    | nil => cases h
    | cons e p =>
      split at h
      · next hd =>
        rw [if_pos (show (e :: p ++ outer).head? = some d from hd)] at h₂
        cases h
        cases h₂
        rfl
      · cases h
  unfold bare at h
  split at h
  iterate 4
    cases h
    cases h₂
    rfl
  iterate 3 exact hclose h h₂
  · have hsemicolon : (if admitsStatements (pending ++ outer) then
        some (Scan.mk .code (pending ++ outer)) else none) = some s₂ := h₂
    split at h
    · cases h
      split at hsemicolon
      · cases hsemicolon
        rfl
      · cases hsemicolon
    · cases h
  · cases h
    unfold bare at h₂
    split at h₂ <;> first | contradiction | (cases h₂; rfl)

theorem step_within {c : Char} {s₂ : Scan} (h : s.step c = some s')
    (h₂ : (s.within outer).step c = some s₂) : s₂ = s'.within outer := by
  obtain ⟨mode, pending⟩ := s
  cases mode with
  | code => exact bare_within h h₂
  | literal =>
    simp only [step, within] at h h₂
    split_ifs at h h₂ <;>
    · cases h
      cases h₂
      rfl
  | escaped =>
    cases h
    cases h₂
    rfl

/-- Inside of brackets nothing counts. -/
theorem free_within (houter : outer ≠ []) (h : s.reads a = some s') : (s.within outer).Free a := by
  have hne : ∀ s : Scan, s.within outer ≠ start := by
    intro s hs
    have hpending := congrArg Scan.pending hs
    exact houter (List.append_eq_nil_iff.1 hpending).2
  induction a generalizing s with
  | nil => trivial
  | cons c cs ih =>
    obtain ⟨s₁, hs₁, h⟩ := Option.bind_eq_some_iff.1 h
    refine ⟨fun hs => absurd hs (hne s), fun s₂ hs₂ => ?_⟩
    rw [step_within hs₁ hs₂]
    exact ih h

theorem not_mem_escape {c : Char} (h : c ≠ '=') : '=' ∉ escape c := by
  have hhex : ∀ k < 16, '=' ≠ hexDigit k := by decide
  unfold escape
  split
  iterate 9 decide
  split
  · next hcontrol =>
    have hhigh : c.toNat / 16 < 16 := by omega
    have hlow : c.toNat % 16 < 16 := Nat.mod_lt _ (by decide)
    simp [hhex _ hhigh, hhex _ hlow]
  · simpa using h.symm

theorem free_escapes (pending cs : List Char) : Free ⟨.literal, pending⟩ (cs.flatMap escape) := by
  induction cs with
  | nil => trivial
  | cons c cs ih =>
    rw [List.flatMap_cons]
    refine Free.append ?_ fun s' hs' => ?_
    · by_cases hc : c = '='
      · rw [hc]
        exact ⟨nofun, fun _ _ => trivial⟩
      · exact free_of_not_mem (not_mem_escape hc)
    · rw [reads_escape] at hs'
      cases hs'
      exact ih

end Free

/-- The scan passes over the text, and nothing in it is assigned outside of brackets. -/
structure Flat (t : String) : Prop where
  passes : Passes .expression t
  free : start.Free t.toList

section Flat
variable {context : Context} {a b t : String}

theorem Flat.append (ha : Flat a) (hb : Flat b) : Flat (a ++ b) := by
  refine ⟨ha.passes.append hb.passes, ?_⟩
  rw [String.toList_append]
  refine ha.free.append fun s' hs' => ?_
  have hstart : start.reads a.toList = some start := ha.passes [] (.inl rfl)
  rw [hstart] at hs'
  cases hs'
  exact hb.free

theorem flat_text (h : Plain t) (hassign : '=' ∉ t.toList) : Flat t :=
  ⟨passes_plain h, free_of_not_mem hassign⟩

theorem flat_quote (s : String) : Flat (quote s) := by
  refine ⟨fun _ _ => run_quote s, ?_⟩
  rw [quote, String.toList_ofList, List.cons_append]
  refine ⟨by decide, fun s' hs' => ?_⟩
  cases hs'
  exact (free_escapes [] _).append fun _ _ => free_of_not_mem (by decide)

/-- Nothing is assigned in a text that stands in brackets. -/
theorem flat_between {opening closing : String} {o c : Char} (hopening : opening.toList = [o])
    (ho : o ≠ '=' ∧ start.step o = some ⟨.code, [c]⟩) (hclosing : '=' ∉ closing.toList)
    (ha : start.run a = some start) (hpasses : Passes .expression (opening ++ a ++ closing)) :
    Flat (opening ++ a ++ closing) := by
  refine ⟨hpasses, ?_⟩
  rw [String.toList_append, String.toList_append, hopening, List.append_assoc]
  refine ⟨fun _ => ho.1, fun s' hs' => ?_⟩
  cases ho.2.symm.trans hs'
  have hinside : (start.within [c]).Free a.toList := free_within (by simp) ha
  exact hinside.append fun _ _ => free_of_not_mem hclosing

theorem flat_parens (h : Passes .expression a) : Flat ("(" ++ a ++ ")") :=
  flat_between (o := '(') (c := ')') (by decide) ⟨by decide, rfl⟩ (by decide) (h [] (.inl rfl)) h.parens

theorem flat_brackets (h : Passes .expression a) : Flat ("[" ++ a ++ "]") :=
  flat_between (o := '[') (c := ']') (by decide) ⟨by decide, rfl⟩ (by decide) (h [] (.inl rfl)) h.brackets

theorem flat_braces (h : Passes context a) : Flat ("\x7b\n" ++ a ++ "\x7d") := by
  have heq : "\x7b\n" ++ a ++ "\x7d" = "\x7b" ++ ("\n" ++ a) ++ "\x7d" := by
    rw [show "\x7b\n" = "\x7b" ++ "\n" from rfl]
    simp only [String.append_assoc]
  have hline : Passes context ("\n" ++ a) := passes_newline.append h
  have hpasses : Passes .expression ("\x7b\n" ++ a ++ "\x7d") := h.braces
  rw [heq] at hpasses ⊢
  exact flat_between (o := '\x7b') (c := '\x7d') (by decide) ⟨by decide, rfl⟩ (by decide)
    (hline [] (.inr rfl)) hpasses

end Flat

end Scan

open Scan

/-! ### First characters -/

/-- The kinds of characters that an expression can start with. -/
inductive Opening where
  /-- The `$` of a variable. -/
  | sigil
  /-- The quote of a literal. -/
  | literal
  /-- An opening parenthesis. -/
  | group
  /-- The sign of a number. -/
  | minus
  | digit
  /-- A character of a word. -/
  | word
deriving DecidableEq

/-- The kind of a character at the start of an expression. -/
def Opening.of? : Char → Option Opening
  | '$' => some .sigil
  | '"' => some .literal
  | '(' => some .group
  | '-' => some .minus
  | c => if c.isDigit then some .digit else if isWordChar c then some .word else none

/-- A text in which nothing is assigned outside of brackets, and what it starts with. -/
structure Opens (o : Opening) (t : String) : Prop where
  flat : Flat t
  head : t.toList.head?.bind Opening.of? = some o

section Opens
variable {o : Opening} {a b t : String}

theorem head_append (h : a.toList.head?.bind Opening.of? = some o) :
    (a ++ b).toList.head?.bind Opening.of? = some o := by
  obtain ⟨c, hc, -⟩ := Option.bind_eq_some_iff.1 h
  rw [String.toList_append, List.head?_append, hc, Option.some_or, ← hc, h]

theorem Opens.append (ha : Opens o a) (hb : Flat b) : Opens o (a ++ b) :=
  ⟨ha.flat.append hb, head_append ha.head⟩

theorem Opening.of?_of_isDigit {c : Char} (h : c.isDigit = true) : Opening.of? c = some .digit := by
  unfold Opening.of?
  split
  iterate 4 cases h
  rw [if_pos h]

theorem Opening.of?_of_isWordChar {c : Char} (h : isWordChar c = true) (hdigit : c.isDigit = false) :
    Opening.of? c = some .word := by
  unfold Opening.of?
  split
  iterate 4 cases h
  rw [if_neg (Bool.eq_false_iff.1 hdigit), if_pos h]

theorem opens_word (h : isWord t = true) : Opens .word t := by
  refine ⟨flat_text (plain_of_isWord h) fun hmem => ?_, ?_⟩
  · cases isWordChar_of_isWord h _ hmem
  · obtain ⟨c, cs, hcs, hdigit, hall⟩ := exists_cons_of_isWord h
    rw [hcs, List.head?_cons, Option.bind_some]
    exact Opening.of?_of_isWordChar (hall c List.mem_cons_self) hdigit

theorem opens_quote (s : String) : Opens .literal (quote s) := by
  refine ⟨flat_quote s, ?_⟩
  rw [quote, String.toList_ofList]
  rfl

theorem opens_parens (h : Passes .expression a) : Opens .group ("(" ++ a ++ ")") := by
  have hopen : "(".toList.head?.bind Opening.of? = some .group := rfl
  exact ⟨flat_parens h, head_append (head_append hopen)⟩

end Opens

/-! ### What nodes open with -/

/-- What a double opens with. -/
def doubleOpening : Decimal.Double → Opening
  | .nan => .word
  | .infinite negative => if negative then .minus else .word
  | .zero negative | .finite negative .. => if negative then .minus else .digit

/-- What the expression for a form opens with. -/
def valueOpening : Form → Opening
  | .int n => if 0 ≤ n.toInt then .digit else .minus
  | .float bits => doubleOpening (.ofBits bits)
  | .str _ => .literal
  | _ => .word

/-- What a call opens with. -/
def callOpening : (callee : Node) → Opening
  | .hostVar name _ => if isHostOperator name.name then .group else .word
  | _ => .group

/-- What the object or class opens with whose member is meant. -/
def targetOpening : Node → Opening
  | .className .. => .word
  | _ => .group

/-- What the code of a node opens with, where the node is an expression. -/
def opening : Node → Opening
  | .literal v _ => valueOpening v
  | .localVar .. | .globalVar .. | .definition .. => .sigil
  | .hostVar name _ => if isHostOperator name.name then .group else .literal
  | .call callee _ _ => callOpening callee
  | .block [] last _ => opening last
  | .block (_ :: _) _ _ | .branch .. | .bindings .. | .loop .. | .throw .. => .group
  | .member object _ _ _ _ => targetOpening object
  | .arrayGet array _ _ | .arraySet array _ _ _ => if assignable array then .sigil else .group
  | .className .. | .function .. | .table .. | .array .. | .set .. | .tuple .. | .new ..
  | .methodCall .. | .property .. => .word

/-- Whether the code of a node is an assignment, where the node is an expression. -/
def assigns : Node → Bool
  | .definition .. | .arraySet .. => true
  | .block [] last _ => assigns last
  | _ => false

/-- The names of the host that the node spells out by itself, but for operators. -/
def foreign : Node → List Symbol
  | .hostVar name _ => if isHostOperator name.name then [] else [name]
  | .className name _ | .methodCall name _ _ | .property name _ => [name]
  | _ => []

/-- The text of an expression, by what it opens with and by whether it is an assignment. -/
inductive Leads (o : Opening) : (assigns : Bool) → String → Prop
  | value {t} : Opens o t → Leads o false t
  | assignment {place rest} : Opens o place → Leads o true (place ++ " = " ++ rest)

theorem Leads.head {o : Opening} {assigns : Bool} {t : String} (h : Leads o assigns t) :
    t.toList.head?.bind Opening.of? = some o := by
  cases h with
  | value h => exact h.head
  | assignment h => exact head_append (head_append h.head)

theorem Leads.meets_iff {o : Opening} {assigns : Bool} {t : String} (h : Leads o assigns t) :
    Meets " = " t ↔ assigns = true := by
  cases h with
  | value h => exact iff_of_false (not_meets_of_free h.flat.free) Bool.false_ne_true
  | @assignment place rest h => exact iff_of_true ⟨place, rest, rfl, h.flat.passes [] (.inl rfl)⟩ rfl

/-- A configuration whose names are words, and whose margins hold no marks. -/
structure Config.Legible (config : Config) : Prop where
  runtime : isWord config.runtime = true
  indent : Plain config.indent

section Pieces
variable {config : Config} (hconfig : config.Legible) {d : Nat} {o : Opening} {context : Context}
  {t : String} {ts : List String}

/-- Texts in which all names are plain. -/
abbrev Text (context : Context) (t : String) : Prop := Shaped (.plain Plain) [] context t

theorem not_mem_munge (name : String) : '=' ∉ (munge name).toList := by
  have hchar : ∀ c, '=' ∉ mungeChar c := by
    intro c
    unfold mungeChar
    split
    iterate 13 decide
    · next hc _ _ _ _ _ _ =>
      simpa using Ne.symm hc
  unfold munge
  rw [String.toList_ofList]
  intro hmem
  obtain ⟨c, -, hc⟩ := List.mem_flatMap.1 hmem
  exact hchar c hc

theorem opens_var {v : Symbol} (h : Plain v.name) : Opens .sigil (var v) := by
  have hsigil : Opens .sigil "$" := ⟨flat_text (by decide) (by decide), rfl⟩
  exact hsigil.append (flat_text (plain_munge h) (not_mem_munge v.name))

theorem opens_globalPlace (home : String) (name : Symbol) :
    Opens .sigil (globalPlace config home name) := by
  have hglobals : Opens .sigil "$GLOBALS" := ⟨flat_text (by decide) (by decide), rfl⟩
  have hkey : ∀ s : String, Flat ("[" ++ quote s ++ "]") := fun s => flat_brackets (flat_quote s).passes
  rw [globalPlace_eq]
  exact ((hglobals.append (hkey _)).append (hkey _)).append (hkey _)

theorem opens_signed (h : Opens o t) (negative : Bool) :
    Opens (if negative then .minus else o) (Decimal.Layout.sign negative ++ t) := by
  cases negative with
  | false => exact h
  | true =>
    have hsign : Opens .minus "-" := ⟨flat_text (by decide) (by decide), rfl⟩
    exact hsign.append h.flat

open Decimal in
theorem opens_layoutDigits (layout : Layout) (x : Scaled) : Opens .digit (layout.digits x) := by
  have hno : '=' ∉ (layout.digits x).toList := by
    intro hmem
    have hne : ∀ c : Char, c.isDigit = true → c ≠ '=' := by
      rintro c hc rfl
      cases hc
    exact forall_layoutDigits hne (by decide) layout x '=' hmem rfl
  have hdigits : ∀ {cs : List Char}, cs ≠ [] → (∀ c ∈ cs, c ∈ Nat.toDigits 10 x.significand) →
      (String.ofList cs).toList.head?.bind Opening.of? = some .digit := by
    intro cs hne hcs
    obtain ⟨c, cs, rfl⟩ := List.exists_cons_of_ne_nil hne
    rw [String.toList_ofList]
    exact Opening.of?_of_isDigit (isDigit_of_mem (hcs c List.mem_cons_self))
  have hall := hdigits Nat.toDigits_ne_nil fun _ hc => hc
  refine ⟨flat_text (inert_layoutDigits layout x).plain hno, ?_⟩
  unfold Layout.digits
  dsimp only
  split
  · split
    · exact head_append (head_append rfl)
    · split
      · exact head_append (head_append hall)
      · refine head_append (head_append (hdigits ?_ fun _ hc => List.mem_of_mem_take hc))
        simp [Nat.toDigits_ne_nil]
  · split
    · next first rest _ hds =>
      refine head_append ?_
      rw [String.toList_ofList]
      exact Opening.of?_of_isDigit (isDigit_of_mem (hds ▸ List.mem_cons_self))
    · exact head_append hall

theorem opens_int (n : Int) : Opens (if 0 ≤ n then .digit else .minus) (toString n) := by
  refine ⟨flat_text (inert_toString_int n).plain (not_mem_toString_int n (by decide)), ?_⟩
  rw [toList_toString_int]
  split
  · obtain ⟨c, cs, hcs⟩ := List.exists_cons_of_ne_nil (Nat.toDigits_ne_nil (n := n.toNat) (b := 10))
    rw [hcs]
    exact Opening.of?_of_isDigit (isDigit_of_mem (hcs ▸ List.mem_cons_self))
  · rfl

theorem opens_float (bits : UInt64) :
    Opens (doubleOpening (.ofBits bits)) (floatLayout.write bits) := by
  have hnan : isWord floatLayout.nan = true := by decide
  have hinfinity : isWord floatLayout.infinity = true := by decide
  have hzero : Opens .digit "0.0" := ⟨flat_text (by decide) (by decide), rfl⟩
  unfold Decimal.Layout.write
  cases Decimal.Double.ofBits bits with
  | nan => exact opens_word hnan
  | infinite negative => exact opens_signed (opens_word hinfinity) negative
  | zero negative => exact opens_signed hzero negative
  | finite negative => exact opens_signed (opens_layoutDigits _ _) negative

theorem passes_text {context : Context} (h : Text context t) : Passes context t :=
  passes_of_shaped (fun _ h => h) h

theorem opens_grouped (h : Grouped (.plain Plain) [] t) : Opens .group t := by
  obtain ⟨a, rfl, ha⟩ := h
  exact opens_parens (passes_text ha)

theorem opens_args (h : Opens o t) (hts : ∀ t ∈ ts, Text .expression t) :
    Opens o (t ++ "(" ++ commas ts ++ ")") := by
  rw [args_eq]
  exact h.append (flat_parens (passes_text (shaped_commas hts)))

theorem opens_hostValue (name : String) :
    Opens (if isHostOperator name then .group else .literal) (hostValue name) := by
  cases h : isHostOperator name with
  | true => exact opens_grouped (grouped_hostValue h)
  | false =>
    rw [hostValue, if_neg (Bool.eq_false_iff.1 h)]
    exact opens_quote name

theorem opens_application {callee : Node} (hcallee : ∀ v ∈ foreign callee, isWord v.name = true)
    (ht : Text .expression t) (hts : ∀ t ∈ ts, Text .expression t) :
    Opens (callOpening callee) (application callee t ts) := by
  unfold application
  split
  · next name i =>
    cases hop : isHostOperator name.name with
    | true =>
      simp only [callOpening, hop, if_true]
      exact opens_grouped (grouped_operation (inert_of_isHostOperator hop) hts)
    | false =>
      have hname : isWord name.name = true := hcallee name (by simp [foreign, hop])
      simp only [callOpening, hop, Bool.false_eq_true, if_false]
      exact opens_args (opens_word hname) hts
  · next hno =>
    have hgroup : callOpening callee = .group := by
      unfold callOpening
      split
      · next name i => exact absurd rfl (hno name i)
      · rfl
    rw [hgroup, callText_eq]
    exact opens_args (opens_parens (passes_text ht)) hts

theorem opens_target {node : Node} (hnode : ∀ v ∈ foreign node, isWord v.name = true)
    (ht : Text .expression t) : Opens (targetOpening node) (target node t) := by
  cases node with
  | className name i => exact opens_word (hnode name List.mem_cons_self)
  | _ => exact opens_parens (passes_text ht)

theorem opens_subscript {array : Node} {index : String} (ht : Text .expression t)
    (hassignable : assignable array = true → Opens .sigil t)
    (hindex : Text .expression index) :
    Opens (if assignable array then .sigil else .group) (subscript array t index) := by
  rw [subscript_eq]
  split
  · next h => exact (hassignable h).append (flat_brackets (passes_text hindex))
  · exact (opens_parens (passes_text ht)).append (flat_brackets (passes_text hindex))

theorem flat_useClause {uses : List Symbol} (h : ∀ v ∈ uses, Plain v.name) :
    Flat (useClause uses) := by
  unfold useClause
  split
  · exact flat_text (by decide) (by decide)
  · have hvars : ∀ t ∈ uses.map var, Text .expression t :=
      List.forall_mem_map.2 fun v hv => .read (h v hv)
    rw [show " use (" = " use " ++ "(" from rfl, args_eq]
    exact (flat_text (by decide) (by decide)).append
      (flat_parens (passes_text (shaped_commas hvars)))

include hconfig

theorem Config.Legible.takes : (Grammar.plain Plain).Takes config :=
  takes_plain (plain_of_isWord hconfig.runtime) (forall_margin hconfig.indent)

theorem opens_construct {cls constructor : String} (hcls : isWord cls = true)
    (hconstructor : isWord constructor = true) (hts : ∀ t ∈ ts, Text .expression t) :
    Opens .word (construct config cls constructor ts) := by
  have hclass : Opens .word (config.runtimeClass cls) :=
    ((opens_word hconfig.runtime).append (flat_text (by decide) (by decide))).append
      (opens_word hcls).flat
  exact opens_args ((hclass.append (flat_text (by decide) (by decide))).append
    (opens_word hconstructor).flat) hts

theorem opens_value (f : Form) : Opens (valueOpening f) (value config f) := by
  have hvalues : ∀ fs, ∀ t ∈ values config fs, Text .expression t := shaped_values hconfig.takes
  have hliteral : ∀ s, ∀ t ∈ [quote s], Text .expression t :=
    fun s => List.forall_mem_singleton.2 (.literal s)
  unfold value
  split
  · exact opens_word (by decide)
  · split <;> exact opens_word (by decide)
  · exact opens_int _
  · exact opens_float _
  · exact opens_quote _
  · exact opens_construct hconfig (by decide) (by decide) (hliteral _)
  · exact opens_construct hconfig (by decide) (by decide) (hliteral _)
  · exact opens_construct hconfig (by decide) (by decide) (hvalues _)
  · exact opens_construct hconfig (by decide) (by decide) (hvalues _)
  · exact opens_construct hconfig (by decide) (by decide) (shaped_entryValues hconfig.takes _)
  · exact opens_construct hconfig (by decide) (by decide) (hvalues _)
  · exact opens_construct hconfig (by decide) (by decide) (hvalues _)

theorem opens_closure {scope : Scope} (h : ∀ v ∈ scope.vars, Plain v.name)
    (ht : Shaped (.plain Plain) scope.vars .result t) : Opens .group (closure config scope d t) := by
  obtain ⟨f, heq, hf⟩ : ∃ f, closure config scope d t = f ++ ("(" ++ "" ++ ")") ∧
      Grouped (.plain Plain) [] f := grouped_closure hconfig.takes h ht d
  rw [heq]
  exact (opens_grouped hf).append (flat_parens (passes_plain (by decide)))

theorem opens_function {params uses : List Symbol} {variadic : Bool} {body : String}
    (hparams : ∀ v ∈ params, Plain v.name) (huses : ∀ v ∈ uses, Plain v.name)
    (hbody : Text .result body) :
    Opens .word ("function (" ++ commas (parameterNames variadic params) ++ ")" ++ useClause uses
      ++ " \x7b\n" ++ body ++ margin config d ++ "\x7d") := by
  have hword : Opens .word "function" := ⟨flat_text (by decide) (by decide), rfl⟩
  have hspace : Flat " " := flat_text (by decide) (by decide)
  have hnames : ∀ t ∈ parameterNames variadic params, Text .expression t := fun t ht =>
    .word (plain_parameters hparams (parameters variadic params) t ht)
  have hheader := (flat_parens (passes_text (shaped_commas hnames))).append (flat_useClause huses)
  have hpasses : Passes .result (body ++ margin config d) :=
    (passes_text hbody).append (passes_plain (forall_margin hconfig.indent d))
  rw [functionText_eq]
  exact (((hword.append hspace).append hheader).append hspace).append (flat_braces hpasses)

end Pieces

/-! ### Operands -/

theorem opening_of_wrapped {n : Node} (h : n.wrapped = true) :
    opening n = .group ∧ assigns n = false := by
  cases n with
  | block stmts last i =>
    cases stmts with
    | nil => simp [Node.wrapped] at h
    | cons => exact ⟨by simp [opening], by simp [assigns]⟩
  | bindings | loop => exact ⟨by simp [opening], by simp [assigns]⟩
  | _ => cases h

theorem opening_of_assignable {n : Node} (h : assignable n = true) :
    opening n = .sigil ∧ assigns n = false := by
  cases n with
  | localVar | globalVar => exact ⟨by simp [opening], by simp [assigns]⟩
  | arrayGet a =>
    have ha : assignable a = true := h
    exact ⟨by simp [opening, ha], by simp [assigns]⟩
  | _ => cases h

theorem framed_expression {config : Config} (i : Node.Info) (h : i.scope.context = .expression)
    (d : Nat) (t : String) : framed config i.scope.context d t = t := by
  rw [h]
  rfl

/-- All names in the code of the node are plain, and those of the host are words. -/
structure Legible (n : Node) : Prop where
  plain : ∀ v, n.Mentions v → Plain v.name
  word : ∀ m ∈ n.nodes, ∀ v ∈ foreign m, isWord v.name = true

namespace Legible
variable {n : Node} (h : Legible n)
include h

theorem child {c : Node} (hc : c ∈ n.children) : Legible c where
  plain v hv := h.plain v (Node.mentions_of_child hc hv)
  word m hm := h.word m (Node.mem_nodes_of_child hc hm)

theorem written : ∀ v ∈ n.written, Plain v.name := fun v hv => h.plain v (Node.mentions_self hv)

theorem foreign : ∀ v ∈ foreign n, isWord v.name = true := h.word n n.mem_nodes_self

theorem admits (vars : List Symbol) : n.Everywhere (Grammar.plain Plain).Admits vars :=
  admits_plain (fun m hm v hv => h.plain v ⟨m, hm, hv⟩) vars

theorem parts {config : Config} (hconfig : config.Legible) {u : Node.Use} (hsits : n.Sits u) :
    ∀ p ∈ n.places, ∀ vars d, Fitting (.plain Plain) vars p.1 (code config p.2 d) := by
  intro p hp vars d
  have hchild := h.child (Node.mem_children_of_places hp)
  exact fitting_code hconfig.takes (hsits.part hp) (hchild.admits vars) d

end Legible

section Operands
variable {config : Config} (hconfig : config.Legible) {n : Node} (hlegible : Legible n)
include hconfig hlegible

/-- The member behind an object or class. -/
theorem flat_part (h : n.Sits .part) (d : Nat) : Flat (code config n d) := by
  have huse := h.1
  cases n with
  | methodCall name args i =>
    have hname := opens_word (hlegible.foreign name List.mem_cons_self)
    have hargs : ∀ m ∈ args, Text .expression (code config m d) := fun m hm =>
      (hlegible.parts hconfig h (.value .expression, m) (List.mem_map_of_mem hm) [] d).1
    rw [code, codes_eq]
    exact (opens_args hname (List.forall_mem_map.2 hargs)).flat
  | property name i => exact (opens_word (hlegible.foreign name List.mem_cons_self)).flat
  | _ => cases huse

/-- The code of a node that is not wrapped opens as said, if those of its parts do. -/
theorem leads_of_parts (hwrapped : n.wrapped = false) (h : n.Sits (.value .expression))
    (ih : ∀ c ∈ n.children, c.Sits (.value .expression) → ∀ d,
      Leads (opening c) (assigns c) (code config c d)) (d : Nat) :
    Leads (opening n) (assigns n) (code config n d) := by
  have hparts : ∀ p ∈ n.places, ∀ d, Fitting (.plain Plain) [] p.1 (code config p.2 d) :=
    fun p hp => hlegible.parts hconfig h p hp []
  have hwritten := hlegible.written
  have hexpression : n.context = .expression := h.context
  have hoperands : n.places = n.children.map (.value .expression, ·) → ∀ c ∈ n.children, ∀ d,
      Fitting (.plain Plain) [] (.value .expression) (code config c d) := by
    intro hplaces c hc
    exact hparts (.value .expression, c) (hplaces ▸ List.mem_map_of_mem hc)
  -- what is subscripted without parentheses is a variable, subscripted perhaps itself
  have hsubscripted : ∀ c ∈ n.children, c.Sits (.value .expression) → assignable c = true →
      Opens .sigil (code config c d) := by
    intro c hc hsits hassignable
    have hleads := ih c hc hsits d
    rw [(opening_of_assignable hassignable).1, (opening_of_assignable hassignable).2] at hleads
    cases hleads with
    | value hopens => exact hopens
  cases n with
  | literal v i =>
    rw [code, show i.scope.context = .expression from hexpression]
    exact .value (opens_value hconfig v)
  | localVar v i =>
    rw [code, framed_expression i hexpression]
    exact .value (opens_var (hwritten v (by simp [Node.written, Node.reads])))
  | globalVar home name i =>
    rw [code, framed_expression i hexpression]
    exact .value (opens_globalPlace home name)
  | hostVar name i =>
    rw [code, framed_expression i hexpression]
    exact .value (opens_hostValue name.name)
  | className name i =>
    rw [code, framed_expression i hexpression]
    exact .value ((opens_word (hlegible.foreign name List.mem_cons_self)).append
      (flat_text (by decide) (by decide)))
  | call callee args i =>
    obtain ⟨hcallee, hargs⟩ := List.forall_mem_cons.1 (hoperands rfl)
    have hforeign := (hlegible.child (c := callee) List.mem_cons_self).foreign
    rw [code, framed_expression i hexpression]
    exact .value (opens_application hforeign (hcallee d).1 (shaped_codes hargs))
  | block stmts last i =>
    change i.scope.context = .expression at hexpression
    cases stmts with
    | cons => simp [Node.wrapped, hexpression] at hwrapped
    | nil =>
      have hplace : (Node.Use.value i.scope.context, last) ∈ (Node.block [] last i).places :=
        List.mem_singleton.2 rfl
      rw [hexpression] at hplace
      have hlast := ih last (Node.mem_children_of_places hplace) (h.part hplace) d
      simpa [code, codes, opening, assigns] using hlast
  | branch test yes no i =>
    change i.scope.context = .expression at hexpression
    obtain ⟨htest, hparts⟩ := List.forall_mem_cons.1 hparts
    obtain ⟨hyes, hparts⟩ := List.forall_mem_cons.1 hparts
    have hno := List.forall_mem_singleton.1 hparts
    rw [hexpression] at hyes hno
    rw [code, if_pos hexpression]
    exact .value (opens_grouped (grouped_branch hconfig.takes (htest d).1 (hyes d).1 (hno d).1))
  | bindings bs body i | loop v key coll body i =>
    change i.scope.context = .expression at hexpression
    simp [Node.wrapped, hexpression] at hwrapped
  | function params variadic uses body i =>
    have hbody := (List.forall_mem_singleton.1 hparts (d + 1)).1
    have huses : ∀ v ∈ uses, Plain v.name := fun v hv =>
      hwritten v (by simp [Node.written, Node.reads, hv])
    have hparams : ∀ v ∈ params, Plain v.name := fun v hv =>
      hwritten v (by simp [Node.written, Node.spelled, hv])
    rw [code, framed_expression i hexpression]
    exact .value (opens_function hconfig hparams huses hbody)
  | definition home name init i =>
    rw [code, framed_expression i hexpression]
    exact .assignment (opens_globalPlace home name)
  | throw x i =>
    change i.scope.context = .expression at hexpression
    rw [code, if_pos hexpression]
    exact .value (opens_grouped (grouped_throw (hoperands rfl x List.mem_cons_self d).1))
  | table items i | array items i | set items i | tuple items i =>
    rw [code, framed_expression i hexpression]
    exact .value (opens_construct hconfig (by decide) (by decide) (shaped_codes (hoperands rfl)))
  | new cls args i =>
    obtain ⟨hcls, hargs⟩ := List.forall_mem_cons.1 (hoperands rfl)
    have hword : Opens .word "new " := ⟨flat_text (by decide) (by decide), rfl⟩
    have hforeign := (hlegible.child (c := cls) List.mem_cons_self).foreign
    have htarget := opens_target hforeign (hcls d).1
    rw [code, framed_expression i hexpression]
    exact .value (opens_args (hword.append htarget.flat) (shaped_codes hargs))
  | member object part static method i =>
    obtain ⟨hobject, -⟩ := List.forall_mem_cons.1 hparts
    have hplace : (Node.Use.part, part) ∈ (Node.member object part static method i).places := by
      simp [Node.places]
    have hpart := flat_part hconfig (hlegible.child (Node.mem_children_of_places hplace))
      (h.part hplace) d
    have harrow : ∀ static : Bool, Flat (if static then "::" else "->") := by
      intro static
      cases static <;> exact flat_text (by decide) (by decide)
    have hforeign := (hlegible.child (c := object) List.mem_cons_self).foreign
    rw [code, framed_expression i hexpression]
    exact .value (((opens_target hforeign (hobject d).1).append (harrow static)).append hpart)
  | methodCall | property => cases h.1
  | arrayGet a index i =>
    obtain ⟨ha, hindex⟩ := List.forall_mem_cons.1 (hoperands rfl)
    have hplace : (Node.Use.value .expression, a) ∈ (Node.arrayGet a index i).places :=
      List.mem_cons_self
    rw [code, framed_expression i hexpression]
    exact .value (opens_subscript (ha d).1
      (hsubscripted a List.mem_cons_self (h.part hplace)) (List.forall_mem_singleton.1 hindex d).1)
  | arraySet a index v i =>
    obtain ⟨ha, hoperands⟩ := List.forall_mem_cons.1 (hoperands rfl)
    have hplace : (Node.Use.value .expression, a) ∈ (Node.arraySet a index v i).places :=
      List.mem_cons_self
    rw [code, framed_expression i hexpression]
    exact .assignment (opens_subscript (ha d).1
      (hsubscripted a List.mem_cons_self (h.part hplace)) (hoperands index List.mem_cons_self d).1)

/-- **The code of an expression opens as its node does,** and it is an assignment if and only if the
node is one. -/
theorem leads_code (h : n.Sits (.value .expression)) (d : Nat) :
    Leads (opening n) (assigns n) (code config n d) := by
  induction n using Node.ind generalizing d with
  | h n ih =>
    cases hwrapped : n.wrapped with
    | true =>
      obtain ⟨hopening, hassigns⟩ := opening_of_wrapped hwrapped
      have hvars : ∀ v ∈ n.scope.vars, Plain v.name := fun v hv =>
        hlegible.written v (Node.mem_written_of_reads (Node.reads_of_wrapped hwrapped ▸ hv))
      rw [hopening, hassigns, code_of_wrapped config hwrapped]
      have hadmits := hlegible.admits []
      exact .value (opens_closure hconfig hvars (shaped_asResult hconfig.takes hwrapped hadmits.self
        (admits_hosts hadmits) (fun u c vars hplace _ => hlegible.parts hconfig h (u, c) hplace vars)
        (d + 1)))
    | false =>
      exact leads_of_parts hconfig hlegible hwrapped h
        (fun c hc hsits => ih c hc (hlegible.child hc) hsits) d

end Operands

/-! ### Operators and what follows them -/

/-- The tokens that are made of two or more signs. -/
def signTokens : List String :=
  ["++", "--", "**", "==", "===", "!=", "!==", "<>", "<=", ">=", "<=>", "&&", "||", "??", "<<", ">>",
    "+=", "-=", "*=", "/=", "%=", ".=", "**=", "&=", "|=", "^=", "<<=", ">>=", "??=", "->", "?->", "=>",
    "::", "...", "//", "/*", "<<<", "#[", "<?", "?>"]

/-- Whether the operator is read together with a character that follows it: as the start of a longer
sign, as a number that starts with its point, or as a longer word. -/
def joins (operator : String) (c : Char) : Bool :=
  signTokens.any (fun t => (operator.toList ++ [c]).isPrefixOf t.toList) ||
    (operator == "." && c.isDigit) || (operator.toList.all isWordChar && isWordChar c)

/-- The operators that run into an expression, by what this opens with. -/
def clashes : List (String × Opening) :=
  [("-", .minus), (".", .digit), ("instanceof", .digit), ("instanceof", .word)]

theorem isWordChar_of_isDigit {c : Char} (h : c.isDigit = true) : isWordChar c = true := by
  simp [isWordChar, Char.isAlphanum, h]

/-- No sign goes on with a character of a word. -/
theorem joins_of_isWordChar {c : Char} (h : isWordChar c = true) (operator : String) :
    joins operator c = (operator == "." && c.isDigit || operator.toList.all isWordChar) := by
  have hsigns : signTokens.all (fun t => t.toList.all (!isWordChar ·)) = true := by decide
  have hno : signTokens.any (fun t => (operator.toList ++ [c]).isPrefixOf t.toList) = false := by
    refine List.any_eq_false.2 fun t ht hstart => ?_
    have hmem : c ∈ t.toList := (List.isPrefixOf_iff_prefix.1 hstart).subset (by simp)
    have hsign := List.all_eq_true.1 (List.all_eq_true.1 hsigns t ht) c hmem
    rw [h] at hsign
    cases hsign
  rw [joins, hno, h, Bool.false_or, Bool.and_true]

/-- Which operators run into an expression depends on what this opens with alone. -/
theorem joins_iff {operator : String} (hop : isHostOperator operator = true) {c : Char} {o : Opening}
    (hc : Opening.of? c = some o) : joins operator c = true ↔ (operator, o) ∈ clashes := by
  have hop : operator ∈ hostOperators := List.contains_iff_mem.1 hop
  have hmarks : ∀ operator ∈ hostOperators,
      (joins operator '$' = true ↔ (operator, .sigil) ∈ clashes) ∧
      (joins operator '"' = true ↔ (operator, .literal) ∈ clashes) ∧
      (joins operator '(' = true ↔ (operator, .group) ∈ clashes) ∧
      (joins operator '-' = true ↔ (operator, .minus) ∈ clashes) := by decide
  have hdigit : ∀ operator ∈ hostOperators,
      ((operator == "." || operator.toList.all isWordChar) = true ↔
        (operator, .digit) ∈ clashes) := by decide
  have hword : ∀ operator ∈ hostOperators,
      (operator.toList.all isWordChar = true ↔ (operator, .word) ∈ clashes) := by decide
  obtain ⟨hsigil, hliteral, hgroup, hminus⟩ := hmarks operator hop
  unfold Opening.of? at hc
  split at hc
  · cases hc
    exact hsigil
  · cases hc
    exact hliteral
  · cases hc
    exact hgroup
  · cases hc
    exact hminus
  · split_ifs at hc with hisDigit hisWord
    · cases hc
      rw [joins_of_isWordChar (isWordChar_of_isDigit hisDigit), hisDigit, Bool.and_true]
      exact hdigit operator hop
    · cases hc
      rw [joins_of_isWordChar hisWord, Bool.eq_false_iff.2 hisDigit, Bool.and_false, Bool.false_or]
      exact hword operator hop

/-- The code of an operation. -/
theorem code_operation (config : Config) {name : Symbol} (hop : isHostOperator name.name = true)
    (j : Node.Info) (args : List Node) (i : Node.Info) (d : Nat) :
    code config (.call (.hostVar name j) args i) d =
      framed config i.scope.context d (operation name.name (args.map (code config · d))) := by
  rw [code, codes_eq, application, if_pos hop]

end LarkPhp.Php

namespace LarkPhp.Analysis

open Php

/-- **Operands of operators.**  With settings and names that can be read, an operator is written
between the texts of its operands or before a single one.  Outside of brackets and literals an
assignment stands in the text of an operand if and only if the operand is one, and it is read
together with an operator before it if and only if the two clash. -/
theorem unit_operands {config : Config} (hconfig : config.Legible) {forms : List Form} {scope : Scope}
    {s s' : State} {nodes : List Node} (h : unit forms scope s = .ok nodes s')
    (hnames : ∀ root ∈ nodes, ∀ n ∈ root.nodes, ∀ v ∈ n.written,
      Plain v.name ∨ ∃ k, v = .fresh k)
    (hwords : ∀ root ∈ nodes, ∀ n ∈ root.nodes, ∀ v ∈ foreign n, isWord v.name = true)
    {root : Node} (hroot : root ∈ nodes) {name : Symbol} {j i : Node.Info} {args : List Node}
    (hcall : .call (.hostVar name j) args i ∈ root.nodes) (hop : isHostOperator name.name = true)
    (d : Nat) :
    code config (.call (.hostVar name j) args i) d =
        framed config i.scope.context d (operation name.name (args.map (code config · d))) ∧
      ∀ a ∈ args, (Scan.Meets " = " (code config a d) ↔ assigns a = true) ∧
        ∃ c cs, (code config a d).toList = c :: cs ∧ Opening.of? c = some (opening a) ∧
          (joins name.name c = true ↔ (name.name, opening a) ∈ clashes) := by
  refine ⟨code_operation config hop j args i d, fun a ha => ?_⟩
  have hchild : a ∈ (Node.call (.hostVar name j) args i).children := List.mem_cons_of_mem _ ha
  have hsits : a.Sits (.value .expression) :=
    ((sits_unit h root hroot).of_mem hcall).part (p := (.value .expression, a))
      (List.mem_map_of_mem hchild)
  have hmem : ∀ m ∈ a.nodes, m ∈ root.nodes := fun m hm =>
    Node.mem_nodes_trans hcall (Node.mem_nodes_of_child hchild hm)
  have hlegible : Legible a := by
    refine ⟨?_, fun m hm => hwords root hroot m (hmem m hm)⟩
    rintro v ⟨m, hm, hv⟩
    rcases hnames root hroot m (hmem m hm) v hv with hplain | ⟨k, rfl⟩
    · exact hplain
    · exact plain_fresh k
  have hleads := leads_code hconfig hlegible hsits d
  obtain ⟨c, hhead, hc⟩ := Option.bind_eq_some_iff.1 hleads.head
  obtain ⟨cs, hcs⟩ := List.head?_eq_some_iff.1 hhead
  exact ⟨hleads.meets_iff, c, cs, hcs, hc, joins_iff hop hc⟩

/-- Whether the node applies the operator to operands of which this holds. -/
def isOperation (operator : String) (p : List Node → Bool) : Node → Bool
  | .call (.hostVar name _) args _ => name.name == operator && p args
  | _ => false

theorem exists_call_of_any {operator : String} {p : List Node → Bool} {nodes : List Node}
    (h : nodes.any (fun root => root.nodes.any (isOperation operator p)) = true) :
    ∃ root ∈ nodes, ∃ name j args i, .call (.hostVar name j) args i ∈ root.nodes ∧
      name.name = operator ∧ p args = true := by
  obtain ⟨root, hroot, hany⟩ := List.any_eq_true.1 h
  obtain ⟨n, hn, hfound⟩ := List.any_eq_true.1 hany
  unfold isOperation at hfound
  split at hfound
  · next name j args i =>
    obtain ⟨hname, hargs⟩ := Bool.and_eq_true_iff.1 hfound
    exact ⟨root, hroot, name, j, args, i, hn, beq_iff_eq.1 hname, hargs⟩
  · cases hfound

/-- `(fn [a] (php/+ (php/aset a 0 2) (php/f " = ")))`: an operand that is an assignment, and one with
the text of an assignment in a literal. -/
def assigningForm : Form :=
  let host (name : String) : Form := .symbol (.qualified "php" name) none
  .parens [.name "fn", .brackets [.name "a"],
    .parens [host "+", .parens [host "aset", .name "a", .int 0, .int 2], .parens [host "f", .str " = "]]]

theorem unit_operands_assigning :
    Config.standard.Legible ∧
      ∃ nodes s, unit [assigningForm] .empty (.start default 0) = .ok nodes s ∧
        (∀ root ∈ nodes, ∀ n ∈ root.nodes, ∀ v ∈ n.written, Plain v.name) ∧
        (∀ root ∈ nodes, ∀ n ∈ root.nodes, ∀ v ∈ foreign n, isWord v.name = true) ∧
        ∃ root ∈ nodes, ∃ name j a b i, .call (.hostVar name j) [a, b] i ∈ root.nodes ∧
          isHostOperator name.name = true ∧ Scan.Meets " = " (code .standard a 1) ∧
          ¬Scan.Meets " = " (code .standard b 1) := by
  have hconfig : Config.standard.Legible := ⟨by decide, by decide⟩
  refine ⟨hconfig, ?_⟩
  have hfound : ((unit [assigningForm] .empty).run' (.start default 0)).any (fun nodes =>
      decide (∀ root ∈ nodes, ∀ n ∈ root.nodes, ∀ v ∈ n.written, Plain v.name) &&
      decide (∀ root ∈ nodes, ∀ n ∈ root.nodes, ∀ v ∈ foreign n, isWord v.name = true) &&
      nodes.any (fun root => root.nodes.any (isOperation "+" fun args =>
        args.map assigns == [true, false]))) = true := by
    decide +kernel
  obtain ⟨nodes, s, hrun, hfound⟩ := exists_ok_of_any hfound
  rw [Bool.and_eq_true, Bool.and_eq_true, decide_eq_true_iff, decide_eq_true_iff] at hfound
  obtain ⟨⟨hplain, hwords⟩, hany⟩ := hfound
  obtain ⟨root, hroot, name, j, args, i, hcall, hname, hargs⟩ := exists_call_of_any hany
  obtain ⟨a, b, rfl⟩ : ∃ a b, args = [a, b] := by
    have hlength := congrArg List.length (beq_iff_eq.1 hargs)
    rw [List.length_map] at hlength
    exact List.length_eq_two.1 hlength
  obtain ⟨ha, hb⟩ : assigns a = true ∧ assigns b = false := by simpa using hargs
  have hop : isHostOperator name.name = true := by
    rw [hname]
    decide
  have hoperands := (unit_operands hconfig hrun
    (fun root hroot n hn v hv => .inl (hplain root hroot n hn v hv)) hwords hroot hcall hop 1).2
  have hmeets := (hoperands a (by simp)).1
  have hmeets' := (hoperands b (by simp)).1
  refine ⟨nodes, s, hrun, hplain, hwords, root, hroot, name, j, a, b, i, hcall, hop, hmeets.2 ha, ?_⟩
  rw [hmeets', hb]
  exact Bool.false_ne_true

/-- The sum of `(def x 1)` and of the negated `-1`: an assignment, and a sign before a sign. -/
def clashingForm : Form :=
  let host (name : String) : Form := .symbol (.qualified "php" name) none
  .parens [host "+", .parens [.name "def", .name "x", .int 1], .parens [host "-", .int (-1)]]

/-- An assignment takes the rest of the sum as its value, and two signs are read as a decrement. -/
theorem unit_operands_clashing :
    ∃ nodes s, unit [clashingForm] .empty (.start default 0) = .ok nodes s ∧
      (∀ root ∈ nodes, ∀ n ∈ root.nodes, ∀ v ∈ n.written, Plain v.name) ∧
      (∀ root ∈ nodes, ∀ n ∈ root.nodes, ∀ v ∈ foreign n, isWord v.name = true) ∧
      program .standard nodes = "($GLOBALS[\"__lark\"][\"user\"][\"x\"] = 1 + (--1));\n" ∧
      (∃ root ∈ nodes, ∃ name j args i, .call (.hostVar name j) args i ∈ root.nodes ∧
        isHostOperator name.name = true ∧ ∃ a ∈ args, Scan.Meets " = " (code .standard a 0)) ∧
      ∃ root ∈ nodes, ∃ name j a i, .call (.hostVar name j) [a] i ∈ root.nodes ∧
        isHostOperator name.name = true ∧
        ∃ c cs, (code .standard a 0).toList = c :: cs ∧ joins name.name c = true := by
  have hfound : ((unit [clashingForm] .empty).run' (.start default 0)).any (fun nodes =>
      decide (∀ root ∈ nodes, ∀ n ∈ root.nodes, ∀ v ∈ n.written, Plain v.name) &&
      decide (∀ root ∈ nodes, ∀ n ∈ root.nodes, ∀ v ∈ foreign n, isWord v.name = true) &&
      program .standard nodes == "($GLOBALS[\"__lark\"][\"user\"][\"x\"] = 1 + (--1));\n" &&
      nodes.any (fun root => root.nodes.any (isOperation "+" fun args =>
        args.any (code .standard · 0 == "$GLOBALS[\"__lark\"][\"user\"][\"x\"] = 1"))) &&
      nodes.any (fun root => root.nodes.any (isOperation "-" fun args =>
        args.map (code .standard · 0) == ["-1"]))) = true := by
    decide +kernel
  obtain ⟨nodes, s, hrun, hfound⟩ := exists_ok_of_any hfound
  simp only [Bool.and_eq_true, decide_eq_true_iff, beq_iff_eq] at hfound
  obtain ⟨⟨⟨⟨hplain, hwords⟩, hprogram⟩, hsum⟩, hnegation⟩ := hfound
  refine ⟨nodes, s, hrun, hplain, hwords, hprogram, ?_, ?_⟩
  · obtain ⟨root, hroot, name, j, args, i, hcall, hname, hargs⟩ := exists_call_of_any hsum
    obtain ⟨a, ha, hcode⟩ := List.any_eq_true.1 hargs
    refine ⟨root, hroot, name, j, args, i, hcall, ?_, a, ha, ?_⟩
    · rw [hname]
      decide
    · rw [beq_iff_eq.1 hcode]
      exact ⟨"$GLOBALS[\"__lark\"][\"user\"][\"x\"]", "1", by decide, by decide⟩
  · obtain ⟨root, hroot, name, j, args, i, hcall, hname, hargs⟩ := exists_call_of_any hnegation
    obtain ⟨a, rfl, hcode⟩ := List.map_eq_singleton_iff.1 (beq_iff_eq.1 hargs)
    refine ⟨root, hroot, name, j, a, i, hcall, ?_, '-', ['1'], ?_, ?_⟩
    · rw [hname]
      decide
    · rw [hcode]
      decide
    · rw [hname]
      decide

end LarkPhp.Analysis
