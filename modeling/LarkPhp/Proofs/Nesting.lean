import LarkPhp.Proofs.CodeShape

/-!
Nesting of code.

`Scan` reads code character by character and knows of nothing but brackets, semicolons and string
literals.  It fails at a bracket that closes another one than the innermost open one, and at a
semicolon directly inside of parentheses or brackets.  Text of the shape of `Shaped` leaves the scan
where it was, and text of statements ends with its line.  So the code of every node is well nested,
and no statement stands inside of an expression, but for those in the bodies of functions.
-/

namespace LarkPhp.Php

/-! ### The scan -/

/-- Where a scan stands: in code, in a literal, or behind a backslash in a literal. -/
inductive Mode where
  | code
  | literal
  | escaped
deriving DecidableEq

/-- A scan of code. -/
structure Scan where
  mode : Mode
  /-- The closing brackets that are still to come, the innermost first. -/
  pending : List Char
deriving DecidableEq

namespace Scan

/-- Nothing is open. -/
def start : Scan := ⟨.code, []⟩

/-- Whether the innermost open bracket is neither a parenthesis nor a square one. -/
def admitsStatements : List Char → Bool
  | ')' :: _ | ']' :: _ => false
  | _ => true

/-- Reads a character of code outside of literals. -/
def bare (pending : List Char) : Char → Option Scan
  | '"' => some ⟨.literal, pending⟩
  | '(' => some ⟨.code, ')' :: pending⟩
  | '[' => some ⟨.code, ']' :: pending⟩
  | '\x7b' => some ⟨.code, '\x7d' :: pending⟩
  | ')' => if pending.head? = some ')' then some ⟨.code, pending.tail⟩ else none
  | ']' => if pending.head? = some ']' then some ⟨.code, pending.tail⟩ else none
  | '\x7d' => if pending.head? = some '\x7d' then some ⟨.code, pending.tail⟩ else none
  | ';' => if admitsStatements pending then some ⟨.code, pending⟩ else none
  | _ => some ⟨.code, pending⟩

/-- Reads one character. -/
def step (s : Scan) (c : Char) : Option Scan :=
  match s.mode with
  | .code => bare s.pending c
  | .literal =>
    if c = '\\' then some ⟨.escaped, s.pending⟩
    else if c = '"' then some ⟨.code, s.pending⟩
    else some s
  | .escaped => some ⟨.literal, s.pending⟩

/-- Reads characters. -/
def reads (s : Scan) (cs : List Char) : Option Scan := cs.foldlM step s

/-- Reads a text. -/
def run (s : Scan) (t : String) : Option Scan := s.reads t.toList

/-! ### Pieces of text -/

section Pieces
variable {s : Scan} {pending : List Char} {a b t : String}

theorem reads_append (s : Scan) (cs ds : List Char) :
    s.reads (cs ++ ds) = (s.reads cs).bind fun s => s.reads ds :=
  List.foldlM_append

theorem run_append (s : Scan) (a b : String) :
    s.run (a ++ b) = (s.run a).bind fun s => s.run b := by
  unfold run
  rw [String.toList_append, reads_append]

theorem run_append_of_eq {s₁ : Scan} (h : s.run a = some s₁) : s.run (a ++ b) = s₁.run b := by
  rw [run_append, h]
  rfl

/-- A text after which the scan stands where it stood. -/
theorem reads_of_step_eq {cs : List Char} (h : ∀ c ∈ cs, s.step c = some s) : s.reads cs = some s := by
  induction cs with
  | nil => rfl
  | cons c cs ih =>
    obtain ⟨hc, hcs⟩ := List.forall_mem_cons.1 h
    show ((s.step c).bind fun s => s.reads cs) = some s
    rw [hc]
    exact ih hcs

theorem bare_of_not_mark {c : Char} (h : isMark c = false) :
    bare pending c = some ⟨.code, pending⟩ := by
  unfold bare
  split <;> first | rfl | cases h

theorem run_plain (h : Plain t) : run ⟨.code, pending⟩ t = some ⟨.code, pending⟩ :=
  reads_of_step_eq fun c hc => bare_of_not_mark (h c hc)

theorem hexDigit_step {k : Nat} (h : k < 16) :
    step ⟨.literal, pending⟩ (hexDigit k) = some ⟨.literal, pending⟩ := by
  have hdigits : ∀ k < 16, hexDigit k ≠ '\\' ∧ hexDigit k ≠ '"' := by decide
  obtain ⟨hbackslash, hquote⟩ := hdigits k h
  simp only [step, if_neg hbackslash, if_neg hquote]

/-- An escaped character does not leave the literal. -/
theorem reads_escape (c : Char) :
    reads ⟨.literal, pending⟩ (escape c) = some ⟨.literal, pending⟩ := by
  unfold escape
  split
  iterate 9 rfl
  · next hbackslash hquote _ _ _ _ _ _ _ =>
    split
    · next hcontrol =>
      have hhigh : c.toNat / 16 < 16 := by omega
      have hlow : c.toNat % 16 < 16 := Nat.mod_lt _ (by decide)
      show ((step ⟨.literal, pending⟩ (hexDigit (c.toNat / 16))).bind fun s =>
        (step s (hexDigit (c.toNat % 16))).bind some) = _
      rw [hexDigit_step hhigh]
      show (step ⟨.literal, pending⟩ (hexDigit (c.toNat % 16))).bind some = _
      rw [hexDigit_step hlow]
      rfl
    · refine reads_of_step_eq (List.forall_mem_singleton.2 ?_)
      simp only [step, if_neg hbackslash, if_neg hquote]

theorem reads_escapes (cs : List Char) :
    reads ⟨.literal, pending⟩ (cs.flatMap escape) = some ⟨.literal, pending⟩ := by
  induction cs with
  | nil => rfl
  | cons c cs ih =>
    rw [List.flatMap_cons, reads_append, reads_escape]
    exact ih

/-- A literal is skipped, whatever it contains. -/
theorem run_quote (s : String) : run ⟨.code, pending⟩ (quote s) = some ⟨.code, pending⟩ := by
  unfold run quote
  rw [String.toList_ofList, List.cons_append]
  show reads ⟨.literal, pending⟩ (s.toList.flatMap escape ++ ['"']) = _
  rw [reads_append, reads_escapes]
  rfl

end Pieces

/-! ### Text of some shape -/

/-- The scan passes over the text and stands where it stood, whatever is open around it.  Around
statements this must not be a parenthesis or a square bracket. -/
def Passes (context : Context) (t : String) : Prop :=
  ∀ pending, context = .expression ∨ admitsStatements pending = true →
    run ⟨.code, pending⟩ t = some ⟨.code, pending⟩

section Passes
variable {context inner : Context} {a b t : String}

theorem passes_plain (h : Plain t) : Passes context t := fun _ _ => run_plain h

theorem Passes.anywhere (h : Passes .expression t) : Passes context t :=
  fun pending _ => h pending (.inl rfl)

theorem Passes.among (h : Passes .statement t) (hcontext : context ≠ .expression) :
    Passes context t :=
  fun pending hpending => h pending (.inr (hpending.resolve_left hcontext))

theorem Passes.append (ha : Passes context a) (hb : Passes context b) : Passes context (a ++ b) := by
  intro pending hpending
  rw [run_append_of_eq (ha pending hpending)]
  exact hb pending hpending

/-- Text between what opens a bracket and what closes it. -/
theorem passes_between {opening closing : String} {c : Char}
    (hopening : ∀ pending, run ⟨.code, pending⟩ opening = some ⟨.code, c :: pending⟩)
    (hclosing : ∀ pending, run ⟨.code, c :: pending⟩ closing = some ⟨.code, pending⟩)
    (h : ∀ pending, run ⟨.code, c :: pending⟩ a = some ⟨.code, c :: pending⟩) :
    Passes context (opening ++ a ++ closing) := by
  intro pending _
  rw [String.append_assoc, run_append_of_eq (hopening pending), run_append_of_eq (h pending)]
  exact hclosing pending

theorem Passes.parens (h : Passes .expression a) : Passes context ("(" ++ a ++ ")") :=
  passes_between (fun _ => rfl) (fun _ => rfl) fun _ => h _ (.inl rfl)

theorem Passes.brackets (h : Passes .expression a) : Passes context ("[" ++ a ++ "]") :=
  passes_between (fun _ => rfl) (fun _ => rfl) fun _ => h _ (.inl rfl)

/-- Statements may stand between braces, wherever these are. -/
theorem Passes.braces (h : Passes inner a) : Passes context ("\x7b\n" ++ a ++ "\x7d") :=
  passes_between (fun _ => rfl) (fun _ => rfl) fun _ => h _ (.inr rfl)

theorem passes_newline : Passes context "\n" := fun _ _ => rfl

theorem passes_semicolon (h : context ≠ .expression) : Passes context ";\n" := by
  intro pending hpending
  have hadmits := hpending.resolve_left h
  show ((if admitsStatements pending then some (⟨.code, pending⟩ : Scan) else none).bind fun s =>
    s.reads ['\n']) = _
  rw [if_pos hadmits]
  rfl

end Passes

theorem plain_intercalate {ts : List String} (h : ∀ t ∈ ts, Plain t) : Plain (", ".intercalate ts) := by
  have hempty : Plain "" := by decide
  have hcomma : Plain ", " := by decide
  induction ts with
  | nil => exact hempty
  | cons t ts ih =>
    obtain ⟨ht, hts⟩ := List.forall_mem_cons.1 h
    cases ts with
    | nil => exact ht
    | cons u us =>
      rw [String.intercalate_cons_cons]
      exact plain_append (plain_append ht hcomma) (ih hts)

theorem plain_parameters {params : List Symbol} {ts : List String}
    (hparams : ∀ v ∈ params, Plain v.name) (h : List.Forall₂ Parameter params ts) :
    ∀ t ∈ ts, Plain t := by
  induction h with
  | nil => exact nofun
  | cons hp _ ih =>
    obtain ⟨hv, hvs⟩ := List.forall_mem_cons.1 hparams
    refine List.forall_mem_cons.2 ⟨?_, ih hvs⟩
    cases hp with
    | one => exact plain_var hv
    | rest => exact plain_append (by decide) (plain_var hv)

theorem passes_header {params uses : List Symbol} (hparams : ∀ v ∈ params, Plain v.name)
    (huses : ∀ v ∈ uses, Plain v.name) (h : Header params uses t) : Passes context t := by
  cases h with
  | alone hts => exact (passes_plain (plain_intercalate (plain_parameters hparams hts))).parens
  | taking _ hts =>
    have hvars : ∀ t ∈ uses.map fun v => "$" ++ munge v.name, Plain t :=
      List.forall_mem_map.2 fun v hv => plain_var (huses v hv)
    exact (Passes.append (passes_plain (plain_intercalate (plain_parameters hparams hts))).parens
      (passes_plain (by decide))).append (passes_plain (plain_intercalate hvars)).parens

theorem passes_targets {set : List Symbol} (hset : ∀ v ∈ set, Plain v.name) (h : Targets set t) :
    Passes context t := by
  cases h with
  | value v => exact passes_plain (plain_var (hset v List.mem_cons_self))
  | both k v =>
    obtain ⟨hk, hv⟩ := List.forall_mem_cons.1 hset
    have harrow : Plain " => " := by decide
    exact passes_plain (plain_append (plain_append (plain_var hk) harrow)
      (plain_var (hv v List.mem_cons_self)))

/-- **The scan passes over text of every shape,** if the names in it are plain. -/
theorem passes_of_shaped {blank : String → Prop} (hblank : ∀ m, blank m → Plain m)
    {vars : List Symbol} {context : Context} {t : String}
    (h : Shaped (.plain blank) vars context t) : Passes context t := by
  have hmargin : ∀ {context : Context} {m : String}, blank m → Passes context m :=
    fun hm => passes_plain (hblank _ hm)
  induction h with
  | inert h => exact passes_plain h.plain
  | word h => exact passes_plain h
  | read h => exact passes_plain (plain_var h)
  | globals => exact passes_plain (by decide)
  | @operator _ name h =>
    have hname : Passes .expression name := passes_plain (inert_of_isHostOperator h).plain
    have hvars : Passes .expression ("(" ++ "$a, $b" ++ ")") := (passes_plain (by decide)).parens
    exact ((((passes_plain (by decide)).append hvars).append (passes_plain (by decide))).append
      hname).append (passes_plain (by decide))
  | literal s => exact fun _ _ => run_quote s
  | append _ _ iha ihb => exact iha.append ihb
  | parens _ ih => exact ih.parens
  | brackets _ ih => exact ih.brackets
  | function hgap hheader hparams huses hm _ ih =>
    have hhead : ∀ {gap : String}, gap = "" ∨ gap = " " → Plain gap := by
      rintro gap (rfl | rfl) <;> decide
    exact ((((passes_plain (by decide)).append (passes_plain (hhead hgap))).append
      (passes_header hparams huses hheader)).append (passes_plain (by decide))).append
      (ih.append (hmargin hm)).braces
  | nothing => exact passes_plain (by decide)
  | simple hm _ ih => exact ((hmargin hm).append ih.anywhere).append (passes_semicolon nofun)
  | loop hm₁ hm₂ htargets hset _ _ iha ihb =>
    have hempty : Passes .expression "[]" := fun _ _ => rfl
    have hcollection := (iha.append (passes_plain (by decide : Plain " ?? "))).append hempty
    exact (((((hmargin hm₁).append (passes_plain (by decide))).append
      ((hcollection.parens.append (passes_plain (by decide))).append
        (passes_targets hset htargets)).parens).append (passes_plain (by decide))).append
      (ihb.append (hmargin hm₂)).braces).append passes_newline
  | returned hm _ _ ih | thrown hm _ _ ih =>
    exact (((hmargin hm).append (passes_plain (by decide))).append ih.anywhere).append
      (passes_semicolon nofun)
  | branch hcontext hm₁ hm₂ hm₃ _ _ _ ihtest iha ihb =>
    exact (((((((hmargin hm₁).append (passes_plain (by decide))).append ihtest.parens).append
      (passes_plain (by decide))).append (iha.append (hmargin hm₂)).braces).append
      (passes_plain (by decide))).append (ihb.append (hmargin hm₃)).braces).append passes_newline
  | assign hcontext hv hm _ _ iha ihb =>
    have hplace : Plain _ := plain_append (plain_var hv) (by decide : Plain " = ")
    exact (((hmargin hm).append ((passes_plain hplace).append iha.anywhere)).append
      (passes_semicolon hcontext)).append ihb
  | follow hcontext _ _ iha ihb => exact (iha.among hcontext).append ihb

end Scan

/-! ### Programs -/

theorem program_standard (roots : List Node) :
    program .standard roots = String.join (roots.map fun n => code .standard n 0) := by
  unfold program
  rw [show Config.standard.openTag = false from rfl, if_neg nofun, String.empty_append]
  rfl

/-- What holds of texts and is kept when they are joined holds of the whole. -/
theorem join_induction {P : String → Prop} (hempty : P "")
    (happend : ∀ {a b}, P a → P b → P (a ++ b)) {ts : List String} (h : ∀ t ∈ ts, P t) :
    P (String.join ts) := by
  induction ts with
  | nil => exact hempty
  | cons t ts ih =>
    obtain ⟨ht, hts⟩ := List.forall_mem_cons.1 h
    rw [String.join_cons]
    exact happend ht (ih hts)

end LarkPhp.Php

namespace LarkPhp.Analysis

open Php

/-- **Code is well nested.**  With the usual settings, the code of a unit whose forms are statements
or results is empty or ends with a line.  Where the names in it are plain or drawn, a scan of it finds all
brackets in order and none open behind a top-level node, and no semicolon directly inside of
parentheses or square brackets. -/
theorem unit_nested {forms : List Form} {scope : Scope} {s s' : State} {nodes : List Node}
    (hscope : scope.context ≠ .expression) (h : unit forms scope s = .ok nodes s')
    (hnames : ∀ root ∈ nodes, ∀ n ∈ root.nodes, ∀ v ∈ n.written,
      Plain v.name ∨ ∃ k, v = .fresh k) :
    Lines (program .standard nodes) ∧
      ∀ roots, roots <+: nodes → Scan.start.run (program .standard roots) = some Scan.start := by
  have hplain : ∀ root ∈ nodes, ∀ n ∈ root.nodes, ∀ v ∈ n.written, Plain v.name := by
    intro root hroot n hn v hv
    rcases hnames root hroot n hn v hv with h | ⟨k, rfl⟩
    · exact h
    · exact plain_fresh k
  have hruntime : Plain Config.standard.runtime := by decide
  have hindent : Plain Config.standard.indent := by decide
  have htakes : (Grammar.plain Plain).Takes .standard :=
    takes_plain hruntime (forall_margin hindent)
  have hshaped : ∀ n ∈ nodes, Shaped (.plain Plain) [] scope.context (code .standard n 0) :=
    fun n hn => (fitting_code htakes (sits_unit h n hn) (admits_plain (hplain n hn) []) 0).1
  constructor
  · rw [program_standard]
    refine join_induction (.inl rfl) Lines.append (List.forall_mem_map.2 fun n hn => ?_)
    exact lines_of_shaped (hshaped n hn) hscope
  · intro roots hroots
    have hpasses : Scan.Passes scope.context (program .standard roots) := by
      rw [program_standard]
      refine join_induction (Scan.passes_plain (by decide)) Scan.Passes.append
        (List.forall_mem_map.2 fun n hn => ?_)
      exact Scan.passes_of_shaped (fun _ hm => hm) (hshaped n (hroots.subset hn))
    exact hpasses [] (.inr rfl)

/-- `(def s (php/f ")\"(;" (let [x [1]] (foreach [x x] (php/g x)) x)))`: brackets and semicolons
inside of a literal, and statements inside of an argument. -/
def nestedForm : Form :=
  let host (name : String) : Form := .symbol (.qualified "php" name) none
  .parens [.name "def", .name "s", .parens [host "f", .str ")\"(;",
    .parens [.name "let", .brackets [.name "x", .brackets [.int 1]],
      .parens [.name "foreach", .brackets [.name "x", .name "x"], .parens [host "g", .name "x"]],
      .name "x"]]]

theorem unit_nested_literal :
    Scope.empty.context ≠ .expression ∧
      ∃ nodes s, unit [nestedForm] .empty (.start default 0) = .ok nodes s ∧ nodes.length = 1 ∧
        (∀ root ∈ nodes, ∀ n ∈ root.nodes, ∀ v ∈ n.written, Plain v.name) ∧
        Lines (program .standard nodes) ∧
        Scan.start.run (program .standard nodes) = some Scan.start := by
  have hscope : Scope.empty.context ≠ .expression := nofun
  refine ⟨hscope, ?_⟩
  have hfound : ((unit [nestedForm] .empty).run' (.start default 0)).any (fun nodes =>
      decide (nodes.length = 1 ∧
        ∀ root ∈ nodes, ∀ n ∈ root.nodes, ∀ v ∈ n.written, Plain v.name)) = true := by
    decide +kernel
  obtain ⟨nodes, s, hrun, hfound⟩ := exists_ok_of_any hfound
  obtain ⟨hlength, hplain⟩ := of_decide_eq_true hfound
  obtain ⟨hlines, hscan⟩ := unit_nested hscope hrun
    fun root hroot n hn v hv => .inl (hplain root hroot n hn v hv)
  exact ⟨nodes, s, hrun, hlength, hplain, hlines, hscan nodes List.prefix_rfl⟩

end LarkPhp.Analysis
