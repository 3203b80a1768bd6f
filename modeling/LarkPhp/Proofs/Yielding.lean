import LarkPhp.Session
import LarkPhp.Proofs.CodeShape

/-!
Bodies of functions.

Whatever is analyzed as a result is written as statements of which the last one leaves on every path
(`Yields`), and so are the bodies of all functions.  This takes names that are plain: a name of the
host is written as it is, and one with a semicolon and the end of a line in it is read as two
statements.
-/

namespace LarkPhp

namespace Php

/-! ### Texts that yield a value -/

/-- The text is made of statements of which the last one leaves: it returns or throws, or it is a branch
both of whose arms are such texts again. -/
def Yields (t : String) : Prop := Shaped (.plain Blank) [] .result t

section Plain
variable {blank : String → Prop} {vars : List Symbol} {context : Context} {a b t : String}

/-- Where variables may be read anywhere, it does not matter which ones are at hand. -/
theorem shaped_rebase (h : Shaped (.plain blank) vars context t) (ws : List Symbol) :
    Shaped (.plain blank) ws context t := by
  induction h generalizing ws with
  | inert h => exact .inert h
  | word h => exact .word h
  | read h => exact .read h
  | globals => exact .globals
  | operator h => exact .operator h
  | literal s => exact .literal s
  | append _ _ iha ihb => exact (iha ws).append (ihb ws)
  | parens _ ih => exact (ih ws).parens
  | brackets _ ih => exact (ih ws).brackets
  | function hgap hheader hparams huses hm ha _ => exact .function hgap hheader hparams huses hm ha
  | nothing => exact .nothing
  | simple hm _ ih => exact .simple hm (ih ws)
  | loop hm₁ hm₂ htargets hbinds _ _ iha ihb => exact .loop hm₁ hm₂ htargets hbinds (iha ws) (ihb _)
  | returned hm _ hne ih => exact .returned hm (ih ws) hne
  | thrown hm _ hne ih => exact .thrown hm (ih ws) hne
  | branch hcontext hm₁ hm₂ hm₃ _ _ _ ihtest iha ihb =>
    exact .branch hcontext hm₁ hm₂ hm₃ (ihtest ws) (iha ws) (ihb ws)
  | assign hcontext hbinds hm _ _ iha ihb => exact .assign hcontext hbinds hm (iha ws) (ihb _)
  | follow hcontext _ _ iha ihb => exact .follow hcontext (iha ws) (ihb ws)

/-! ### Texts without braces -/

/-- The last line of the text returns or throws. -/
def LeavesLast (t : String) : Prop :=
  ∃ before m word rest, t = before ++ (m ++ word ++ rest) ++ "\n" ∧
    Lines before ∧ Blank m ∧ (word = "return " ∨ word = "throw ") ∧
    '\n' ∉ rest.toList

/-- There are neither braces nor literals in the text. -/
def Unbraced (t : String) : Prop := '\x7b' ∉ t.toList ∧ '"' ∉ t.toList

instance (t : String) : Decidable (Unbraced t) :=
  inferInstanceAs (Decidable ('\x7b' ∉ t.toList ∧ '"' ∉ t.toList))

theorem unbraced_append (h : Unbraced (a ++ b)) : Unbraced a ∧ Unbraced b := by
  simp only [Unbraced, String.toList_append, List.mem_append, not_or] at h ⊢
  exact ⟨⟨h.1.1, h.2.1⟩, h.1.2, h.2.2⟩

theorem newline_not_mem_of_plain (h : Plain t) : '\n' ∉ t.toList := by
  intro hmem
  cases h _ hmem

theorem newline_not_mem_append (ha : '\n' ∉ a.toList) (hb : '\n' ∉ b.toList) :
    '\n' ∉ (a ++ b).toList := by
  rw [String.toList_append, List.mem_append]
  exact not_or.2 ⟨ha, hb⟩

theorem leavesLast_append (ha : Lines a) (hb : LeavesLast b) :
    LeavesLast (a ++ b) := by
  obtain ⟨before, m, word, rest, rfl, hbefore, h⟩ := hb
  refine ⟨a ++ before, m, word, rest, ?_, ha.append hbefore, h⟩
  simp only [String.append_assoc]

theorem leavesLast_line {m word : String} (hm : Blank m) (hword : word = "return " ∨ word = "throw ")
    (ha : '\n' ∉ a.toList) : LeavesLast (m ++ word ++ a ++ ";\n") := by
  refine ⟨"", m, word, a ++ ";", ?_, .inl rfl, hm, hword, newline_not_mem_append ha (by decide)⟩
  rw [show ";\n" = ";" ++ "\n" from rfl, String.empty_append]
  simp only [String.append_assoc]

/-- Without braces and literals, an expression stands on one line. -/
theorem newline_not_mem_of_shaped (h : Shaped (.plain Blank) vars .expression t) (ht : Unbraced t) :
    '\n' ∉ t.toList := by
  generalize hcontext : Context.expression = context at h
  induction h with
  | inert h => exact newline_not_mem_of_plain h.plain
  | word h => exact newline_not_mem_of_plain h
  | read h => exact newline_not_mem_of_plain (plain_var h)
  | globals => decide
  | operator h =>
    have hname := newline_not_mem_of_plain (inert_of_isHostOperator h).plain
    exact newline_not_mem_append (newline_not_mem_append (by decide) hname) (by decide)
  | literal s => exact absurd (by simp [quote]) ht.2
  | append _ _ iha ihb =>
    obtain ⟨ha, hb⟩ := unbraced_append ht
    exact newline_not_mem_append (iha ha hcontext) (ihb hb hcontext)
  | parens _ ih | brackets _ ih =>
    have hinner := ih (unbraced_append (unbraced_append ht).1).2 hcontext
    exact newline_not_mem_append (newline_not_mem_append (by decide) hinner) (by decide)
  | function => exact absurd (by simp) ht.1
  | nothing | simple | loop | returned | thrown => cases hcontext
  | branch h | assign h | follow h => exact absurd hcontext.symm h

/-- Without braces and literals, a result leaves with its last line. -/
theorem leavesLast_of_shaped (h : Shaped (.plain Blank) vars .result t) (ht : Unbraced t) :
    LeavesLast t := by
  generalize hcontext : Context.result = context at h
  induction h with
  | returned hm ha =>
    have hline := newline_not_mem_of_shaped ha (unbraced_append (unbraced_append ht).1).2
    exact leavesLast_line hm (.inl rfl) hline
  | thrown hm ha =>
    have hline := newline_not_mem_of_shaped ha (unbraced_append (unbraced_append ht).1).2
    exact leavesLast_line hm (.inr rfl) hline
  | branch => exact absurd (by simp) ht.1
  | assign _ _ _ _ _ _ ihb =>
    exact leavesLast_append (lines_semicolon _) (ihb (unbraced_append ht).2 hcontext)
  | follow _ ha _ _ ihb =>
    refine leavesLast_append (lines_of_shaped ha ?_) (ihb (unbraced_append ht).2 hcontext)
    intro h
    cases h
  | _ => cases hcontext

/-- The last line of a text, less its blanks at the start. -/
def lastLine (t : String) : List Char :=
  (t.toList.dropLast.reverse.takeWhile (· ≠ '\n')).reverse.dropWhile fun c => c = ' ' ∨ c = '\t'

theorem lastLine_of_leavesLast (h : LeavesLast t) :
    "return ".toList <+: lastLine t ∨ "throw ".toList <+: lastLine t := by
  obtain ⟨before, m, word, rest, rfl, hbefore, hm, hword, hrest⟩ := h
  have hline : '\n' ∉ (m ++ word ++ rest).toList := by
    have hmargin : '\n' ∉ m.toList := by
      intro hmem
      rcases hm _ hmem with h | h <;> cases h
    have hstart : '\n' ∉ word.toList := by
      rcases hword with rfl | rfl <;> decide
    exact newline_not_mem_append (newline_not_mem_append hmargin hstart) hrest
  have hlast : (before ++ (m ++ word ++ rest) ++ "\n").toList.dropLast =
      before.toList ++ (m ++ word ++ rest).toList := by
    rw [String.toList_append, String.toList_append]
    exact List.dropLast_concat
  have hbefore : before.toList.reverse.takeWhile (· ≠ '\n') = [] := by
    rcases hbefore with rfl | ⟨u, rfl⟩
    · rfl
    · rw [String.toList_append, List.reverse_append]
      rfl
  have hheld : ∀ c ∈ (m ++ word ++ rest).toList.reverse, decide (c ≠ '\n') = true := by
    intro c hc
    rw [decide_eq_true_iff]
    rintro rfl
    exact hline (List.mem_reverse.1 hc)
  have hblank : ∀ c ∈ m.toList, decide (c = ' ' ∨ c = '\t') = true := fun c hc =>
    decide_eq_true (hm c hc)
  have hlastLine : lastLine (before ++ (m ++ word ++ rest) ++ "\n") =
      (word.toList ++ rest.toList).dropWhile fun c => c = ' ' ∨ c = '\t' := by
    unfold lastLine
    rw [hlast, List.reverse_append, List.takeWhile_append_of_pos hheld, hbefore, List.append_nil,
      List.reverse_reverse, String.toList_append, String.toList_append, List.append_assoc,
      List.dropWhile_append_of_pos hblank]
  rw [hlastLine]
  rcases hword with rfl | rfl
  · exact .inl ⟨rest.toList, rfl⟩
  · exact .inr ⟨rest.toList, rfl⟩

/-- A text without braces and literals whose last line neither returns nor throws. -/
theorem not_yields (ht : Unbraced t) (hreturn : ¬ "return ".toList <+: lastLine t)
    (hthrow : ¬ "throw ".toList <+: lastLine t) : ¬ Yields t := by
  intro h
  rcases lastLine_of_leavesLast (leavesLast_of_shaped h ht) with hlast | hlast
  · exact hreturn hlast
  · exact hthrow hlast

end Plain

end Php

namespace Node

/-- The names in the code of the node and of those below are plain, but for those of drawn symbols. -/
def PlainlyNamed (n : Node) : Prop :=
  ∀ m ∈ n.nodes, ∀ v ∈ m.written, Php.Plain v.name ∨ ∃ k, v = .fresh k

theorem PlainlyNamed.plain {n : Node} (h : n.PlainlyNamed) :
    ∀ m ∈ n.nodes, ∀ v ∈ m.written, Php.Plain v.name := by
  intro m hm v hv
  rcases h m hm v hv with h | ⟨k, rfl⟩
  · exact h
  · exact Php.plain_fresh k

theorem PlainlyNamed.of_mem {n m : Node} (h : n.PlainlyNamed) (hm : m ∈ n.nodes) : m.PlainlyNamed :=
  fun k hk => h k (mem_nodes_trans hm hk)

end Node

namespace Session

open Analysis

theorem compileExpression_eq_ok {options : Options} {form : Form} {w w' : Workspace} {out : Output}
    (h : compileExpression options form w = (.ok out, w')) :
    ∃ n s, unit [form] ((rootScope options).withContext .result) (.start w.globals w.drawn)
        = .ok [n] s ∧ out.code = Php.program options.emit [n] := by
  unfold compileExpression compileIn at h
  split at h
  · next roots s hrun =>
    cases h
    -- one form has one node
    have hall := unit_induction (J := fun _ _ _ _ _ => True) (fun _ => trivial) hrun
    cases hall with
    | cons _ hnil =>
      cases hnil
      exact ⟨_, s, hrun, rfl⟩
  · cases h

/-- **Every body yields a value,** if the names in the code are plain and lines are indented by blanks.
In the nodes of a unit, whatever is analyzed as a result is written as statements of which the last one
leaves on every path: it returns, throws, or branches into texts of the same shape.  Of this shape are
the bodies of all functions, those that are called on the spot among them, and the code of every form
whose value is returned. -/
theorem bodies_yield {config : Php.Config} (hruntime : Php.Plain config.runtime)
    (hindent : Php.Blank config.indent) :
    (∀ forms scope s nodes s', unit forms scope s = .ok nodes s' →
      ∀ root ∈ nodes, root.PlainlyNamed → ∀ n ∈ root.nodes, ∀ d,
        (n.context = .result → Php.Yields (Php.code config n d)) ∧
        ∀ body, n.functionBody? = some body →
          (∃ before after, Php.code config n d = before ++ " \x7b\n" ++ Php.code config body (d + 1)
            ++ Php.margin config d ++ "\x7d" ++ after) ∧
          Php.Yields (Php.code config body (d + 1))) ∧
    ∀ home form w out w', compileExpression ⟨home, config⟩ form w = (.ok out, w') →
      ∃ n s, unit [form] ((rootScope ⟨home, config⟩).withContext .result) (.start w.globals w.drawn)
          = .ok [n] s ∧
        out.code = Php.preface config n ++ Php.code config n 0 ∧
        (n.PlainlyNamed → Php.Yields (Php.code config n 0)) := by
  have htakes : (Php.Grammar.plain Php.Blank).Takes config :=
    Php.takes_plain hruntime (Php.forall_margin hindent)
  have hyields : ∀ {n : Node} {u : Node.Use}, n.Sits u → n.PlainlyNamed → u.context = .result → ∀ d,
      Php.Yields (Php.code config n d) := by
    intro n u hsits hnamed hu d
    have hshaped := (Php.fitting_code htakes hsits (Php.admits_plain hnamed.plain []) d).1
    rwa [hu] at hshaped
  constructor
  · intro forms scope s nodes s' hrun root hroot hnamed n hn d
    have hsits := (sits_unit hrun root hroot).of_mem hn
    have hnode := hnamed.of_mem hn
    constructor
    · intro hcontext
      exact hyields hsits hnode (hsits.context ▸ hcontext) d
    · intro body hbody
      obtain ⟨before, gap, header, after, -, -, hcode⟩ := Php.code_around_body config hbody d
      refine ⟨⟨before ++ "function" ++ gap ++ header, after, hcode⟩, ?_⟩
      have hadmits : n.Everywhere (Php.Grammar.plain Php.Blank).Admits [] :=
        Php.admits_plain hnode.plain []
      exact Php.shaped_rebase (Php.shaped_functionBody htakes hsits hadmits hbody (d + 1)) []
  · intro home form w out w' h
    obtain ⟨n, s, hrun, hcode⟩ := compileExpression_eq_ok h
    refine ⟨n, s, hrun, ?_, fun hnamed => ?_⟩
    · rw [hcode, Php.program_singleton]
    · exact hyields (sits_unit hrun n List.mem_cons_self) hnamed rfl 0

/-- A function as the result of another, with a block inside that is called on the spot. -/
theorem bodies_yield_rebinding :
    (Php.Plain Php.Config.standard.runtime ∧ Php.Blank Php.Config.standard.indent) ∧
    ∃ n s body out w,
      unit [rebindingForm] ((rootScope .standard).withContext .result) (.start default 0)
        = .ok [n] s ∧
      n.PlainlyNamed ∧ n.context = .result ∧ n.functionBody? = some body ∧
      Php.Yields (Php.code .standard n 0) ∧ Php.Yields (Php.code .standard body 1) ∧
      compileExpression .standard rebindingForm default = (.ok out, w) ∧
      out.code = Php.preface .standard n ++ Php.code .standard n 0 := by
  have hruntime : Php.Plain Php.Config.standard.runtime := by decide
  have hindent : Php.Blank Php.Config.standard.indent := by decide
  obtain ⟨hunits, hexpressions⟩ := bodies_yield hruntime hindent
  have hfound : ((unit [rebindingForm] ((rootScope .standard).withContext .result)).run'
      (.start default 0)).any (fun nodes => decide (∀ root ∈ nodes, root.functionBody?.isSome ∧
        ∀ m ∈ root.nodes, ∀ v ∈ m.written, Php.Plain v.name)) = true := by
    decide +kernel
  obtain ⟨nodes, s, hrun, hfound⟩ := exists_ok_of_any hfound
  have hcompile : compileExpression .standard rebindingForm default =
      (.ok ⟨Php.program .standard nodes, s.warnings.flush.1⟩, ⟨s.globals, s.drawn⟩) := by
    show compileIn .standard [rebindingForm] ((rootScope .standard).withContext .result) default = _
    unfold compileIn
    rw [show (default : Workspace).globals = default from rfl,
      show (default : Workspace).drawn = 0 from rfl, hrun]
    rfl
  obtain ⟨n, s₁, hrun₁, hcode, hyields⟩ := hexpressions _ _ _ _ _ hcompile
  obtain ⟨rfl, rfl⟩ : nodes = [n] ∧ s = s₁ := by
    have heq := hrun.symm.trans hrun₁
    cases heq
    exact ⟨rfl, rfl⟩
  obtain ⟨hbody, hplain⟩ := of_decide_eq_true hfound n List.mem_cons_self
  obtain ⟨body, hbody⟩ := Option.isSome_iff_exists.1 hbody
  have hnamed : n.PlainlyNamed := fun m hm v hv => .inl (hplain m hm v hv)
  have hcontext := (sits_unit hrun n List.mem_cons_self).context
  have hnode := hunits _ _ _ _ _ hrun n List.mem_cons_self hnamed n n.mem_nodes_self 0
  exact ⟨⟨hruntime, hindent⟩, n, s, body, _, _, hrun, hnamed, hcontext, hbody, hyields hnamed,
    (hnode.2 body hbody).2, hcompile, hcode⟩

/-! ### Names and settings that are not plain -/

/-- `(php/"f;<newline>g")`: a call of a name of the host in which a statement ends. -/
def brokenNameForm : Form := .parens [.symbol (.qualified "php" "f;\ng") none]

/-- The usual settings with another namespace of the runtime, in which a statement ends. -/
def brokenRuntime : Php.Config := { Php.Config.standard with runtime := "f;\ng" }

/-- The usual settings with words instead of blanks. -/
def wordyIndent : Php.Config := { Php.Config.standard with indent := "x" }

/-- The last statement is a call: of what stands behind the end of a statement in a name, or in the
namespace of the runtime.  Where lines are indented by words, the last word of the body of a function is
no `return` either. -/
theorem bodies_yield_broken :
    (codeOf (compileExpression .standard brokenNameForm default) = some "return f;\ng();\n" ∧
      ¬ Php.Yields "return f;\ng();\n") ∧
    (codeOf (compileExpression ⟨Scope.defaultHome, brokenRuntime⟩ (.brackets []) default) =
        some "return f;\ng\\Tuple::createBracket();\n" ∧
      ¬ Php.Yields "return f;\ng\\Tuple::createBracket();\n") ∧
    ((unit [.parens [.name "fn", .brackets [], .int 1]] (rootScope .standard)).run'
        (.start default 0)).map (fun nodes =>
          nodes.map fun n => n.functionBody?.map fun body => Php.code wordyIndent body 1) =
        some [some "xreturn 1;\n"] ∧
      ¬ Php.Yields "xreturn 1;\n" := by
  refine ⟨⟨by decide +kernel, ?_⟩, ⟨by decide +kernel, ?_⟩, by decide +kernel, ?_⟩
  all_goals exact Php.not_yields (by decide) (by decide) (by decide)

end Session

end LarkPhp
