import LarkPhp.Php.Emission
import LarkPhp.Proofs.Forest

/-!
Code from tables and code from trees.

`Emits e text` says that writing `e` goes through and appends a text that depends on nothing but the
depth.  Such texts follow each other like the pieces that write them, and so the walk through the
table of some trees comes to its end and writes the code of the trees.  The tables of analyzed units
are such tables.
-/

namespace LarkPhp.Php

/-! ### Writing that goes through -/

/-- Writing goes through, appends the text, and leaves the depth as it was. -/
def Emits (config : Config) (e : Emit Unit) (text : Nat → String) : Prop :=
  ∀ w : Writer, w.unit = config.indent → e w = some ((), w.write (text w.depth))

section Pieces
variable {config : Config} {e e₁ e₂ : Emit Unit} {t t₁ t₂ : Nat → String}

theorem Emits.congr (h : Emits config e t₁) (ht : ∀ d, t₁ d = t₂ d) : Emits config e t₂ := by
  intro w hw
  rw [h w hw, ht]

theorem emits_nothing : Emits config (pure ()) fun _ => "" := by
  intro w _
  show some ((), w) = some ((), { w with output := w.output ++ "" })
  rw [String.append_empty]

theorem emits_write (s : String) : Emits config (Emit.write s) fun _ => s := fun _ _ => rfl

theorem emits_writeIndent : Emits config Emit.writeIndent (margin config) := by
  intro w hw
  unfold margin
  rw [← hw]
  rfl

theorem Emits.seq (h₁ : Emits config e₁ t₁) (h₂ : Emits config e₂ t₂) :
    Emits config (do e₁; e₂) fun d => t₁ d ++ t₂ d := by
  intro w hw
  show ((e₁ w).bind fun p => e₂ p.2) = _
  rw [h₁ w hw]
  show e₂ (w.write (t₁ w.depth)) = _
  rw [h₂ (w.write (t₁ w.depth)) hw]
  show some ((), { w with output := w.output ++ t₁ w.depth ++ t₂ w.depth }) = _
  rw [String.append_assoc]
  rfl

theorem emits_writeLine (s : String) : Emits config (Emit.writeLine s) fun d => line config d s := by
  have heq : Emit.writeLine s = (do Emit.writeIndent; Emit.write s; Emit.write "\n") := rfl
  rw [heq]
  refine (emits_writeIndent.seq ((emits_write _).seq (emits_write _))).congr fun d => ?_
  rw [line, String.append_assoc]

theorem Emits.indented (h : Emits config e t) :
    Emits config (Emit.indented e) fun d => t (d + 1) := by
  intro w hw
  show ((e w.indent).bind fun p => Emit.dedent p.2) = _
  rw [h w.indent hw]
  rfl

theorem Emits.found {α : Type} {x : Option α} {a : α} {f : α → Emit Unit} (h : Emits config (f a) t)
    (hx : x = some a) : Emits config (StateT.lift x >>= f) t := by
  rw [hx]
  exact h

theorem Emits.ite {c : Prop} [Decidable c] (h₁ : Emits config e₁ t₁) (h₂ : Emits config e₂ t₂) :
    Emits config (if c then e₁ else e₂) fun d => if c then t₁ d else t₂ d := by
  by_cases hc : c
  · simp only [if_pos hc]
    exact h₁
  · simp only [if_neg hc]
    exact h₂

theorem Emits.parens (h : Emits config e t) :
    Emits config (Emit.parens e) fun d => "(" ++ t d ++ ")" := by
  refine ((emits_write _).seq (h.seq (emits_write _))).congr fun d => ?_
  rw [String.append_assoc]

theorem Emits.framed (h : Emits config e t) (context : Context) :
    Emits config (Emit.framed context e) fun d => Php.framed config context d (t d) := by
  cases context with
  | expression => exact h
  | statement =>
    refine (emits_writeIndent.seq (h.seq (emits_write _))).congr fun d => ?_
    simp only [Php.framed, String.append_assoc]
  | result =>
    refine (emits_writeIndent.seq ((emits_write _).seq (h.seq (emits_write _)))).congr fun d => ?_
    simp only [Php.framed, String.append_assoc]

theorem Emits.closure (h : Emits config e t) (scope : Scope) :
    Emits config (Emit.closure scope e) fun d => Php.closure config scope d (t (d + 1)) := by
  refine ((emits_write _).seq ((emits_write _).seq ((emits_write _).seq (h.indented.seq
    (emits_writeIndent.seq (emits_write _)))))).congr fun d => ?_
  simp only [Php.closure, String.append_assoc]

end Pieces

/-! ### Nodes -/

section Nodes
variable {config : Config} {arena : Arena} {visit : Nat → Emit Unit} {canAssign : Nat → Emit Bool}
  {n : Node} {ns : List Node}

theorem emits_inOrder {text : Node → Nat → String}
    (h : ∀ n ∈ ns, Emits config (visit n.serial) (text n)) :
    Emits config (Emit.inOrder visit (ns.map Node.serial)) fun d =>
      String.join (ns.map (text · d)) := by
  induction ns with
  | nil => exact emits_nothing
  | cons n ns ih =>
    obtain ⟨hn, hns⟩ := List.forall_mem_cons.1 h
    refine (hn.seq (ih hns)).congr fun d => ?_
    rw [List.map_cons, String.join_cons]

theorem emits_separated (h : ∀ n ∈ ns, Emits config (visit n.serial) (code config n))
    (between : String) :
    Emits config (Emit.separated visit between (ns.map Node.serial)) fun d =>
      between.intercalate (codes config ns d) := by
  induction ns with
  | nil =>
    refine emits_nothing.congr fun d => ?_
    rw [codes, String.intercalate_nil]
  | cons n ns ih =>
    obtain ⟨hn, hns⟩ := List.forall_mem_cons.1 h
    cases ns with
    | nil =>
      refine hn.congr fun d => ?_
      rw [codes, codes, String.intercalate_singleton]
    | cons m ns =>
      refine (hn.seq ((emits_write between).seq (ih hns))).congr fun d => ?_
      simp only [codes, String.intercalate_cons_cons, String.append_assoc]

theorem emits_args (h : ∀ n ∈ ns, Emits config (visit n.serial) (code config n))
    {range : Arena.Range} (hrange : arena.list? range = some (ns.map Node.serial)) :
    Emits config (Emit.args arena visit range) fun d =>
      "(" ++ commas (codes config ns d) ++ ")" :=
  ((emits_separated h _).found hrange).parens

theorem emits_construct (h : ∀ n ∈ ns, Emits config (visit n.serial) (code config n))
    {range : Arena.Range} (hrange : arena.list? range = some (ns.map Node.serial))
    (cls constructor : String) :
    Emits config (Emit.construct config arena visit cls constructor range) fun d =>
      construct config cls constructor (codes config ns d) := by
  refine ((emits_write _).seq ((emits_write _).seq ((emits_write _).seq
    (emits_args h hrange)))).congr fun d => ?_
  simp only [construct, String.append_assoc]

theorem emits_operation (h : ∀ n ∈ ns, Emits config (visit n.serial) (code config n))
    (operator : String) :
    Emits config (Emit.operation visit operator (ns.map Node.serial)) fun d =>
      operation operator (codes config ns d) := by
  cases ns with
  | nil => exact (emits_separated h _).parens
  | cons n ns =>
    cases ns with
    | nil =>
      have hn := List.forall_mem_singleton.1 h
      refine ((emits_write operator).seq hn).parens.congr fun d => ?_
      simp only [codes, operation, String.append_assoc]
    | cons m ns => exact (emits_separated h _).parens

theorem emits_truth (h : Emits config (visit n.serial) (code config n)) :
    Emits config (Emit.truth config visit n.serial) fun d => truth config (code config n d) := by
  refine ((emits_write _).seq ((emits_write _).seq h.parens)).congr fun d => ?_
  rw [truth, show "::isTruthy(" = "::isTruthy" ++ "(" from rfl]
  simp only [String.append_assoc]

theorem emits_assignments {bs : List (Binding Node)}
    (h : ∀ b ∈ bs, Emits config (visit b.init.serial) (code config b.init)) :
    Emits config (Emit.assignments visit (bs.map fun b => ⟨b.name, b.var, b.init.serial⟩))
      (assignments config bs) := by
  induction bs with
  | nil => exact emits_nothing
  | cons b bs ih =>
    obtain ⟨hb, hbs⟩ := List.forall_mem_cons.1 h
    refine (emits_writeIndent.seq ((emits_write _).seq ((emits_write _).seq (hb.seq
      ((emits_write _).seq (ih hbs)))))).congr fun d => ?_
    rw [assignments, line, show ";\n" = ";" ++ "\n" from rfl]
    simp only [String.append_assoc]

theorem emits_loopKey (key : Option Symbol) :
    Emits config (Emit.loopKey key) fun _ => match key with
      | some k => var k ++ " => "
      | none => "" := by
  cases key with
  | none => exact emits_nothing
  | some k => exact (emits_write _).seq (emits_write _)

theorem emits_loop {coll body : Node} (hcoll : Emits config (visit coll.serial) (code config coll))
    (hbody : Emits config (visit body.serial) (code config body)) (v : Symbol)
    (key : Option Symbol) :
    Emits config (Emit.loop visit v key coll.serial body.serial) fun d =>
      line config d (loopHead v key (code config coll d)) ++ code config body (d + 1)
        ++ line config d "\x7d" := by
  refine (emits_writeIndent.seq ((emits_write _).seq (hcoll.seq ((emits_write _).seq
    ((emits_loopKey key).seq ((emits_write _).seq ((emits_write _).seq (hbody.indented.seq
    (emits_writeLine _))))))))).congr fun d => ?_
  unfold loopHead line
  rw [show ") \x7b\n" = ") \x7b" ++ "\n" from rfl]
  cases key <;> simp only [String.append_assoc]

theorem emits_application {callee : Node} (hcallee : arena.Holds callee)
    (hvisit : Emits config (visit callee.serial) (code config callee))
    (h : ∀ n ∈ ns, Emits config (visit n.serial) (code config n))
    {range : Arena.Range} (hrange : arena.list? range = some (ns.map Node.serial)) :
    Emits config (Emit.application arena visit callee.serial range) fun d =>
      application callee (code config callee d) (codes config ns d) := by
  obtain ⟨stretch, hentry, -, -⟩ := hcallee
  have hplain : Emits config (do Emit.parens (visit callee.serial); Emit.args arena visit range)
      fun d => "(" ++ code config callee d ++ ")(" ++ commas (codes config ns d) ++ ")" := by
    refine (hvisit.parens.seq (emits_args h hrange)).congr fun d => ?_
    rw [show ")(" = ")" ++ "(" from rfl]
    simp only [String.append_assoc]
  refine Emits.found ?_ hentry
  cases callee with
  | hostVar name i =>
    show Emits config (if isHostOperator name.name then
        StateT.lift (arena.list? range) >>= Emit.operation visit name.name
      else do Emit.write name.name; Emit.args arena visit range) fun d =>
        if isHostOperator name.name then operation name.name (codes config ns d)
        else name.name ++ "(" ++ commas (codes config ns d) ++ ")"
    by_cases hop : isHostOperator name.name = true
    · simp only [if_pos hop]
      exact (emits_operation h _).found hrange
    · simp only [if_neg hop]
      refine ((emits_write _).seq (emits_args h hrange)).congr fun d => ?_
      simp only [String.append_assoc]
  | _ => exact hplain

theorem emits_target (hn : arena.Holds n) (h : Emits config (visit n.serial) (code config n)) :
    Emits config (Emit.target arena visit n.serial) fun d => target n (code config n d) := by
  obtain ⟨stretch, hentry, -, -⟩ := hn
  refine Emits.found ?_ hentry
  cases n with
  | className name i => exact emits_write name.name
  | _ => exact h.parens

/-- A test whether a node can be assigned to that answers as it should. -/
def Decides (canAssign : Nat → Emit Bool) (n : Node) : Prop :=
  ∀ w, canAssign n.serial w = some (assignable n, w)

theorem emits_subscript {index : Node} (hn : Decides canAssign n)
    (h : Emits config (visit n.serial) (code config n))
    (hindex : Emits config (visit index.serial) (code config index)) :
    Emits config (Emit.subscript visit canAssign n.serial index.serial) fun d =>
      subscript n (code config n d) (code config index d) := by
  have hbase : Emits config (Emit.subscripted visit canAssign n.serial) fun d =>
      if assignable n then code config n d else "(" ++ code config n d ++ ")" := by
    intro w hw
    show ((canAssign n.serial w).bind fun p =>
      (if p.1 then visit n.serial else Emit.parens (visit n.serial)) p.2) = _
    rw [hn w]
    show (if assignable n then visit n.serial else Emit.parens (visit n.serial)) w = _
    by_cases hassign : assignable n = true
    · simp only [if_pos hassign]
      exact h w hw
    · simp only [if_neg hassign]
      exact h.parens w hw
  refine (hbase.seq ((emits_write _).seq (hindex.seq (emits_write _)))).congr fun d => ?_
  simp only [subscript, String.append_assoc]

theorem emits_literal (v : Form) (i : Node.Info) :
    Emits config (Emit.entry config arena visit canAssign (.literal v) i.scope)
      (code config (.literal v i)) := by
  unfold Emit.entry
  cases hcontext : i.scope.context with
  | statement => exact emits_nothing.congr fun d => by simp only [code, hcontext]
  | expression =>
    exact ((emits_write _).framed .expression).congr fun d => by simp only [code, hcontext]
  | result => exact ((emits_write _).framed .result).congr fun d => by simp only [code, hcontext]

theorem emits_block {last : Node} (h : ∀ n ∈ ns, Emits config (visit n.serial) (code config n))
    (hlast : Emits config (visit last.serial) (code config last))
    {range : Arena.Range} (hrange : arena.list? range = some (ns.map Node.serial)) (i : Node.Info) :
    Emits config (Emit.entry config arena visit canAssign (.block range last.serial) i.scope)
      (code config (.block ns last i)) := by
  have hbody := (emits_inOrder h).seq hlast
  refine Emits.found ?_ hrange
  show Emits config (if i.scope.context = .expression ∧ !(ns.map Node.serial).isEmpty then
      Emit.closure i.scope do
        Emit.inOrder visit (ns.map Node.serial)
        visit last.serial
    else do
      Emit.inOrder visit (ns.map Node.serial)
      visit last.serial) _
  rw [List.isEmpty_map]
  refine ((hbody.closure i.scope).ite hbody).congr fun d => ?_
  rw [code, codes_eq, codes_eq]

theorem emits_branch {test yes no : Node}
    (htest : Emits config (visit test.serial) (code config test))
    (hyes : Emits config (visit yes.serial) (code config yes))
    (hno : Emits config (visit no.serial) (code config no)) (i : Node.Info) :
    Emits config (Emit.entry config arena visit canAssign
      (.branch test.serial yes.serial no.serial) i.scope) (code config (.branch test yes no i)) := by
  have hchoice := ((emits_truth htest).seq ((emits_write " ? ").seq (hyes.seq
    ((emits_write " : ").seq hno)))).parens
  have hsteps := emits_writeIndent.seq ((emits_write "if ").seq ((emits_truth htest).parens.seq
    ((emits_write " \x7b\n").seq (hyes.indented.seq ((emits_writeLine "\x7d else \x7b").seq
    (hno.indented.seq (emits_writeLine "\x7d")))))))
  refine (hchoice.ite hsteps).congr fun d => ?_
  rw [code]
  congr 1
  · simp only [String.append_assoc]
  · unfold line
    rw [show "if (" = "if " ++ "(" from rfl, show ") \x7b" = ")" ++ " \x7b" from rfl,
      show " \x7b\n" = " \x7b" ++ "\n" from rfl]
    simp only [String.append_assoc]

theorem emits_function {body : Node} (hbody : Emits config (visit body.serial) (code config body))
    (params : List Symbol) (variadic : Bool) (uses : List Symbol) (i : Node.Info) :
    Emits config (Emit.entry config arena visit canAssign
      (.function params variadic uses body.serial) i.scope)
      (code config (.function params variadic uses body i)) := by
  refine Emits.congr (Emits.framed ((emits_write _).seq ((emits_write _).seq ((emits_write _).seq
    ((emits_write _).seq ((emits_write _).seq (hbody.indented.seq (emits_writeIndent.seq
    (emits_write _)))))))) _) fun d => ?_
  rw [code]
  simp only [String.append_assoc]

/-- A loop has no value of its own: where one is needed, `null` is returned after it. -/
theorem emits_foreach {coll body : Node}
    (hcoll : Emits config (visit coll.serial) (code config coll))
    (hbody : Emits config (visit body.serial) (code config body)) (v : Symbol)
    (key : Option Symbol) (i : Node.Info) :
    Emits config (Emit.entry config arena visit canAssign
      (.loop v key coll.serial body.serial) i.scope) (code config (.loop v key coll body i)) := by
  have hloop := emits_loop hcoll hbody v key
  have hreturning := hloop.seq (emits_writeLine "return null;")
  unfold Emit.entry
  cases hcontext : i.scope.context with
  | statement => exact hloop.congr fun d => by simp only [code, hcontext]
  | result => exact hreturning.congr fun d => by simp only [code, hcontext]
  | expression => exact (hreturning.closure i.scope).congr fun d => by simp only [code, hcontext]

theorem emits_throw (h : Emits config (visit n.serial) (code config n)) (i : Node.Info) :
    Emits config (Emit.entry config arena visit canAssign (.throw n.serial) i.scope)
      (code config (.throw n i)) := by
  have hsteps := emits_writeIndent.seq ((emits_write "throw ").seq (h.seq (emits_write ";\n")))
  refine (((emits_write "throw ").seq h).parens.ite hsteps).congr fun d => ?_
  rw [code]
  congr 1
  unfold line
  rw [show ";\n" = ";" ++ "\n" from rfl]
  simp only [String.append_assoc]

/-- **An entry is written as its node,** if the parts are. -/
theorem emits_entry (hc : ∀ c ∈ n.children, arena.Holds c)
    (hvisit : ∀ c ∈ n.children, Emits config (visit c.serial) (code config c))
    (hassign : ∀ c ∈ n.children, Decides canAssign c) {range : Arena.Range}
    (hrange : arena.list? range = some (n.listed.map Node.serial)) :
    Emits config (Emit.entry config arena visit canAssign (.ofNode n range) n.scope)
      (code config n) := by
  cases n with
  | literal v i => exact emits_literal v i
  | localVar v i => exact (emits_write _).framed _
  | globalVar home name i => exact (emits_write _).framed _
  | hostVar name i => exact (emits_write _).framed _
  | className name i => exact ((emits_write _).seq (emits_write _)).framed _
  | call callee args i =>
    obtain ⟨hcallee, hargs⟩ := List.forall_mem_cons.1 hvisit
    exact (emits_application (hc _ List.mem_cons_self) hcallee hargs hrange).framed _
  | block stmts last i =>
    obtain ⟨hstmts, hlast⟩ := List.forall_mem_append.1 hvisit
    exact emits_block hstmts (hlast last List.mem_cons_self) hrange i
  | branch test yes no i =>
    obtain ⟨htest, hvisit⟩ := List.forall_mem_cons.1 hvisit
    obtain ⟨hyes, hno⟩ := List.forall_mem_cons.1 hvisit
    exact emits_branch htest hyes (hno no List.mem_cons_self) i
  | bindings bs body i =>
    obtain ⟨hinits, hlast⟩ := List.forall_mem_append.1 hvisit
    have hlast := List.forall_mem_singleton.1 hlast
    have hbody := (emits_assignments (List.forall_mem_map.1 hinits)).seq hlast
    refine ((hbody.closure i.scope).ite hbody).congr fun d => ?_
    rw [code]
    rfl
  | function params variadic uses body i =>
    exact emits_function (hvisit body List.mem_cons_self) params variadic uses i
  | definition home name init i =>
    have hinit := List.forall_mem_singleton.1 hvisit
    refine Emits.congr (Emits.framed ((emits_write _).seq ((emits_write _).seq hinit)) _) fun d => ?_
    rw [code]
    simp only [String.append_assoc]
    rfl
  | loop v key coll body i =>
    obtain ⟨hcoll, hbody⟩ := List.forall_mem_cons.1 hvisit
    exact emits_foreach hcoll (hbody body List.mem_cons_self) v key i
  | throw x i => exact emits_throw (hvisit x List.mem_cons_self) i
  | table items i => exact (emits_construct hvisit hrange _ _).framed _
  | array items i => exact (emits_construct hvisit hrange _ _).framed _
  | set items i => exact (emits_construct hvisit hrange _ _).framed _
  | tuple items i => exact (emits_construct hvisit hrange _ _).framed _
  | new cls args i =>
    obtain ⟨hcls, hargs⟩ := List.forall_mem_cons.1 hvisit
    have htarget := emits_target (hc _ List.mem_cons_self) hcls
    refine Emits.congr (Emits.framed ((emits_write _).seq (htarget.seq (emits_args hargs hrange))) _)
      fun d => ?_
    rw [code]
    simp only [String.append_assoc]
    rfl
  | member object part static method i =>
    obtain ⟨hobject, hpart⟩ := List.forall_mem_cons.1 hvisit
    have hpart := List.forall_mem_singleton.1 hpart
    have htarget := emits_target (hc _ List.mem_cons_self) hobject
    refine Emits.congr (Emits.framed (htarget.seq ((emits_write _).seq hpart)) _) fun d => ?_
    rw [code]
    simp only [String.append_assoc]
    rfl
  | methodCall name args i =>
    refine ((emits_write _).seq (emits_args hvisit hrange)).congr fun d => ?_
    rw [code]
    simp only [String.append_assoc]
    rfl
  | property name i => exact emits_write _
  | arrayGet a index i =>
    obtain ⟨ha, hindex⟩ := List.forall_mem_cons.1 hvisit
    have hindex := List.forall_mem_singleton.1 hindex
    exact (emits_subscript (hassign _ List.mem_cons_self) ha hindex).framed _
  | arraySet a index v i =>
    obtain ⟨ha, hvisit⟩ := List.forall_mem_cons.1 hvisit
    obtain ⟨hindex, hv⟩ := List.forall_mem_cons.1 hvisit
    have hv := List.forall_mem_singleton.1 hv
    have hsubscript := emits_subscript (hassign _ List.mem_cons_self) ha hindex
    refine Emits.congr (Emits.framed (hsubscript.seq ((emits_write _).seq hv)) _) fun d => ?_
    rw [code]
    simp only [String.append_assoc]
    rfl

end Nodes

/-! ### Trees -/

/-- The table holds all nodes of a tree, and the parts of each of them before it. -/
structure Stored (arena : Arena) (n : Node) : Prop where
  held : ∀ m ∈ n.nodes, arena.Holds m
  earlier : ∀ m ∈ n.nodes, ∀ c ∈ m.children, c.serial < m.serial

section Trees
variable {config : Config} {arena : Arena} {n c : Node} {nodes : List Node} {fuel : Nat}

theorem Stored.child (h : Stored arena n) (hc : c ∈ n.children) : Stored arena c where
  held m hm := h.held m (Node.mem_nodes_of_child hc hm)
  earlier m hm := h.earlier m (Node.mem_nodes_of_child hc hm)

theorem Stored.self (h : Stored arena n) : arena.Holds n := h.held n n.mem_nodes_self

theorem Stored.lt_of_child (h : Stored arena n) (hfuel : n.serial < fuel + 1)
    (hc : c ∈ n.children) : c.serial < fuel :=
  Nat.lt_of_lt_of_le (h.earlier n n.mem_nodes_self c hc) (Nat.le_of_lt_succ hfuel)

theorem decides_assignable (h : Stored arena n) (hfuel : n.serial < fuel) :
    Decides (Emit.assignable arena fuel) n := by
  induction n using Node.ind generalizing fuel with
  | h n ih =>
    cases fuel with
    | zero => exact absurd hfuel (Nat.not_lt_zero _)
    | succ fuel =>
      obtain ⟨range, hentry, -, -⟩ := h.self
      intro w
      unfold Emit.assignable
      rw [hentry]
      cases n with
      | arrayGet a index i =>
        have ha : a ∈ (Node.arrayGet a index i).children := List.mem_cons_self
        exact ih a ha (h.child ha) (h.lt_of_child hfuel ha) w
      | _ => rfl

/-- **The walk through a tree writes its code.** -/
theorem emits_node (h : Stored arena n) (hfuel : n.serial < fuel) :
    Emits config (Emit.node config arena fuel n.serial) (code config n) := by
  induction n using Node.ind generalizing fuel with
  | h n ih =>
    cases fuel with
    | zero => exact absurd hfuel (Nat.not_lt_zero _)
    | succ fuel =>
      obtain ⟨range, hentry, -, hrange⟩ := h.self
      refine Emits.found ?_ hentry
      refine emits_entry (fun c hc => (h.child hc).self) (fun c hc => ?_) (fun c hc => ?_) hrange
      · exact ih c hc (h.child hc) (h.lt_of_child hfuel hc)
      · exact decides_assignable (h.child hc) (h.lt_of_child hfuel hc)

/-- The line with the place of a node, if that is wanted. -/
def placeLine (config : Config) (n : Node) (depth : Nat) : String :=
  match config.locationComments, n.location with
  | true, some l => line config depth ("// " ++ l.text)
  | _, _ => ""

theorem emits_comment (h : arena.Holds n) :
    Emits config (Emit.comment config arena n.serial) (placeLine config n) := by
  obtain ⟨range, hentry, -, -⟩ := h
  show Emits config (Emit.comment config arena n.serial) fun d => placeLine config n d
  unfold Emit.comment placeLine
  cases config.locationComments with
  | false => exact emits_nothing
  | true =>
    rw [hentry]
    cases n.location with
    | none => exact emits_nothing
    | some l => exact emits_writeLine _

theorem emits_root (h : Stored arena n) (hfuel : n.serial < fuel) :
    Emits config (Emit.root config arena fuel n.serial) fun d =>
      placeLine config n d ++ code config n d :=
  (emits_comment h.self).seq (emits_node h hfuel)

theorem emits_openTag : Emits config (Emit.openTag config) fun d =>
    if config.openTag then line config d "<?php" else "" :=
  (emits_writeLine _).ite emits_nothing

theorem line_zero (text : String) : line config 0 text = text ++ "\n" := by
  show "" ++ text ++ "\n" = text ++ "\n"
  rw [String.empty_append]

theorem root_eq (n : Node) : root config n = placeLine config n 0 ++ code config n 0 := by
  unfold root placeLine
  generalize config.locationComments = wanted, n.location = location
  cases wanted with
  | false => exact String.empty_append.symm
  | true =>
    cases location with
    | none => exact String.empty_append.symm
    | some l => exact congrArg (· ++ code config n 0) (line_zero _).symm

/-- **The walk through a table of trees comes to its end and has written their program.** -/
theorem emit_of_stored (h : ∀ n ∈ nodes, Stored arena n) (hfuel : ∀ n ∈ nodes, n.serial < fuel) :
    emit config arena fuel (nodes.map Node.serial) = some (program config nodes) := by
  have hroots : Emits config _ _ := emits_inOrder fun n hn => emits_root (h n hn) (hfuel n hn)
  have hprogram := emits_openTag.seq hroots (Writer.start config.indent) rfl
  unfold emit Emit.program
  rw [hprogram]
  show some ("" ++ ((if config.openTag then line config 0 "<?php" else "") ++
    String.join (nodes.map fun n => placeLine config n 0 ++ code config n 0))) = _
  unfold program
  rw [String.empty_append, line_zero, List.map_congr_left fun n _ => root_eq n]
  rfl

end Trees

end LarkPhp.Php

namespace LarkPhp.Analysis

open Rules

/-- **Analysis builds a forest,** and the walk through it comes to its end.  The nodes that analysis
makes for a unit are those of the trees of its forms, numbered from zero in post-order; their table
is a forest whose roots are the trees of the forms in order, and its program can be written with as
much fuel as there are nodes. -/
theorem unit_forest {globals : Globals} {drawn : Nat} {scope : Scope} {forms : List Form}
    {nodes : List Node} {s : State} (h : unit forms scope (.start globals drawn) = .ok nodes s) :
    (nodes.flatMap Node.nodes).map Node.serial = List.range s.nodes ∧
      (Arena.ofTrees nodes).size = s.nodes ∧
      (∀ n ∈ nodes.flatMap Node.nodes, (Arena.ofTrees nodes).Holds n) ∧
      (Arena.ofTrees nodes).IsForest (nodes.map Node.serial) ∧
      All (fun f scope s n s' => form f scope s = .ok n s') scope forms (.start globals drawn)
        nodes s ∧
      (nodes.map Node.serial).Pairwise (· < ·) ∧
      ∀ config fuel, (Arena.ofTrees nodes).size ≤ fuel →
        Php.emit config (Arena.ofTrees nodes) fuel (nodes.map Node.serial)
          = some (Php.program config nodes) := by
  have hmade : Made 0 (nodes.flatMap Node.nodes) s.nodes := made_unit h
  have hserials : (nodes.flatMap Node.nodes).map Node.serial = List.range s.nodes := by
    rw [hmade.1, hmade.2, List.range_eq_range', Nat.zero_add]
  have hsize := Arena.size_ofTrees hmade
  refine ⟨hserials, hsize, Arena.holds_ofTrees hmade, Arena.isForest_ofTrees hmade, visits_unit h,
    ?_, ?_⟩
  · refine List.Pairwise.sublist ((Node.sublist_flatMap_nodes nodes).map Node.serial) ?_
    rw [hserials]
    exact List.pairwise_lt_range
  · intro config fuel hfuel
    refine Php.emit_of_stored (fun n hn => ⟨fun m hm => ?_, ?_⟩) fun n hn => ?_
    · exact Arena.holds_ofTrees hmade m (List.mem_flatMap.2 ⟨n, hn, hm⟩)
    · obtain ⟨a, b, hnodes⟩ := hmade.of_mem hn
      exact hnodes.child_lt
    · refine Nat.lt_of_lt_of_le ?_ (hsize ▸ hfuel)
      exact hmade.lt_of_mem (List.mem_flatMap.2 ⟨n, hn, n.mem_nodes_self⟩)

/-- `(def x 1)` and `(if (x 1 2) (do (x) [3]))`: lists of parts inside of each other, and a branch
that is left out. -/
def branchingForms : List Form :=
  [.parens [.name "def", .name "x", .int 1],
    .parens [.name "if", .parens [.name "x", .int 1, .int 2],
      .parens [.name "do", .parens [.name "x"], .brackets [.int 3]]]]

theorem unit_forest_branching :
    ∃ nodes s, unit branchingForms .empty (.start default 0) = .ok nodes s ∧ s.nodes = 13 ∧
      (Arena.ofTrees nodes).size = 13 ∧ (Arena.ofTrees nodes).IsForest [1, 12] ∧
      Php.emit .standard (Arena.ofTrees nodes) 13 [1, 12] = some (Php.program .standard nodes) := by
  have hfound : ((unit branchingForms .empty).run' (.start default 0)).any (fun nodes =>
      decide ((Arena.ofTrees nodes).size = 13 ∧ nodes.map Node.serial = [1, 12])) = true := by
    decide +kernel
  obtain ⟨nodes, s, hrun, hfound⟩ := exists_ok_of_any hfound
  obtain ⟨hsize, hroots⟩ := of_decide_eq_true hfound
  obtain ⟨-, hnodes, -, hforest, -, -, hemit⟩ := unit_forest hrun
  rw [hroots] at hforest hemit
  exact ⟨nodes, s, hrun, hnodes ▸ hsize, hsize, hforest, hemit .standard 13 (Nat.le_of_eq hsize)⟩

end LarkPhp.Analysis
