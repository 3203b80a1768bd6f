import LarkPhp.Proofs.CodeGrammar
import LarkPhp.Proofs.Lexical
import LarkPhp.Proofs.Placement

/-!
The shape of code.

The code of a node has the shape of the node's context (`fitting_code`), since every part stands in the
context that the construct around it writes it for.  The variables at hand in the grammar are those
that `Node.parts` keeps account of: where the grammar admits what each node reads, sets and spells
out, it admits the code of the whole tree.
-/

namespace LarkPhp

/-! ### Names that are written -/

namespace Node

/-- The names that a node spells out by itself: hosts, classes, members and parameters. -/
def spelled : Node → List Symbol
  | hostVar name _ | className name _ | methodCall name _ _ | property name _ => [name]
  | function params _ _ _ _ => params
  | _ => []

/-- The symbols whose names stand in the code of a node outside of string literals, less those of the
nodes below. -/
def written (n : Node) : List Symbol := n.reads ++ n.allocated ++ n.spelled

/-- A symbol whose name stands in the code of a node or of one below. -/
def Mentions (n : Node) (v : Symbol) : Prop := ∃ m ∈ n.nodes, v ∈ m.written

/-- The parameters among the names that a node spells out. -/
def parameters : Node → List Symbol
  | function params _ _ _ _ => params
  | _ => []

/-- The names of the host among the names that a node spells out. -/
def hosts : Node → List Symbol
  | hostVar name _ | className name _ | methodCall name _ _ | property name _ => [name]
  | _ => []

section Written
variable {n c : Node} {v : Symbol}

theorem mentions_self (h : v ∈ n.written) : n.Mentions v := ⟨n, n.mem_nodes_self, h⟩

theorem mentions_of_child (hc : c ∈ n.children) (h : c.Mentions v) : n.Mentions v := by
  obtain ⟨m, hm, hv⟩ := h
  exact ⟨m, mem_nodes_of_child hc hm, hv⟩

theorem mem_written_of_reads (h : v ∈ n.reads) : v ∈ n.written :=
  List.mem_append_left _ (List.mem_append_left _ h)

theorem mem_written_of_allocated (h : v ∈ n.allocated) : v ∈ n.written :=
  List.mem_append_left _ (List.mem_append_right _ h)

theorem mem_written_of_parameters (h : v ∈ n.parameters) : v ∈ n.written := by
  refine List.mem_append_right _ ?_
  cases n with
  | function => exact h
  | _ => cases h

theorem mem_written_of_hosts (h : v ∈ n.hosts) : v ∈ n.written := by
  refine List.mem_append_right _ ?_
  cases n with
  | hostVar | className | methodCall | property => exact h
  | _ => cases h

end Written

/-! ### Nodes that are written as functions -/

/-- The node that is the body of the function that the node is written as, if it is written so. -/
def functionBody? (n : Node) : Option Node :=
  match n with
  | function _ _ _ body _ => some body
  | _ => if n.wrapped then some n.asResult else none

section Wrapped
variable {n : Node}

theorem use_of_wrapped (h : n.wrapped = true) : n.use = .value .expression := by
  cases n with
  | block stmts last i =>
    simp only [wrapped, Bool.and_eq_true, beq_iff_eq] at h
    exact congrArg Use.value h.1
  | bindings | loop =>
    simp only [wrapped, beq_iff_eq] at h
    exact congrArg Use.value h
  | _ => cases h

theorem reads_of_wrapped (h : n.wrapped = true) : n.reads = n.scope.vars := by
  have hreads : n.reads = if n.wrapped then n.scope.vars else [] := by
    cases n <;> first | rfl | cases h
  rw [hreads, if_pos h]

theorem entered_of_wrapped (h : n.wrapped = true) (vars : List Symbol) :
    n.entered vars = n.scope.vars := if_pos h

theorem entered_of_not_wrapped (h : n.wrapped = false) (vars : List Symbol) :
    n.entered vars = vars := by
  unfold entered
  rw [h]
  rfl

theorem use_asResult (h : n.wrapped = true) : n.asResult.use = .value .result := by
  cases n <;> first | rfl | cases h

theorem wrapped_asResult (n : Node) : n.asResult.wrapped = false := by
  cases n <;> rfl

theorem places_asResult (h : n.wrapped = true) : n.asResult.places = n.places := by
  cases n with
  | block stmts last i =>
    simp only [wrapped, Bool.and_eq_true, beq_iff_eq, Bool.not_eq_true'] at h
    simp [asResult, places, h, Context.tail]
  | bindings bs body i =>
    simp only [wrapped, beq_iff_eq] at h
    simp [asResult, places, h, Context.tail]
  | loop => rfl
  | _ => cases h

theorem parts_asResult (h : n.wrapped = true) (vars : List Symbol) :
    n.asResult.parts (n.entered vars) = n.parts vars := by
  have hentered := entered_of_not_wrapped n.wrapped_asResult (n.entered vars)
  cases n with
  | block stmts last i => exact congrArg (fun ws => (stmts ++ [last]).map fun c => (ws, c)) hentered
  | bindings bs body i => exact congrArg (fun ws => bindingParts ws bs body) hentered
  | loop value key coll body i =>
    exact congrArg (fun ws => [(ws, coll), (key.toList ++ value :: ws, body)]) hentered
  | _ => cases h

end Wrapped

end Node

namespace Php

/-- The grammar admits what a node reads, sets and spells out by itself, where some variables are at
hand. -/
structure Grammar.Admits (g : Grammar) (vars : List Symbol) (n : Node) : Prop where
  reads : ∀ v ∈ n.reads, g.reads vars v
  sets : ∀ v ∈ n.allocated, g.binds v
  parameters : ∀ v ∈ n.parameters, g.binds v
  hosts : ∀ v ∈ n.hosts, g.word v.name

theorem Grammar.Admits.asResult {g : Grammar} {vars ws : List Symbol} {n : Node}
    (h : g.Admits vars n) (hn : n.wrapped = true) : g.Admits ws n.asResult := by
  cases n with
  | block | bindings | loop => exact ⟨nofun, h.sets, nofun, nofun⟩
  | _ => cases hn

/-! ### Nodes -/

/-- A text that a node may have that is used in this way. -/
def Fitting (g : Grammar) (vars : List Symbol) (u : Node.Use) (t : String) : Prop :=
  Shaped g vars u.context t ∧ (u = .value .expression → t ≠ "")

/-- The parts of a node have texts that fit the use that it makes of them, with the variables at hand
where they stand. -/
def PartsFit (config : Config) (g : Grammar) (vars : List Symbol) (n : Node) : Prop :=
  ∀ u c ws, (u, c) ∈ n.places → (ws, c) ∈ n.parts vars → ∀ d, Fitting g ws u (code config c d)

section Nodes
variable {config : Config} {g : Grammar} {vars : List Symbol} {n : Node} {d : Nat}

theorem fitting_of_ne {context : Context} {t : String} (hcontext : context ≠ .expression)
    (h : Shaped g vars context t) : Fitting g vars (.value context) t := by
  refine ⟨h, fun heq => ?_⟩
  cases heq
  exact absurd rfl hcontext

theorem tail_of_ne {context : Context} (h : context ≠ .expression) : context.tail = context := by
  cases context with
  | expression => exact absurd rfl h
  | statement | result => rfl

theorem shaped_codes {u : Node.Use} {ns : List Node}
    (h : ∀ n ∈ ns, ∀ d, Fitting g vars u (code config n d)) :
    ∀ t ∈ codes config ns d, Shaped g vars u.context t := by
  rw [codes_eq]
  exact List.forall_mem_map.2 fun n hn => (h n hn d).1

/-- All parts of a construct that binds nothing and takes them as operands. -/
theorem PartsFit.operands (h : PartsFit config g vars n) (hwrapped : n.wrapped = false)
    (hplaces : n.places = n.children.map (.value .expression, ·))
    (hparts : n.parts vars = n.children.map fun c => (n.entered vars, c)) :
    ∀ c ∈ n.children, ∀ d, Fitting g vars (.value .expression) (code config c d) := by
  intro c hc
  rw [Node.entered_of_not_wrapped hwrapped] at hparts
  refine h _ c vars ?_ ?_
  · rw [hplaces]
    exact List.mem_map_of_mem hc
  · rw [hparts]
    exact List.mem_map_of_mem hc

theorem fitting_block {stmts : List Node} {last : Node} {i : Node.Info}
    (hwrapped : (Node.block stmts last i).wrapped = false)
    (hparts : PartsFit config g vars (.block stmts last i)) :
    Fitting g vars (.value i.scope.context) (code config (.block stmts last i) d) := by
  have hmem : ∀ c ∈ stmts ++ [last], (vars, c) ∈ (Node.block stmts last i).parts vars := by
    intro c hc
    show (vars, c) ∈ (stmts ++ [last]).map fun c => ((Node.block stmts last i).entered vars, c)
    rw [Node.entered_of_not_wrapped hwrapped]
    exact List.mem_map_of_mem hc
  have hstmts : ∀ c ∈ stmts, ∀ d, Fitting g vars (.value .statement) (code config c d) :=
    fun c hc => hparts _ c vars (List.mem_append_left _ (List.mem_map_of_mem hc))
      (hmem c (List.mem_append_left _ hc))
  have hlast := hparts _ last vars (List.mem_append_right _ (List.mem_singleton.2 rfl))
    (hmem last (List.mem_append_right _ (List.mem_singleton.2 rfl))) d
  have hcond : ¬ (i.scope.context = .expression ∧ !stmts.isEmpty) := by
    simpa [Node.wrapped] using hwrapped
  rw [code, if_neg hcond]
  cases stmts with
  | nil => simpa [codes] using hlast
  | cons stmt stmts =>
    have hcontext : i.scope.context ≠ .expression := fun h => hcond ⟨h, rfl⟩
    have hlast : Fitting g vars (.value i.scope.context.tail) (code config last d) := hlast
    rw [tail_of_ne hcontext] at hlast
    exact fitting_of_ne hcontext (shaped_join hcontext (shaped_codes hstmts) hlast.1)

theorem admits_hosts (h : n.Everywhere g.Admits vars) :
    ∀ c ∈ n.children, ∀ v ∈ c.hosts, g.word v.name := by
  intro c hc
  rw [← n.parts_snd vars] at hc
  obtain ⟨p, hp, rfl⟩ := List.mem_map.1 hc
  exact (h.part hp).self.hosts

section Constructs
variable (hg : g.Takes config)
include hg

theorem fitting_framed {context : Context} {t : String} (h : Shaped g vars .expression t)
    (ht : t ≠ "") : Fitting g vars (.value context) (framed config context d t) := by
  refine ⟨shaped_framed hg h ht, fun hcontext => ?_⟩
  cases hcontext
  exact ht

theorem fitting_literal (v : Form) (i : Node.Info) :
    Fitting g vars (.value i.scope.context) (code config (.literal v i) d) := by
  rw [code]
  split
  · next hcontext =>
    rw [hcontext]
    exact ⟨.nothing, fun heq => by cases heq⟩
  · exact fitting_framed hg (shaped_value hg v) (value_ne_empty v)

theorem fitting_branch {test yes no : Node} {i : Node.Info}
    (hparts : PartsFit config g vars (.branch test yes no i)) :
    Fitting g vars (.value i.scope.context) (code config (.branch test yes no i) d) := by
  have hmem : ∀ c ∈ [test, yes, no], (vars, c) ∈ (Node.branch test yes no i).parts vars :=
    fun c hc => List.mem_map_of_mem hc
  have htest : ∀ d, Fitting g vars (.value .expression) (code config test d) :=
    hparts _ test vars (by simp [Node.places]) (hmem test (by simp))
  have hyes : ∀ d, Fitting g vars (.value i.scope.context) (code config yes d) :=
    hparts _ yes vars (by simp [Node.places]) (hmem yes (by simp))
  have hno : ∀ d, Fitting g vars (.value i.scope.context) (code config no d) :=
    hparts _ no vars (by simp [Node.places]) (hmem no (by simp))
  rw [code]
  split
  · next hcontext =>
    rw [hcontext] at hyes hno ⊢
    refine ⟨(grouped_branch hg (htest d).1 (hyes d).1 (hno d).1).shaped, fun _ => ?_⟩
    simp [String.append_eq_empty_iff]
  · next hcontext =>
    exact fitting_of_ne hcontext
      (shaped_branch hg hcontext (shaped_truth hg (htest d).1) (hyes (d + 1)).1 (hno (d + 1)).1)

/-- Each binding is assigned to, and at hand in the values of the ones after it and in the body. -/
theorem shaped_assignments {context : Context} (hcontext : context ≠ .expression)
    {bs : List (Binding Node)} {body : Node} (hbinds : ∀ b ∈ bs, g.binds b.var)
    (hinits : ∀ b ∈ bs, ∀ ws, (ws, b.init) ∈ Node.bindingParts vars bs body →
      Shaped g ws .expression (code config b.init d))
    (hbody : ∀ ws, (ws, body) ∈ Node.bindingParts vars bs body →
      Shaped g ws context (code config body d)) :
    Shaped g vars context (assignments config bs d ++ code config body d) := by
  induction bs generalizing vars with
  | nil =>
    rw [assignments, String.empty_append]
    exact hbody vars (List.mem_singleton.2 rfl)
  | cons b bs ih =>
    obtain ⟨hb, hbs⟩ := List.forall_mem_cons.1 hbinds
    rw [assignments, String.append_assoc]
    apply shaped_assignment hg hcontext hb
    · exact hinits b List.mem_cons_self vars List.mem_cons_self
    · apply ih hbs
      · intro b' hb' ws hws
        exact hinits b' (List.mem_cons_of_mem _ hb') ws (List.mem_cons_of_mem _ hws)
      · intro ws hws
        exact hbody ws (List.mem_cons_of_mem _ hws)

theorem fitting_bindings {bs : List (Binding Node)} {body : Node} {i : Node.Info}
    (hwrapped : (Node.bindings bs body i).wrapped = false)
    (hadmits : g.Admits vars (.bindings bs body i))
    (hparts : PartsFit config g vars (.bindings bs body i)) :
    Fitting g vars (.value i.scope.context) (code config (.bindings bs body i) d) := by
  have hcontext : i.scope.context ≠ .expression := by simpa [Node.wrapped] using hwrapped
  have hentered : (Node.bindings bs body i).parts vars = Node.bindingParts vars bs body := by
    show Node.bindingParts ((Node.bindings bs body i).entered vars) bs body = _
    rw [Node.entered_of_not_wrapped hwrapped]
  have hbinds : ∀ b ∈ bs, g.binds b.var := fun b hb => hadmits.sets b.var (List.mem_map_of_mem hb)
  rw [code, if_neg hcontext]
  refine fitting_of_ne hcontext (shaped_assignments hg hcontext hbinds ?_ ?_)
  · intro b hb ws hws
    have hplace : (Node.Use.value .expression, b.init) ∈ (Node.bindings bs body i).places := by
      refine List.mem_append_left _ ?_
      exact List.mem_map_of_mem (f := fun b => (Node.Use.value .expression, b.init)) hb
    exact (hparts _ _ ws hplace (hentered ▸ hws) d).1
  · intro ws hws
    have hbody := hparts _ body ws (List.mem_append_right _ (List.mem_singleton.2 rfl))
      (hentered ▸ hws) d
    rw [tail_of_ne hcontext] at hbody
    exact hbody.1

theorem fitting_loop {v : Symbol} {key : Option Symbol} {coll body : Node} {i : Node.Info}
    (hwrapped : (Node.loop v key coll body i).wrapped = false)
    (hadmits : g.Admits vars (.loop v key coll body i))
    (hparts : PartsFit config g vars (.loop v key coll body i)) :
    Fitting g vars (.value i.scope.context) (code config (.loop v key coll body i) d) := by
  have hentered : (Node.loop v key coll body i).parts vars =
      [(vars, coll), (key.toList ++ v :: vars, body)] := by
    show [((Node.loop v key coll body i).entered vars, coll),
      (key.toList ++ v :: (Node.loop v key coll body i).entered vars, body)] = _
    rw [Node.entered_of_not_wrapped hwrapped]
  have hcoll : ∀ d, Fitting g vars (.value .expression) (code config coll d) :=
    hparts _ coll vars List.mem_cons_self (by simp [hentered])
  have hbody : ∀ d, Fitting g (key.toList ++ v :: vars) (.value .statement) (code config body d) :=
    hparts _ body _ (List.mem_cons_of_mem _ (List.mem_singleton.2 rfl)) (by simp [hentered])
  have hbinds : ∀ w ∈ key.toList ++ [v], g.binds w := by
    intro w hw
    refine hadmits.sets w ?_
    rcases List.mem_append.1 hw with hw | hw
    · exact List.mem_cons_of_mem _ hw
    · exact List.mem_singleton.1 hw ▸ List.mem_cons_self
  have hloop := shaped_loop (d := d) hg hbinds (hcoll d).1 (hbody (d + 1)).1
  rw [code]
  split
  · next hcontext =>
    rw [hcontext]
    exact fitting_of_ne (by decide) hloop
  · next hcontext =>
    rw [hcontext]
    exact fitting_of_ne (by decide) (.follow (by decide) hloop (shaped_returnNull hg))
  · next hcontext => simp [Node.wrapped, hcontext] at hwrapped

theorem fitting_throw {x : Node} (hx : Fitting g vars (.value .expression) (code config x d))
    (i : Node.Info) : Fitting g vars (.value i.scope.context) (code config (.throw x i) d) := by
  obtain ⟨hx, hne⟩ := hx
  rw [code]
  split
  · next hcontext =>
    rw [hcontext]
    refine ⟨(grouped_throw hx).shaped, fun _ => ?_⟩
    simp [String.append_eq_empty_iff]
  · next hcontext => exact fitting_of_ne hcontext (shaped_throw hg hcontext hx (hne rfl))

/-- A node that is not wrapped has the shape of its context, if its parts have the shapes of the
contexts that it uses them in. -/
theorem fitting_of_parts (hwrapped : n.wrapped = false) (hadmits : g.Admits vars n)
    (hwords : ∀ c ∈ n.children, ∀ v ∈ c.hosts, g.word v.name) (hparts : PartsFit config g vars n)
    (d : Nat) : Fitting g vars n.use (code config n d) := by
  have hoperands := hparts.operands hwrapped
  cases n with
  | literal v i => exact fitting_literal hg v i
  | localVar v i =>
    refine fitting_framed hg (.read (hadmits.reads v List.mem_cons_self)) ?_
    show "$" ++ munge v.name ≠ ""
    simp [String.append_eq_empty_iff]
  | globalVar home name i =>
    refine fitting_framed hg (shaped_globalPlace home name) ?_
    rw [globalPlace_eq]
    simp [String.append_eq_empty_iff]
  | hostVar name i => exact fitting_framed hg (shaped_hostValue _) (hostValue_ne_empty _)
  | className name i =>
    refine fitting_framed hg (.append (.word (hadmits.hosts name List.mem_cons_self))
      (.inert (by decide))) ?_
    simp [String.append_eq_empty_iff]
  | call callee args i =>
    obtain ⟨hcallee, hargs⟩ := List.forall_mem_cons.1 (hoperands rfl rfl)
    refine fitting_framed hg (shaped_application ?_ (hcallee d).1 (shaped_codes hargs))
      (application_ne_empty _ _ _)
    rintro name j rfl
    exact hwords _ List.mem_cons_self name List.mem_cons_self
  | block stmts last i => exact fitting_block hwrapped hparts
  | branch test yes no i => exact fitting_branch hg hparts
  | bindings bs body i => exact fitting_bindings hg hwrapped hadmits hparts
  | function params variadic uses body i =>
    have hbody : Fitting g (params ++ uses) (.value .result) (code config body (d + 1)) :=
      hparts _ body _ (List.mem_singleton.2 rfl) (List.mem_singleton.2 rfl) (d + 1)
    rw [code]
    refine fitting_framed hg (shaped_function hg hadmits.parameters hadmits.reads hbody.1 _ _) ?_
    simp [String.append_eq_empty_iff]
  | definition home name init i =>
    have hinit := (List.forall_mem_singleton.1 (hoperands rfl rfl) d).1
    refine fitting_framed hg (.append (.append (shaped_globalPlace home name) (.inert (by decide)))
      hinit) ?_
    simp [String.append_eq_empty_iff]
  | loop v key coll body i => exact fitting_loop hg hwrapped hadmits hparts
  | throw x i => exact fitting_throw hg (hoperands rfl rfl x List.mem_cons_self d) i
  | table items i | array items i | set items i | tuple items i =>
    exact fitting_framed hg
      (shaped_construct hg (by decide) (by decide) (shaped_codes (hoperands rfl rfl)))
      (construct_ne_empty _ _ _)
  | new cls args i =>
    obtain ⟨hcls, hargs⟩ := List.forall_mem_cons.1 (hoperands rfl rfl)
    refine fitting_framed hg (shaped_args (.append (.inert (by decide)) (shaped_target ?_ (hcls d).1))
      (shaped_codes hargs)) ?_
    · rintro name j rfl
      exact hwords _ List.mem_cons_self name List.mem_cons_self
    · simp [String.append_eq_empty_iff]
  | member object part static method i =>
    have hobject : ∀ d, Fitting g vars (.value .expression) (code config object d) :=
      hparts _ object vars List.mem_cons_self List.mem_cons_self
    have hpart : ∀ d, Fitting g vars .part (code config part d) :=
      hparts _ part vars (List.mem_cons_of_mem _ (List.mem_singleton.2 rfl))
        (List.mem_cons_of_mem _ (List.mem_singleton.2 rfl))
    have harrow : ∀ static : Bool, Inert (if static then "::" else "->") := by decide
    refine fitting_framed hg (.append (.append (shaped_target ?_ (hobject d).1)
      (.inert (harrow static))) (hpart d).1) ?_
    · rintro name j rfl
      exact hwords _ List.mem_cons_self name List.mem_cons_self
    · cases static <;> simp [String.append_eq_empty_iff]
  | methodCall name args i =>
    have hname := hadmits.hosts name List.mem_cons_self
    exact ⟨shaped_args (.word hname) (shaped_codes (hoperands rfl rfl)), fun heq => by cases heq⟩
  | property name i =>
    exact ⟨.word (hadmits.hosts name List.mem_cons_self), fun heq => by cases heq⟩
  | arrayGet a index i =>
    obtain ⟨ha, hindex⟩ := List.forall_mem_cons.1 (hoperands rfl rfl)
    refine fitting_framed hg
      (shaped_subscript (ha d).1 (List.forall_mem_singleton.1 hindex d).1) ?_
    rw [subscript_eq]
    simp [String.append_eq_empty_iff]
  | arraySet a index v i =>
    obtain ⟨ha, hoperands⟩ := List.forall_mem_cons.1 (hoperands rfl rfl)
    obtain ⟨hindex, hv⟩ := List.forall_mem_cons.1 hoperands
    refine fitting_framed hg (.append (.append (shaped_subscript (ha d).1 (hindex d).1)
      (.inert (by decide))) (List.forall_mem_singleton.1 hv d).1) ?_
    rw [subscript_eq]
    simp [String.append_eq_empty_iff]

/-- Likewise the body of the function that a wrapped node is written as. -/
theorem shaped_asResult (hwrapped : n.wrapped = true) (hadmits : g.Admits vars n)
    (hwords : ∀ c ∈ n.children, ∀ v ∈ c.hosts, g.word v.name) (hparts : PartsFit config g vars n)
    (d : Nat) : Shaped g n.scope.vars .result (code config n.asResult d) := by
  have hchildren : n.asResult.children = n.children := by
    cases n <;> rfl
  have hfit : PartsFit config g n.scope.vars n.asResult := by
    intro u c ws hplace hpart
    rw [Node.places_asResult hwrapped] at hplace
    rw [← Node.entered_of_wrapped hwrapped vars, Node.parts_asResult hwrapped] at hpart
    exact hparts u c ws hplace hpart
  have hresult := fitting_of_parts hg (Node.wrapped_asResult n) (hadmits.asResult hwrapped)
    (hchildren ▸ hwords) hfit d
  rw [Node.use_asResult hwrapped] at hresult
  exact hresult.1

/-- **The code of a node has the shape of its context,** with the variables at hand that are at hand
around the node. -/
theorem fitting_code {u : Node.Use} (h : n.Sits u) (hadmits : n.Everywhere g.Admits vars) (d : Nat) :
    Fitting g vars u (code config n d) := by
  induction n using Node.ind generalizing u vars d with
  | h n ih =>
    have hparts : PartsFit config g vars n := by
      intro u c ws hplace hpart d
      exact ih c (Node.mem_children_of_places hplace) (h.part hplace) (hadmits.part hpart) d
    have hwords := admits_hosts hadmits
    cases hwrapped : n.wrapped with
    | false =>
      rw [← h.1]
      exact fitting_of_parts hg hwrapped hadmits.self hwords hparts d
    | true =>
      have huse : u = .value .expression := by rw [← h.1, Node.use_of_wrapped hwrapped]
      have hvars : ∀ v ∈ n.scope.vars, g.reads vars v := by
        rw [← Node.reads_of_wrapped hwrapped]
        exact hadmits.self.reads
      rw [huse, code_of_wrapped config hwrapped]
      refine ⟨shaped_closure hg hvars
        (shaped_asResult hg hwrapped hadmits.self hwords hparts (d + 1)) d, fun _ => ?_⟩
      rw [closure_eq]
      simp [String.append_eq_empty_iff]

end Constructs

/-! ### Functions -/

theorem framed_around (config : Config) (context : Context) (d : Nat) :
    ∃ before after, ∀ t, framed config context d t = before ++ t ++ after := by
  cases context with
  | expression => exact ⟨"", "", fun t => by simp [framed]⟩
  | statement => exact ⟨margin config d, ";\n", fun _ => rfl⟩
  | result => exact ⟨margin config d ++ "return ", ";\n", fun _ => rfl⟩

/-- The code of a function stands around the code of its body, and its header has the parameters of the
node and takes over what the node reads. -/
theorem code_around_body (config : Config) {body : Node} (h : n.functionBody? = some body) (d : Nat) :
    ∃ before gap header after, (gap = "" ∨ gap = " ") ∧ Header n.parameters n.reads header ∧
      code config n d = before ++ "function" ++ gap ++ header ++ " \x7b\n"
        ++ code config body (d + 1) ++ margin config d ++ "\x7d" ++ after := by
  cases n with
  | function params variadic uses body' i =>
    cases h
    obtain ⟨before, after, hframed⟩ := framed_around config i.scope.context d
    refine ⟨before, " ", _, after, .inr rfl, header variadic params uses, ?_⟩
    rw [code, hframed, show "function (" = "function" ++ " " ++ "(" from rfl]
    simp only [String.append_assoc]
  | block | bindings | loop =>
    simp only [Node.functionBody?, Option.ite_none_right_eq_some] at h
    obtain ⟨hwrapped, hbody⟩ := h
    cases hbody
    refine ⟨"(", "", _, ")()", .inl rfl, header false [] _, ?_⟩
    rw [Node.reads_of_wrapped hwrapped, code_of_wrapped config hwrapped, closure_eq,
      show " \x7b\n" = " " ++ "\x7b\n" from rfl, show ")()" = ")" ++ ("(" ++ "" ++ ")") from rfl]
    simp only [String.append_assoc]
  | _ => cases h

/-- The body of a function has the shape of a result, with the parameters and what is taken over at
hand. -/
theorem shaped_functionBody (hg : g.Takes config) {u : Node.Use} (h : n.Sits u)
    (hadmits : n.Everywhere g.Admits vars) {body : Node} (hbody : n.functionBody? = some body)
    (d : Nat) : Shaped g (n.parameters ++ n.reads) .result (code config body d) := by
  have hparts : PartsFit config g vars n := fun u c ws hplace hpart d =>
    fitting_code hg (h.part hplace) (hadmits.part hpart) d
  cases n with
  | function params variadic uses body' i =>
    cases hbody
    exact (hparts _ body (params ++ uses) (List.mem_singleton.2 rfl) (List.mem_singleton.2 rfl) d).1
  | block | bindings | loop =>
    simp only [Node.functionBody?, Option.ite_none_right_eq_some] at hbody
    obtain ⟨hwrapped, heq⟩ := hbody
    cases heq
    rw [Node.reads_of_wrapped hwrapped]
    exact shaped_asResult hg hwrapped hadmits.self (admits_hosts hadmits) hparts d
  | _ => cases hbody

/-! ### Plain names -/

theorem takes_plain {blank : String → Prop} (hruntime : Plain config.runtime)
    (hmargin : ∀ d, blank (margin config d)) : (Grammar.plain blank).Takes config where
  runtime := hruntime
  margin := hmargin

theorem admits_plain {blank : String → Prop} (h : ∀ m ∈ n.nodes, ∀ v ∈ m.written, Plain v.name)
    (vars : List Symbol) : n.Everywhere (Grammar.plain blank).Admits vars := by
  apply Node.everywhere_of_forall
  intro m hm vars
  exact ⟨fun v hv => h m hm v (Node.mem_written_of_reads hv),
    fun v hv => h m hm v (Node.mem_written_of_allocated hv),
    fun v hv => h m hm v (Node.mem_written_of_parameters hv),
    fun v hv => h m hm v (Node.mem_written_of_hosts hv)⟩

end Nodes

/-! ### Programs of one node -/

/-- What stands before the code of a program of one node. -/
def preface (config : Config) (n : Node) : String :=
  (if config.openTag then "<?php\n" else "") ++
    match config.locationComments, n.location with
    | true, some l => "// " ++ l.text ++ "\n"
    | _, _ => ""

theorem program_singleton (config : Config) (n : Node) :
    program config [n] = preface config n ++ code config n 0 := by
  unfold program preface
  rw [String.append_assoc]
  congr 1
  rw [List.map_singleton, String.join_cons, String.join_nil, String.append_empty, root]
  generalize config.locationComments = wanted, n.location = location
  cases wanted with
  | false => exact String.empty_append.symm
  | true =>
    cases location with
    | none => exact String.empty_append.symm
    | some l => rfl

end Php

end LarkPhp
