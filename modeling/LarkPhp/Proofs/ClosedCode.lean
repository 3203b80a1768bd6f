import LarkPhp.Proofs.CodeShape

/-!
Variables in code.

The code of a unit is closed: it has the shape of its nodes also in the grammar in which a variable may
be read only where it is at hand in the function around it (`Grammar.closed`).  There a parameter is
at hand in the body of its function, what a header takes over is at hand in the body if it is at hand
around the function, and what an assignment or the head of a loop sets is at hand in the statements
that these are for.
-/

namespace LarkPhp

namespace Php

/-- The grammar of code in which variables are read only where they are at hand.  Words are the
namespace of the runtime and the names of the host in a tree of nodes. -/
def Grammar.closed (config : Config) (root : Node) : Grammar where
  blank t := ∃ d, t = margin config d
  word t := t = config.runtime ∨ ∃ n ∈ root.nodes, ∃ v ∈ n.hosts, t = v.name
  binds _ := True
  reads vars v := v ∈ vars

theorem takes_closed (config : Config) (root : Node) : (Grammar.closed config root).Takes config where
  runtime := .inl rfl
  margin d := ⟨d, rfl⟩

/-- **The code of a node whose parts read only what is at hand is closed.** -/
theorem shaped_closed (config : Config) {u : Node.Use} {n : Node} (h : n.Sits u)
    (hdefined : n.Everywhere Node.Defined []) (d : Nat) :
    Shaped (.closed config n) [] u.context (code config n d) := by
  have hadmits : n.Everywhere (Grammar.closed config n).Admits [] := by
    apply hdefined.imp_of_mem
    intro m hm vars hreads
    exact ⟨hreads, fun _ _ => trivial, fun _ _ => trivial, fun v hv => .inr ⟨m, hm, v, hv, rfl⟩⟩
  exact (fitting_code (takes_closed config n) h hadmits d).1

end Php

namespace Analysis

open Php

/-- **Every variable is defined where it is read.**  In the nodes of a unit whose scope binds nothing,
each local variable is at hand in the function around it: as a parameter, taken over, assigned by an
earlier binding of a `let` around it, or set by the header of a loop around it.  The same holds of each
variable that is taken over into a function, where the function is made, and the header of the function
in the code has the parameters of the node and takes over just these variables.  So the code of a unit
is closed: no variable stands in it where it is not at hand in the function of the host around it. -/
theorem unit_defined {forms : List Form} {scope : Scope} {s s' : State} {nodes : List Node}
    (hlocals : scope.locals = []) (hshadows : scope.shadows = [])
    (h : unit forms scope s = .ok nodes s') :
    ∀ root ∈ nodes, root.Everywhere Node.Defined [] ∧ ∀ config d,
      Shaped (.closed config root) [] scope.context (code config root d) ∧
      ∀ n ∈ root.nodes, ∀ body, n.functionBody? = some body →
        ∃ before gap header after, (gap = "" ∨ gap = " ") ∧ Header n.parameters n.reads header ∧
          code config n d = before ++ "function" ++ gap ++ header ++ " \x7b\n"
            ++ code config body (d + 1) ++ margin config d ++ "\x7d" ++ after := by
  intro root hroot
  have hdefined := defined_unit hlocals hshadows h root hroot
  refine ⟨hdefined, fun config d => ⟨shaped_closed config (sits_unit h root hroot) hdefined d, ?_⟩⟩
  intro n _ body hbody
  exact code_around_body config hbody d

/-- A block that is called on the spot takes over five variables, one of a name bound again among
them. -/
theorem unit_defined_rebinding :
    Scope.empty.locals = [] ∧ Scope.empty.shadows = [] ∧
      ∃ nodes s, unit [rebindingForm] .empty (.start default 0) = .ok nodes s ∧
        nodes.length = 1 ∧ ∀ root ∈ nodes, root.Everywhere Node.Defined [] ∧
          Shaped (.closed .standard root) [] .statement (code .standard root 0) ∧
          ∃ n ∈ root.nodes, ∃ body, n.wrapped = true ∧ n.reads.length = 5 ∧
            n.functionBody? = some body ∧
            ∃ before gap header after, (gap = "" ∨ gap = " ") ∧ Header n.parameters n.reads header ∧
              code .standard n 0 = before ++ "function" ++ gap ++ header ++ " \x7b\n"
                ++ code .standard body 1 ++ margin .standard 0 ++ "\x7d" ++ after := by
  refine ⟨rfl, rfl, ?_⟩
  have hfound : ((unit [rebindingForm] .empty).run' (.start default 0)).any (fun nodes =>
      decide (nodes.length = 1 ∧ ∀ root ∈ nodes, ∃ n ∈ root.nodes,
        n.wrapped = true ∧ n.reads.length = 5 ∧ n.functionBody?.isSome)) = true := by
    decide +kernel
  obtain ⟨nodes, s, hrun, hfound⟩ := exists_ok_of_any hfound
  obtain ⟨hlength, hall⟩ := of_decide_eq_true hfound
  refine ⟨nodes, s, hrun, hlength, fun root hroot => ?_⟩
  obtain ⟨hdefined, hcode⟩ := unit_defined rfl rfl hrun root hroot
  obtain ⟨hshaped, hheaders⟩ := hcode .standard 0
  obtain ⟨n, hn, hwrapped, hreads, hsome⟩ := hall root hroot
  obtain ⟨body, hbody⟩ := Option.isSome_iff_exists.1 hsome
  exact ⟨hdefined, hshaped, n, hn, body, hwrapped, hreads, hbody, hheaders n hn body hbody⟩

end Analysis

end LarkPhp
