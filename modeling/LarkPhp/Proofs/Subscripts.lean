import LarkPhp.Proofs.Depth
import LarkPhp.Proofs.Increment

/-!
Assignments to parts of arrays.

The host lets a program assign to a variable, and to a part of something that can be assigned to
(`Php.Place`).  Parentheses around such a thing would make a value of it, so code has none there:
a part of a variable at any depth is written as the variable with its subscripts behind it, and any
other array with parentheses around it.
-/

namespace LarkPhp

/-! ### What can be assigned to -/

namespace Php

/-- A local variable or a definition. -/
inductive Variable : Node → Prop
  | localVar {var i} : Variable (.localVar var i)
  | globalVar {home name i} : Variable (.globalVar home name i)

/-- A variable, or a part of one at any depth. -/
inductive Place : Node → Prop
  | named {n} : Variable n → Place n
  | part {array index i} : Place array → Place (.arrayGet array index i)

theorem assignable_iff {n : Node} : assignable n = true ↔ Place n := by
  constructor
  · induction n using Node.ind with
    | h n ih =>
      intro h
      cases n with
      | localVar => exact .named .localVar
      | globalVar => exact .named .globalVar
      | arrayGet array index i => exact .part (ih array (by simp [Node.children]) h)
      | _ => cases h
  · intro h
    induction h with
    | named h => cases h <;> rfl
    | part _ ih => exact ih

/-- A subscript of what can be assigned to follows it directly. -/
theorem subscript_of_place {array : Node} (h : Place array) (text index : String) :
    subscript array text index = text ++ "[" ++ index ++ "]" := by
  unfold subscript
  rw [if_pos (assignable_iff.2 h)]

theorem subscript_of_not_place {array : Node} (h : ¬ Place array) (text index : String) :
    subscript array text index = "(" ++ text ++ ")[" ++ index ++ "]" := by
  unfold subscript
  rw [if_neg fun hassignable => h (assignable_iff.1 hassignable)]
  simp only [String.append_assoc]
  rfl

/-- Nodes that are alike up to their numbers have the same code, at every depth. -/
theorem code_eq_of_alike {n m : Node} (h : Analysis.Alike n m) (config : Config) (depth : Nat) :
    code config m depth = code config n depth := by
  have hcode : ∀ n, code config n.unnumbered depth = code config n depth :=
    fun n => code_mapInfo (f := Node.Info.unnumbered) (fun _ => rfl) config n depth
  rw [← hcode m, ← h, hcode n]

end Php

namespace Analysis

/-! ### Runs behind a subscript -/

/-- The form `(php/aget ... (php/aget base i₁) ... iₙ)`, wherever its parts stand in the source. -/
inductive Subscripts (base : Form) : List Form → Form → Prop
  | nil : Subscripts base [] base
  | get {indices array} (index : Form) (p q : Option Span) :
    Subscripts base indices array →
    Subscripts base (indices ++ [index])
      (.tuple .paren [.symbol SpecialForm.arrayGet.symbol p, array, index] q)

section Runs
variable {scope : Scope} {s₀ t₀ s s₁ s₂ s₃ t : State} {f array index value : Form}
  {n a i v : Node} {p q : Option Span}

theorem form_arrayGet_ok (ha : form array scope.operand s = .ok a s₁)
    (hi : form index scope.operand s₁ = .ok i s₂) :
    form (.tuple .paren [.symbol SpecialForm.arrayGet.symbol p, array, index] q) scope s =
      .ok (.arrayGet a i (s₂.info scope q)) s₂.numbered := by
  have hname : SpecialForm.ofSymbol? SpecialForm.arrayGet.symbol = some .arrayGet := by
    decide +kernel
  obtain ⟨reenter, hform⟩ := exists_form_eq
  rw [hform]
  simp only [step, parens, Form.symbol?, Option.bind_some, hname, special, located,
    bind_run_ok ha, bind_run_ok hi]
  rfl

theorem form_arraySet_ok (ha : form array scope.operand s = .ok a s₁)
    (hi : form index scope.operand s₁ = .ok i s₂) (hv : form value scope.operand s₂ = .ok v s₃) :
    form (.tuple .paren [.symbol SpecialForm.arraySet.symbol p, array, index, value] q) scope s =
      .ok (.arraySet a i v (s₃.info scope q)) s₃.numbered := by
  have hname : SpecialForm.ofSymbol? SpecialForm.arraySet.symbol = some .arraySet := by
    decide +kernel
  obtain ⟨reenter, hform⟩ := exists_form_eq
  rw [hform]
  simp only [step, parens, Form.symbol?, Option.bind_some, hname, special, located,
    bind_run_ok ha, bind_run_ok hi, bind_run_ok hv]
  rfl

/-- The numbers of nodes that were made before do not matter. -/
theorem form_ok_since (hf : form f scope s = .ok n s₁) (hst : SameSince s₀ t₀ s t) :
    ∃ m t₁, form f scope t = .ok m t₁ ∧ Alike n m ∧ SameSince s₀ t₀ s₁ t₁ := by
  have hagree := (simulation_sameSince s₀ t₀).form scope f s t hst
  rw [hf] at hagree
  generalize form f scope t = r at hagree ⊢
  cases hagree with
  | ok hnm hst₁ => exact ⟨_, _, rfl, hnm, hst₁⟩

theorem all_cons_eq_ok {visit : Visit} {fs : List Form} {ns : List Node} :
    all visit (f :: fs) scope s = .ok ns s₂ ↔
      ∃ n s₁ ms, visit f scope s = .ok n s₁ ∧ all visit fs scope s₁ = .ok ms s₂ ∧ ns = n :: ms := by
  constructor
  · intro h
    obtain ⟨n, s₁, hn, h⟩ := bind_eq_ok.1 h
    obtain ⟨ms, s₃, hms, h⟩ := bind_eq_ok.1 h
    cases h
    exact ⟨n, s₁, ms, hn, hms, rfl⟩
  · rintro ⟨n, s₁, ms, hn, hms, rfl⟩
    exact bind_eq_ok.2 ⟨n, s₁, hn, bind_eq_ok.2 ⟨ms, s₂, hms, rfl⟩⟩

theorem SameSince.numbered (h : SameSince s₀ t₀ s t) : SameSince s₀ t₀ s t.numbered :=
  ⟨h.globals, h.drawn, h.warnings, h.added⟩

/-- **A part of a variable is written as the variable with its subscripts.**  The forms of the
variable and of the indices are analyzed in order, as they are on their own. -/
theorem form_subscripts {base : Form} {indices : List Form} (hsub : Subscripts base indices array)
    {is : List Node} (hrun : all form (base :: indices) scope.operand s = .ok (a :: is) s₁)
    (ha : Php.Place a) :
    ∃ n t, form array scope.operand s = .ok n t ∧ SameSince s s s₁ t ∧ Php.Place n ∧
      ∀ config depth, Php.code config n depth = Php.code config a depth ++
        String.join (is.map fun i => "[" ++ Php.code config i depth ++ "]") := by
  induction hsub generalizing is s₁ with
  | nil =>
    obtain ⟨n, _, _, hn, hrest, hsplit⟩ := all_cons_eq_ok.1 hrun
    cases hrest
    cases hsplit
    have hstart : SameSince s s s s := .refl rfl rfl
    obtain ⟨m, t, hm, -, hsince⟩ := form_ok_since hn hstart
    cases hn.symm.trans hm
    exact ⟨a, s₁, hn, hsince, ha, fun config depth => by simp⟩
  | @get indices array index p q _ ih =>
    rw [← List.cons_append] at hrun
    obtain ⟨ns, s₁, ms, hfront, hlast, hsplit⟩ := all_append_eq_ok.1 hrun
    obtain ⟨i, _, _, hi, hnone, rfl⟩ := all_cons_eq_ok.1 hlast
    cases hnone
    obtain ⟨_, _, js, -, -, rfl⟩ := all_cons_eq_ok.1 hfront
    obtain ⟨rfl, rfl⟩ := List.cons.inj hsplit
    obtain ⟨n, t, hn, hsince, hplace, hcode⟩ := ih hfront
    -- the index is analyzed behind the nodes of the subscripts before it
    obtain ⟨m, t₁, hm, him, hsince⟩ := form_ok_since hi hsince
    refine ⟨_, _, form_arrayGet_ok hn hm, hsince.numbered, .part hplace, fun config depth => ?_⟩
    show Php.subscript n (Php.code config n depth) (Php.code config m depth) = _
    rw [Php.subscript_of_place hplace, hcode, Php.code_eq_of_alike him]
    simp [String.append_assoc, String.join_append]

end Runs

/-- **Assignments to parts of variables are written without parentheses.**  If an array is a variable
with subscripts, any number of them, then an assignment to a part of it is the variable, the
subscripts, the last index and the value, as they are written on their own.  If an array is neither
a variable nor a part of one, it is written in parentheses. -/
theorem code_arraySet (scope : Scope) (s s' : State) (index value : Form) (p q : Option Span) :
    (∀ (base : Form) (indices : List Form) (array : Form) (a : Node) (is : List Node) (i v : Node),
      Subscripts base indices array →
      all form (base :: (indices ++ [index, value])) scope.operand s =
        .ok (a :: (is ++ [i, v])) s' →
      Php.Variable a →
      ∃ n t,
        form (.tuple .paren [.symbol SpecialForm.arraySet.symbol p, array, index, value] q)
          scope.operand s = .ok n t ∧
        ∀ config depth, Php.code config n depth =
          Php.code config a depth ++
            String.join (is.map fun i => "[" ++ Php.code config i depth ++ "]") ++
            "[" ++ Php.code config i depth ++ "] = " ++ Php.code config v depth) ∧
    ∀ (array : Form) (b i v : Node),
      all form [array, index, value] scope.operand s = .ok [b, i, v] s' → ¬ Php.Place b →
      ∃ n t,
        form (.tuple .paren [.symbol SpecialForm.arraySet.symbol p, array, index, value] q)
          scope.operand s = .ok n t ∧
        ∀ config depth, Php.code config n depth =
          "(" ++ Php.code config b depth ++ ")[" ++ Php.code config i depth ++ "] = " ++
            Php.code config v depth := by
  constructor
  · intro base indices array a is i v hsub hrun hvariable
    rw [← List.cons_append] at hrun
    obtain ⟨ns, s₁, ms, hfront, hrest, hsplit⟩ := all_append_eq_ok.1 hrun
    obtain ⟨_, s₂, _, hi, hlast, rfl⟩ := all_cons_eq_ok.1 hrest
    obtain ⟨_, _, _, hv, hnone, rfl⟩ := all_cons_eq_ok.1 hlast
    cases hnone
    obtain ⟨_, _, js, -, -, rfl⟩ := all_cons_eq_ok.1 hfront
    obtain ⟨rfl, htail⟩ := List.cons.inj hsplit
    obtain ⟨rfl, hpair⟩ := List.append_inj' htail rfl
    cases hpair
    obtain ⟨n, t, hn, hsince, hplace, hcode⟩ := form_subscripts hsub hfront (.named hvariable)
    obtain ⟨i', t₁, hi', hii, hsince⟩ := form_ok_since hi hsince
    obtain ⟨v', t₂, hv', hvv, -⟩ := form_ok_since hv hsince
    refine ⟨_, _, form_arraySet_ok hn hi' hv', fun config depth => ?_⟩
    show Php.subscript n (Php.code config n depth) (Php.code config i' depth) ++ " = " ++
      Php.code config v' depth = _
    rw [Php.subscript_of_place hplace, hcode, Php.code_eq_of_alike hii, Php.code_eq_of_alike hvv]
    simp only [String.append_assoc]
    rfl
  · intro array b i v hrun hplace
    obtain ⟨_, s₁, _, hb, hrest, hsplit⟩ := all_cons_eq_ok.1 hrun
    obtain ⟨_, s₂, _, hi, hlast, rfl⟩ := all_cons_eq_ok.1 hrest
    obtain ⟨_, _, _, hv, hnone, rfl⟩ := all_cons_eq_ok.1 hlast
    cases hnone
    cases hsplit
    refine ⟨_, _, form_arraySet_ok hb hi hv, fun config depth => ?_⟩
    show Php.subscript b (Php.code config b depth) (Php.code config i depth) ++ " = " ++
      Php.code config v depth = _
    rw [Php.subscript_of_not_place hplace]
    simp only [String.append_assoc]
    rfl

/-- The scope of a function with a parameter `a`. -/
def parameterScope : Scope := Scope.empty.bind [.plain "a"]

/-- The form `(php/aget a 1)`. -/
def partOfParameter : Form :=
  .parens [.symbol SpecialForm.arrayGet.symbol none, .name "a", .int 1]

/-- The form `(php/aget (php/aget a 0) (php/aget a 1))`. -/
def nestedPart : Form :=
  .parens [.symbol SpecialForm.arrayGet.symbol none,
    .parens [.symbol SpecialForm.arrayGet.symbol none, .name "a", .int 0], partOfParameter]

/-- Assignments to a part of `(php/aget (php/aget a 0) (php/aget a 1))` and to a part of `"s"`. -/
theorem code_arraySet_nestedPart :
    Subscripts (.name "a") [.int 0, partOfParameter] nestedPart ∧
    (∃ n t,
      form (.parens [.symbol SpecialForm.arraySet.symbol none, nestedPart, .int 2, .int 3])
        parameterScope.operand (.start default 0) = .ok n t ∧
      Php.code default n 0 = "$a[0][$a[1]][2] = 3") ∧
    ∃ n t,
      form (.parens [.symbol SpecialForm.arraySet.symbol none, .str "s", .int 2, .int 3])
        parameterScope.operand (.start default 0) = .ok n t ∧
      Php.code default n 0 = "(\"s\")[2] = 3" := by
  have hsub : Subscripts (.name "a") [.int 0, partOfParameter] nestedPart :=
    .get partOfParameter none none (.get (.int 0) none none .nil)
  have hstring : ∀ i, ¬ Php.Place (.literal (.str "s") i) := fun i h => by
    cases h with
    | named h => cases h
  have hassign := fun s' => code_arraySet parameterScope (.start default 0) s' (.int 2) (.int 3)
    none none
  obtain ⟨n, t, hn, hcode⟩ := (hassign _).1 (.name "a") [.int 0, partOfParameter] nestedPart
    _ [_, _] _ _ hsub rfl .localVar
  obtain ⟨m, u, hm, hcode'⟩ := (hassign _).2 (.str "s") _ _ _ rfl (hstring _)
  refine ⟨hsub, ⟨n, t, hn, ?_⟩, m, u, hm, ?_⟩
  · rw [hcode]
    decide +kernel
  · rw [hcode']
    decide +kernel

end Analysis

end LarkPhp
