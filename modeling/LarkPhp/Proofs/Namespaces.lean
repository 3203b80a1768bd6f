import LarkPhp.Proofs.Recovery

/-!
What a unit sees and changes of the namespaces.

Names are looked up in the namespace around them, in the core namespace, and in the namespaces that
qualify symbols; definitions go into the namespace around them.  So the definitions of all other
namespaces neither matter to a unit nor change while it runs (`unit_unrelated`).  Patterns are taken
apart by calls with a qualified head that was not written, but these are special forms of the host,
and no special form is ever looked up.
-/

namespace LarkPhp

namespace Globals

/-! ### Definitions of single namespaces -/

/-- The definitions outside a namespace. -/
def outside (g : Globals) (own : String) : List (String × String) :=
  g.defined.filter (·.1 != own)

/-- The namespaces in which both globals define the same names. -/
def agreeing (g h : Globals) : Set String :=
  {home | ∀ name, g.isDefined home name = h.isDefined home name}

/-- A namespace has the same definitions in both globals. -/
structure SameIn (g h : Globals) (home : String) : Prop where
  isDefined : ∀ name, g.isDefined home name = h.isDefined home name
  count : g.count home = h.count home

variable {g h : Globals} {own home : String}

theorem sameIn_of_outside_eq (heq : g.outside own = h.outside own) (hne : home ≠ own) :
    g.SameIn h home := by
  have hmem : ∀ (g : Globals) name, (home, name) ∈ g.outside own ↔ (home, name) ∈ g.defined := by
    intro g name
    simp [outside, hne]
  have hcount : ∀ g : Globals, (g.outside own).countP (·.1 == home) = g.count home := by
    intro g
    rw [outside, List.countP_filter]
    refine List.countP_congr fun e _ => ?_
    simp only [Bool.and_eq_true, beq_iff_eq, bne_iff_ne, ne_eq, and_iff_left_iff_imp]
    rintro rfl
    exact hne
  refine ⟨fun name => ?_, ?_⟩
  · rw [Bool.eq_iff_iff, isDefined_iff, isDefined_iff, ← hmem, ← hmem, heq]
  · rw [← hcount, ← hcount, heq]

theorem outside_define (g : Globals) (own name : String) :
    (g.define own name).outside own = g.outside own := by
  unfold outside define
  dsimp only
  cases hin : g.defined.contains (own, name) with
  | true => rw [Distinct.add_of_contains hin]
  | false =>
    rw [Distinct.add_of_not_contains hin, List.filter_append]
    simp

theorem outside_undefineAll (g : Globals) {names : List (String × String)}
    (hnames : ∀ e ∈ names, e.1 = own) : (g.undefineAll names).outside own = g.outside own := by
  unfold outside
  rw [defined_undefineAll, List.filter_filter]
  refine List.filter_congr fun e _ => ?_
  cases hne : e.1 != own with
  | false => rfl
  | true =>
    have hout : e ∉ names := fun he => bne_iff_ne.1 hne (hnames e he)
    simpa using hout

theorem isDefined_undefineAll (g : Globals) (names : List (String × String)) (home name : String) :
    (g.undefineAll names).isDefined home name =
      (g.isDefined home name && !names.contains (home, name)) := by
  rw [Bool.eq_iff_iff, isDefined_iff, defined_undefineAll, List.mem_filter, Bool.and_eq_true,
    isDefined_iff]

/-- Without macros, a symbol is looked up in its own namespace only, or in the one around it and the
core namespace. -/
theorem resolve_eq_of_isDefined_eq (hg : g.expanders = []) (hh : h.expanders = [])
    (hcore : g.core = h.core) {x : Symbol}
    (hx : ∀ home, x.qualifier = some home → ∀ name, g.isDefined home name = h.isDefined home name)
    (hown : ∀ name, g.isDefined own name = h.isDefined own name)
    (hin : ∀ name, g.isDefined g.core name = h.isDefined g.core name) :
    g.resolve x own = h.resolve x own := by
  have hresolve : ∀ {home}, (∀ name, g.isDefined home name = h.isDefined home name) →
      ∀ name, g.resolveIn home name = h.resolveIn home name := by
    intro home hdef name
    unfold resolveIn
    rw [hdef, hg, hh]
  unfold resolve
  cases hqualifier : x.qualifier with
  | some home =>
    dsimp only
    rw [hresolve (hx home hqualifier)]
  | none =>
    dsimp only
    rw [hresolve hown, hresolve hin, hcore]

end Globals

/-- If the symbol is looked up in a namespace of its own, it is one of the given ones.  Drawn
symbols and special forms of the host are not looked up. -/
def Symbol.LooksInto (seen : Set String) (x : Symbol) : Prop :=
  ∀ home, x.qualifier = some home →
    home ∈ seen ∨ x.generated = true ∨ x.ofHost = true ∧ SpecialForm.ofSymbol? x ≠ none

namespace Analysis

/-! ### Runs beside each other -/

/-- A run that began with the definitions of `g`, without macros, and has defined names of one
namespace. -/
structure Confined (own : String) (g : Globals) (s : State) : Prop where
  added : ∀ e ∈ s.added, e.1 = own
  outside : s.globals.outside own = g.outside own
  expanders : s.globals.expanders = []
  core : s.globals.core = g.core

namespace Confined

variable {own : String} {g : Globals} {s s' : State}

theorem start (h : g.expanders = []) (drawn : Nat) : Confined own g (.start g drawn) :=
  ⟨fun _ he => (nomatch he), rfl, h, rfl⟩

theorem congr (h : Confined own g s) (hglobals : s'.globals = s.globals)
    (hadded : s'.added = s.added) : Confined own g s' :=
  ⟨hadded ▸ h.added, hglobals ▸ h.outside, hglobals ▸ h.expanders, hglobals ▸ h.core⟩

theorem define (h : Confined own g s) (name : String) : Confined own g (s.defining own name) := by
  refine ⟨?_, ?_, h.expanders, h.core⟩
  · intro e he
    unfold State.defining at he
    dsimp only at he
    split at he
    · rcases List.mem_append.1 he with he | he
      · exact h.added e he
      · rw [List.mem_singleton.1 he]
    · exact h.added e he
  · rw [State.defining, Globals.outside_define, h.outside]

theorem withdraw (h : Confined own g s) (mark : Nat) : Confined own g (s.withdraw mark) := by
  have hdropped : ∀ e ∈ (s.added.drop mark).reverse, e.1 = own := fun e he =>
    h.added e (List.mem_of_mem_drop (List.mem_reverse.1 he))
  refine ⟨fun e he => h.added e (List.mem_of_mem_take he), ?_, ?_, ?_⟩
  · rw [State.withdraw, Globals.outside_undefineAll _ hdropped, h.outside]
  · rw [State.withdraw, Globals.expanders_undefineAll, h.expanders]
  · rw [State.withdraw, Globals.core_undefineAll, h.core]

end Confined

/-- States of two runs that differ in the definitions of namespaces that are not seen. -/
structure Beside (own : String) (seen : Set String) (g h : Globals) (s t : State) : Prop where
  drawn : s.drawn = t.drawn
  nodes : s.nodes = t.nodes
  warnings : s.warnings = t.warnings
  added : s.added = t.added
  isDefined : ∀ home ∈ seen, ∀ name,
    s.globals.isDefined home name = t.globals.isDefined home name
  left : Confined own g s
  right : Confined own h t

namespace Beside

variable {own : String} {seen : Set String} {g h : Globals} {s t s' t' : State}

theorem define (hs : Beside own seen g h s t) (hown : own ∈ seen) (name : String) :
    Beside own seen g h (s.defining own name) (t.defining own name) := by
  refine ⟨hs.drawn, hs.nodes, hs.warnings, ?_, ?_, hs.left.define name, hs.right.define name⟩
  · unfold State.defining
    rw [hs.isDefined own hown, hs.added]
  · intro home hhome n
    rw [State.defining, State.defining, Bool.eq_iff_iff, Globals.isDefined_define,
      Globals.isDefined_define, hs.isDefined home hhome]

theorem withdraw (hs : Beside own seen g h s t) (hs' : Beside own seen g h s' t') :
    Beside own seen g h (s'.withdraw s.added.length) (t'.withdraw t.added.length) := by
  rw [hs.added]
  refine ⟨hs'.drawn, hs'.nodes, hs'.warnings, ?_, ?_, hs'.left.withdraw _, hs'.right.withdraw _⟩
  · unfold State.withdraw
    rw [hs'.added]
  · intro home hhome name
    unfold State.withdraw
    rw [Globals.isDefined_undefineAll, Globals.isDefined_undefineAll, hs'.added,
      hs'.isDefined home hhome]

end Beside

/-- What a form met in the namespace `own` looks up is seen. -/
def Inside (own : String) (seen : Set String) (scope : Scope) (f : Form) : Prop :=
  scope.homeName = own ∧ ∀ x ∈ f.symbols, x.LooksInto seen

/-- Taking a value apart looks up what the key looks up. -/
theorem Inside.access {own : String} {seen : Set String} {scope : Scope} {key : Form}
    (h : Inside own seen scope key) {x : Symbol} (hx : x.generated = true) :
    Inside own seen scope (Pattern.access x key) := by
  have hget : SpecialForm.ofSymbol? (.qualified "php" "aget") ≠ none := by decide +kernel
  refine ⟨h.1, fun y hy => ?_⟩
  simp only [Pattern.access, Form.parens, Form.symbols, Form.symbolsAll, List.append_nil,
    List.singleton_append, List.mem_cons] at hy
  rcases hy with rfl | rfl | hy
  · exact fun _ _ => .inr (.inr ⟨rfl, hget⟩)
  · exact fun _ _ => .inr (.inl hx)
  · exact h.2 y hy

/-- **Analysis depends on the namespaces that are looked into only.** -/
theorem correspondence_beside {own : String} {seen : Set String} {g h : Globals}
    (hown : own ∈ seen) (hin : g.core ∈ seen) (hcore : g.core = h.core) :
    Correspondence (.exact true true) (Beside own seen g h) (Inside own seen) where
  resolve {s t scope x p} hs hG _ hlooked := by
    obtain ⟨rfl, hG⟩ := hG
    cases hx : x.generated with
    | true =>
      unfold Globals.resolve
      rw [if_pos hx, if_pos hx]
    | false =>
      have hsame : s.globals.core = t.globals.core := by rw [hs.left.core, hs.right.core, hcore]
      refine Globals.resolve_eq_of_isDefined_eq hs.left.expanders hs.right.expanders hsame ?_
        (hs.isDefined _ hown) (hs.isDefined _ (hs.left.core ▸ hin))
      intro home hqualifier
      rcases hG x (List.mem_singleton.2 rfl) home hqualifier with hhome | hdrawn | ⟨hhost, hspecial⟩
      · exact hs.isDefined home hhome
      · rw [hx] at hdrawn
        cases hdrawn
      · rcases hlooked with hlooked | hlooked
        · rw [hhost] at hlooked
          cases hlooked
        · exact absurd hlooked hspecial
  isDefined name hs hG := hs.isDefined _ (hG.1 ▸ hown) name
  level hs k := by
    rw [hs.drawn]
    rfl
  nodes hs _ := hs.nodes
  draw n hs :=
    ⟨congrArg (· + n) hs.drawn, hs.nodes, hs.warnings, hs.added, hs.isDefined,
      hs.left.congr rfl rfl, hs.right.congr rfl rfl⟩
  number hs :=
    ⟨hs.drawn, congrArg (· + 1) hs.nodes, hs.warnings, hs.added, hs.isDefined,
      hs.left.congr rfl rfl, hs.right.congr rfl rfl⟩
  warn code message hs hp := by
    refine ⟨hs.drawn, hs.nodes, ?_, hs.added, hs.isDefined, hs.left.congr rfl rfl,
      hs.right.congr rfl rfl⟩
    unfold State.warned
    rw [hs.warnings, hp rfl]
  define name hs hG := by
    obtain ⟨rfl, -⟩ := hG
    exact hs.define hown name
  withdraw hs hs' := hs.withdraw hs'
  expand hs _ _ hresolve := absurd hresolve (resolve_ne_expander hs.left.expanders _ _ _ _)
  part hG hmem := ⟨hG.1, fun x hx => hG.2 x (Form.mem_symbols_of_part hmem hx)⟩
  visible _ _ := rfl
  definedName _ _ _ := rfl
  wider {scope inner f} hG hwithin := by
    refine ⟨?_, hG.2⟩
    rw [← hG.1, Scope.homeName, Scope.homeName, hwithin.home]
  holder hG hx _ := by
    refine ⟨hG.1, fun y hy => ?_⟩
    cases List.mem_singleton.1 hy
    exact fun _ _ => .inr (.inl hx)
  index _ hG := ⟨hG.1, fun x hx => nomatch hx⟩
  access hG hx _ := hG.access hx

/-- **Unrelated namespaces do not matter to a unit, and do not change.**  There are no macros, and
two globals have the same core namespace and define the same names in the unit's own namespace, in
the core namespace, and in every namespace that qualifies a symbol of the forms.  Then the unit has
the same nodes or the same error with both, the same warnings and as many symbols drawn, and each
time all namespaces but its own have the definitions that they had before. -/
theorem unit_unrelated (g h : Globals) (drawn : Nat) (forms : List Form) (scope : Scope)
    (hg : g.expanders = []) (hh : h.expanders = []) (hcore : g.core = h.core)
    (hown : ∀ name, g.isDefined scope.homeName name = h.isDefined scope.homeName name)
    (hin : ∀ name, g.isDefined g.core name = h.isDefined g.core name)
    (hnamed : ∀ f ∈ forms, ∀ x ∈ f.symbols, ∀ home, x.qualifier = some home →
      ∀ name, g.isDefined home name = h.isDefined home name) :
    let r := unit forms scope (.start g drawn)
    let q := unit forms scope (.start h drawn)
    verdict r = verdict q ∧ (left r).warnings = (left q).warnings ∧ (left r).drawn = (left q).drawn ∧
      ∀ home, home ≠ scope.homeName →
        (left r).globals.SameIn g home ∧ (left q).globals.SameIn h home := by
  intro r q
  have hstart : Beside scope.homeName (g.agreeing h) g h (.start g drawn) (.start h drawn) :=
    ⟨rfl, rfl, rfl, rfl, fun _ hhome => hhome, .start hg drawn, .start hh drawn⟩
  have hforms : ∀ f ∈ forms, Inside scope.homeName (g.agreeing h) scope f :=
    fun f hf => ⟨rfl, fun x hx home hqualifier => .inl (hnamed f hf x hx home hqualifier)⟩
  have hcorrespond : Correspondence (.exact true true) (Beside scope.homeName (g.agreeing h) g h)
      (Inside scope.homeName (g.agreeing h)) := correspondence_beside hown hin hcore
  have hunits := hcorrespond.unit (View.exact_scopes_refl scope) hforms
    (View.exact_forms_refl forms) hstart rfl rfl
  have hkept : ∀ {s t}, Beside scope.homeName (g.agreeing h) g h s t →
      ∀ home, home ≠ scope.homeName → s.globals.SameIn g home ∧ t.globals.SameIn h home := by
    intro s t hs home hne
    exact ⟨Globals.sameIn_of_outside_eq hs.left.outside hne,
      Globals.sameIn_of_outside_eq hs.right.outside hne⟩
  change Outcomes _ _ _ r q at hunits
  generalize r = r, q = q at hunits
  cases hunits with
  | ok hns hs =>
    rw [View.exact_nodes_eq_all hns]
    exact ⟨rfl, hs.warnings, hs.drawn, hkept hs⟩
  | failed he hs =>
    rw [he.eq rfl]
    exact ⟨rfl, hs.warnings, hs.drawn, hkept hs⟩
  | exhausted hs => exact ⟨rfl, hs.warnings, hs.drawn, hkept hs⟩

/-- `(let [[a] lib/pair] (def b a))`: it draws a symbol for the pattern, looks `pair` up in `lib`, and
defines `b`. -/
def borrowingForm : Form :=
  .parens [.name "let", .brackets [.brackets [.name "a"], .symbol (.qualified "lib" "pair") none],
    .parens [.name "def", .name "b", .name "a"]]

/-- `lib/pair` and `user/b` are defined. -/
def lendingGlobals : Globals := (Globals.define default "lib" "pair").define "user" "b"

/-- The same with `other/c`, which the form above does not mention. -/
def busyGlobals : Globals := lendingGlobals.define "other" "c"

theorem unit_unrelated_borrowing :
    lendingGlobals.isDefined "other" "c" = false ∧ busyGlobals.isDefined "other" "c" = true ∧
      (verdict (unit [borrowingForm] default (.start lendingGlobals 0))).isOk = true ∧
      verdict (unit [borrowingForm] default (.start lendingGlobals 0)) =
        verdict (unit [borrowingForm] default (.start busyGlobals 0)) ∧
      (left (unit [borrowingForm] default (.start busyGlobals 0))).drawn = 1 ∧
      (left (unit [borrowingForm] default (.start busyGlobals 0))).globals.SameIn busyGlobals
        "other" := by
  have hsame : ∀ home name, home ≠ "other" →
      lendingGlobals.isDefined home name = busyGlobals.isDefined home name := by
    intro home name hne
    rw [Bool.eq_iff_iff, busyGlobals, Globals.isDefined_define]
    simp [hne]
  have hnamed : ∀ f ∈ [borrowingForm], ∀ x ∈ f.symbols, x.qualifier ≠ some "other" := by decide
  have hunits := unit_unrelated lendingGlobals busyGlobals 0 [borrowingForm] default rfl rfl rfl
    (fun name => hsame _ name (by decide)) (fun name => hsame _ name (by decide))
    (fun f hf x hx home hqualifier name => hsame home name fun hother =>
      hnamed f hf x hx (hother ▸ hqualifier))
  obtain ⟨hverdict, -, hdrawn, hkept⟩ := hunits
  refine ⟨by decide, by decide, by decide +kernel, hverdict, ?_, (hkept "other" (by decide)).2⟩
  rw [← hdrawn]
  decide +kernel

end Analysis

end LarkPhp
