import LarkPhp.Proofs.View

/-!
Two runs of analysis, step by step.

A correspondence is a relation of states that every single step keeps, together with a condition on
the forms that may be met in a scope; a view says how the forms, scopes and nodes of the two runs
are related.  Then whole runs keep it: they both succeed with related nodes, or both stop with
related errors, and the states that they leave are related again (`Correspondence.form`).
-/

namespace LarkPhp

/-! ### Lists of related values -/

section Lists
variable {α β : Type} {R : α → β → Prop} {xs : List α} {ys : List β}

theorem forall₂_dropLast (h : List.Forall₂ R xs ys) : List.Forall₂ R xs.dropLast ys.dropLast := by
  induction h with
  | nil => exact .nil
  | cons hab hrest ih =>
    cases hrest with
    | nil => exact .nil
    | cons hcd hrest => exact .cons hab ih

/-- Both lists are empty, or their last values are related. -/
theorem forall₂_getLast? (h : List.Forall₂ R xs ys) :
    (xs.getLast? = none ∧ ys.getLast? = none) ∨
      ∃ x ∈ xs, ∃ y, xs.getLast? = some x ∧ ys.getLast? = some y ∧ R x y := by
  induction h with
  | nil => exact .inl ⟨rfl, rfl⟩
  | @cons a b xs ys hab hrest ih =>
    right
    rcases ih with ⟨hx, hy⟩ | ⟨x, hmem, y, hx, hy, hxy⟩
    · refine ⟨a, List.mem_cons_self, b, ?_, ?_, hab⟩
      · rw [List.getLast?_cons, hx, Option.getD_none]
      · rw [List.getLast?_cons, hy, Option.getD_none]
    · refine ⟨x, List.mem_cons_of_mem a hmem, y, ?_, ?_, hxy⟩
      · rw [List.getLast?_cons, hx, Option.getD_some]
      · rw [List.getLast?_cons, hy, Option.getD_some]

theorem forall₂_takeWhile {p : α → Bool} {q : β → Bool} (hpq : ∀ a b, R a b → p a = q b)
    (h : List.Forall₂ R xs ys) : List.Forall₂ R (xs.takeWhile p) (ys.takeWhile q) := by
  induction h with
  | nil => exact .nil
  | @cons a b xs ys hab _ ih =>
    rw [List.takeWhile_cons, List.takeWhile_cons, hpq a b hab]
    split
    · exact .cons hab ih
    · exact .nil

theorem forall₂_dropWhile {p : α → Bool} {q : β → Bool} (hpq : ∀ a b, R a b → p a = q b)
    (h : List.Forall₂ R xs ys) : List.Forall₂ R (xs.dropWhile p) (ys.dropWhile q) := by
  induction h with
  | nil => exact .nil
  | @cons a b xs ys hab hrest ih =>
    rw [List.dropWhile_cons, List.dropWhile_cons, hpq a b hab]
    split
    · exact ih
    · exact .cons hab hrest

theorem forall₂_append {xs' : List α} {ys' : List β} (h : List.Forall₂ R xs ys)
    (h' : List.Forall₂ R xs' ys') : List.Forall₂ R (xs ++ xs') (ys ++ ys') := by
  induction h with
  | nil => exact h'
  | cons hab _ ih => exact .cons hab ih

end Lists

/-! ### Patterns -/

namespace View

/-- Patterns with related values. -/
def Pairs (v : View) (a b : Form × Form) : Prop := v.Forms a.1 b.1 ∧ v.Forms a.2 b.2

/-- Names with related values. -/
def Bound (v : View) (a b : Symbol × Form) : Prop := b.1 = v.rename a.1 ∧ v.Forms a.2 b.2

variable {v : View}

theorem forms_access {x : Symbol} {key key' : Form} (h : v.Forms key key') :
    v.Forms (Pattern.access x key) (Pattern.access (v.rename x) key') := by
  have hp : v.Place none none := fun _ => rfl
  have hhead : v.Forms (.symbol (.qualified "php" "aget") none)
      (.symbol (.qualified "php" "aget") none) := by
    refine forms_self fun x hx => ?_
    cases List.mem_singleton.1 hx
    exact v.rename_of_written rfl
  exact .tuple (.cons hhead (.cons (.symbol hp) (.cons h .nil))) hp

end View

namespace Pattern

/-- The symbols that are drawn from here on correspond. -/
def Level (v : View) (m n : Nat) : Prop :=
  ∀ k, v.rename (.fresh (m + k + 1)) = .fresh (n + k + 1)

theorem Level.add {v : View} {m n : Nat} (h : Level v m n) (k : Nat) : Level v (m + k) (n + k) := by
  intro l
  have := h (k + l)
  simpa only [Nat.add_assoc] using this

/-- How two runs over patterns end: both make related bindings, or both stop with related errors,
after drawing the same number of symbols. -/
inductive Outcomes (v : View) (b b' : Bindings) :
    EStateM.Result CompileError Bindings Unit → EStateM.Result CompileError Bindings Unit → Prop
  | ok {n added added'} :
    List.Forall₂ v.Bound added added' →
    Outcomes v b b' (.ok () ⟨b.drawn + n, b.pairs ++ added⟩) (.ok () ⟨b'.drawn + n, b'.pairs ++ added'⟩)
  | error {n e e' pairs pairs'} :
    v.Errors e e' →
    Outcomes v b b' (.error e ⟨b.drawn + n, pairs⟩) (.error e' ⟨b'.drawn + n, pairs'⟩)

/-- Two runs over patterns end alike wherever the symbols to be drawn correspond. -/
def Tracks (v : View) (x y : Binder Unit) : Prop :=
  ∀ b b', Level v b.drawn b'.drawn → Outcomes v b b' (x b) (y b')

section Tracks
variable {v : View}

theorem Tracks.seq {x y : Binder Unit} {x' y' : Binder Unit} (h : Tracks v x y)
    (h' : Tracks v x' y') : Tracks v (x >>= fun _ => x') (y >>= fun _ => y') := by
  intro b b' hb
  rw [Analysis.bind_run, Analysis.bind_run]
  have hxy := h b b' hb
  generalize x b = r, y b' = q at hxy
  cases hxy with
  | error he => exact .error he
  | @ok n added added' hadded =>
    have hrest := h' ⟨b.drawn + n, b.pairs ++ added⟩ ⟨b'.drawn + n, b'.pairs ++ added'⟩ (hb.add n)
    dsimp only
    generalize x' ⟨b.drawn + n, b.pairs ++ added⟩ = r, y' ⟨b'.drawn + n, b'.pairs ++ added'⟩ = q
      at hrest ⊢
    cases hrest with
    | @ok m more more' hmore =>
      have hall := @Outcomes.ok v b b' (n + m) _ _ (forall₂_append hadded hmore)
      simpa only [Nat.add_assoc, List.append_assoc] using hall
    | @error m e e' pairs pairs' he =>
      have herror := @Outcomes.error v b b' (n + m) _ _ pairs pairs' he
      simpa only [Nat.add_assoc] using herror

theorem tracks_done : Tracks v (pure ()) (pure ()) := by
  intro b b' _
  have h := @Outcomes.ok v b b' 0 _ _ .nil
  simp only [Nat.add_zero, List.append_nil] at h
  exact h

theorem tracks_refuse (fault : Fault) {p q : Option Span} (h : v.Place p q) :
    Tracks v (refuse fault p) (refuse fault q) := by
  intro b b' _
  exact Outcomes.error (n := 0) (View.errors_fault fault h)

theorem tracks_bindSymbol {x : Symbol} {f g : Form} (h : v.Forms f g) :
    Tracks v (bindSymbol x f) (bindSymbol (v.rename x) g) := by
  intro b b' _
  exact Outcomes.ok (n := 0) (.cons ⟨rfl, h⟩ .nil)

/-- A value goes into a holder, and what follows uses the holder. -/
theorem tracks_hold {f g : Form} (h : v.Forms f g) {k k' : Symbol → Binder Unit}
    (hk : ∀ x, Tracks v (k x) (k' (v.rename x))) : Tracks v (hold f >>= k) (hold g >>= k') := by
  intro b b' hb
  have hholder : v.rename (.fresh (b.drawn + 1)) = .fresh (b'.drawn + 1) := by simpa using hb 0
  have hrest := hk (.fresh (b.drawn + 1)) ⟨b.drawn + 1, b.pairs ++ [(.fresh (b.drawn + 1), f)]⟩
    ⟨b'.drawn + 1, b'.pairs ++ [(.fresh (b'.drawn + 1), g)]⟩ (hb.add 1)
  rw [hholder] at hrest
  show Outcomes v b b' (k (.fresh (b.drawn + 1)) ⟨b.drawn + 1, _⟩)
    (k' (.fresh (b'.drawn + 1)) ⟨b'.drawn + 1, _⟩)
  generalize k (.fresh (b.drawn + 1)) _ = r, k' (.fresh (b'.drawn + 1)) _ = q at hrest ⊢
  cases hrest with
  | @ok n added added' hadded =>
    have hfirst : v.Bound (.fresh (b.drawn + 1), f) (.fresh (b'.drawn + 1), g) := ⟨hholder.symm, h⟩
    have hall := @Outcomes.ok v b b' (1 + n) _ _ (.cons hfirst hadded)
    simpa only [Nat.add_assoc, List.append_assoc, List.singleton_append] using hall
  | @error n e e' pairs pairs' he =>
    have herror := @Outcomes.error v b b' (1 + n) _ _ pairs pairs' he
    simpa only [Nat.add_assoc] using herror

mutual
theorem tracks_bind : ∀ {p q f g : Form}, v.Forms p q → v.Forms f g → Tracks v (bind p f) (bind q g)
  | .symbol x p, _, f, g, .symbol hp, h => by
    unfold bind
    rw [v.isPlain_rename]
    split
    · exact tracks_refuse _ hp
    · exact tracks_bindSymbol h
  | .tuple d xs p, _, f, g, .tuple hxs hp, h => by
    unfold bind
    exact tracks_hold h fun x => tracks_bindElements hxs x 0 hp
  | .table es p, _, f, g, .table hes hp, h => by
    unfold bind
    exact tracks_hold h fun x => tracks_bindEntries hes x
  | .set xs p, _, f, g, .set hxs hp, h => by
    unfold bind
    exact tracks_refuse _ hp
  | .array xs p, _, f, g, .array hxs hp, h => by
    unfold bind
    exact tracks_refuse _ hp
  | .nil, _, _, _, .scalar _, _ | .bool _, _, _, _, .scalar _, _ | .int _, _, _, _, .scalar _, _
  | .float _, _, _, _, .scalar _, _ | .str _, _, _, _, .scalar _, _
  | .keyword _, _, _, _, .scalar _, _ => by
    unfold bind
    exact tracks_refuse _ fun _ => rfl

theorem tracks_bindElements : ∀ {ps qs : List Form}, List.Forall₂ v.Forms ps qs →
    ∀ (x : Symbol) (index : Nat) {p q : Option Span}, v.Place p q →
      Tracks v (bindElements ps x index p) (bindElements qs (v.rename x) index q)
  | [], _, .nil, _, _, _, _, _ => tracks_done
  | f :: fs, _, .cons hf hfs, x, index, p, q, hp => by
    unfold bindElements
    rw [hf.isRestMarker]
    split
    · exact tracks_refuse _ (hf.place.orElse hp)
    · exact (tracks_bind hf (View.forms_access (.scalar rfl))).seq
        (tracks_bindElements hfs x (index + 1) hp)

theorem tracks_bindEntries : ∀ {ds es : List (Form × Form)},
    List.Forall₂ v.Forms (Analysis.flatten ds) (Analysis.flatten es) → ∀ x : Symbol,
      Tracks v (bindEntries ds x) (bindEntries es (v.rename x))
  | [], [], _, _ => tracks_done
  | (k, f) :: ds, (k', f') :: es, .cons hk (.cons hf hrest), x => by
    unfold bindEntries
    exact (tracks_bind hf (View.forms_access hk)).seq (tracks_bindEntries hrest x)
end

theorem tracks_bindAll {pairs pairs' : List (Form × Form)} (h : List.Forall₂ v.Pairs pairs pairs') :
    Tracks v (bindAll pairs) (bindAll pairs') := by
  induction h with
  | nil => exact tracks_done
  | cons hab _ ih => exact (tracks_bind hab.1 hab.2).seq ih

end Tracks

end Pattern

/-! ### Scopes that grow -/

namespace Scope

/-- In `t` more names are bound than in `s`, in the same namespace. -/
structure Within (s t : Scope) : Prop where
  home : s.home = t.home
  isLocal {x : Symbol} : s.isLocal x = true → t.isLocal x = true

variable {s t u : Scope}

theorem Within.refl (s : Scope) : s.Within s := ⟨rfl, id⟩

theorem Within.trans (h : s.Within t) (h' : t.Within u) : s.Within u :=
  ⟨h.home.trans h'.home, fun hx => h'.isLocal (h.isLocal hx)⟩

theorem Within.withContext (h : s.Within t) (c : Context) : s.Within (t.withContext c) :=
  ⟨h.home, h.isLocal⟩

theorem within_withContext (s : Scope) (c : Context) : s.Within (s.withContext c) :=
  (Within.refl s).withContext c

theorem within_bind (s : Scope) (names : List Symbol) : s.Within (s.bind names) :=
  ⟨rfl, fun hx => (isLocal_iff _).2 ((mem_locals_bind s).2 (.inl ((isLocal_iff s).1 hx)))⟩

theorem isLocal_bind_of_mem (s : Scope) {names : List Symbol} {x : Symbol} (h : x ∈ names) :
    (s.bind names).isLocal x = true :=
  (isLocal_iff _).2 ((mem_locals_bind s).2 (.inr h))

end Scope

namespace Analysis

/-! ### How two runs end -/

/-- Two outcomes match: both are successes with related values, or both are related errors, and the
states are related. -/
inductive Outcomes {α β : Type} (v : View) (P : State → State → Prop) (N : α → β → Prop) :
    EStateM.Result Stop State α → EStateM.Result Stop State β → Prop
  | ok {a b s t} : N a b → P s t → Outcomes v P N (.ok a s) (.ok b t)
  | failed {e e' s t} :
    v.Errors e e' → P s t → Outcomes v P N (.error (.failed e) s) (.error (.failed e') t)
  | exhausted {s t} : P s t → Outcomes v P N (.error .exhausted s) (.error .exhausted t)

/-- Two runs match from all related states. -/
def Tracks {α β : Type} (v : View) (P : State → State → Prop) (N : α → β → Prop) (x : Analyze α)
    (y : Analyze β) : Prop :=
  ∀ s t, P s t → Outcomes v P N (x s) (y t)

section Combinators
variable {α β γ δ : Type} {v : View} {P : State → State → Prop} {N : α → β → Prop}
  {M : γ → δ → Prop}

theorem Tracks.bind {x : Analyze α} {y : Analyze β} {f : α → Analyze γ} {g : β → Analyze δ}
    (hx : Tracks v P N x y) (hf : ∀ a b, N a b → Tracks v P M (f a) (g b)) :
    Tracks v P M (x >>= f) (y >>= g) := by
  intro s t h
  rw [bind_run, bind_run]
  have hxy := hx s t h
  generalize x s = r, y t = q at hxy
  cases hxy with
  | ok hab h' => exact hf _ _ hab _ _ h'
  | failed he h' => exact .failed he h'
  | exhausted h' => exact .exhausted h'

theorem tracks_pure {a : α} {b : β} (h : N a b) : Tracks v P N (pure a) (pure b) :=
  fun _ _ hs => .ok h hs

theorem tracks_get : Tracks v P P get get := fun _ _ hs => .ok hs hs

theorem tracks_fail (fault : Fault) {p q : Option Span} (h : v.Place p q) :
    Tracks v P N (fail fault p) (fail fault q) :=
  fun _ _ hs => .failed (View.errors_fault fault h) hs

theorem tracks_located {x : Analyze α} {y : Analyze β} {p q : Option Span} (hp : v.Place p q)
    (h : Tracks v P N x y) : Tracks v P N (located p x) (located q y) := by
  intro s t hs
  unfold located
  have hxy := h s t hs
  generalize x s = r, y t = q at hxy
  cases hxy with
  | ok hab h' => exact .ok hab h'
  | failed he h' => exact .failed (he.locate hp) h'
  | exhausted h' => exact .exhausted h'

end Combinators

/-! ### What every step keeps -/

/-- A relation of states, and a condition on the forms met in a scope, that every step of analysis
keeps. -/
structure Correspondence (v : View) (P : State → State → Prop) (G : Scope → Form → Prop) :
    Prop where
  /-- The same names are looked up with the same answers.  Special forms of the host are never looked
  up. -/
  resolve {s t scope x p} : P s t → G scope (.symbol x p) → scope.isLocal x = false →
    x.ofHost = false ∨ SpecialForm.ofSymbol? x = none →
    s.globals.resolve x scope.homeName = t.globals.resolve x scope.homeName
  isDefined {s t scope f} (name) : P s t → G scope f →
    s.globals.isDefined scope.homeName name = t.globals.isDefined scope.homeName name
  /-- The symbols that are drawn next correspond. -/
  level {s t} : P s t → Pattern.Level v s.drawn t.drawn
  nodes {s t} : P s t → v.numbers = true → s.nodes = t.nodes
  draw {s t} (n) : P s t → P (s.drawnTo (s.drawn + n)) (t.drawnTo (t.drawn + n))
  number {s t} : P s t → P s.numbered t.numbered
  warn {s t p q} (code message) : P s t → v.Place p q →
    P (s.warned (.warning code message p)) (t.warned (.warning code message q))
  define {s t scope f} (name) : P s t → G scope f →
    P (s.defining scope.homeName name) (t.defining scope.homeName name)
  withdraw {s t s' t'} : P s t → P s' t' →
    P (s'.withdraw s.added.length) (t'.withdraw t.added.length)
  /-- What macros make of related calls is related. -/
  expand {s t scope call call' x name expander} : P s t → G scope call.toForm →
    v.Forms call.toForm call'.toForm →
    s.globals.resolve x scope.homeName = .expander name expander →
    Outcomes v P (fun f g => G scope f ∧ v.Forms f g) (Analysis.expand name expander call s)
      (Analysis.expand name expander call' t)
  /-- What holds of a form holds of its parts. -/
  part {scope f g} : G scope f → g ∈ f.parts → G scope g
  /-- What is not local, or defined, keeps its name. -/
  visible {scope x p} : G scope (.symbol x p) → scope.isLocal x = false → v.rename x = x
  definedName {scope head x value p q r} : SpecialForm.ofSymbol? head = some .definition →
    G scope (.tuple .paren [.symbol head p, .symbol x q, value] r) → x.qualifier = none →
    v.rename x = x
  /-- A form may be met where more names are bound. -/
  wider {scope inner f} : G scope f → scope.Within inner → G inner f
  /-- Symbols that are drawn and bound may be met, and taken apart. -/
  holder {scope x f} : G scope f → x.generated = true → scope.isLocal x = true →
    G scope (.symbol x none)
  index {scope f} (i) : G scope f → G scope (.int i)
  access {scope x key} : G scope key → x.generated = true → scope.isLocal x = true →
    G scope (Pattern.access x key)

/-- Values that may be met one after the other, each where the names before it are bound. -/
def Ready (G : Scope → Form → Prop) : Scope → List (Symbol × Form) → Prop
  | _, [] => True
  | scope, (x, f) :: rest =>
    G scope f ∧ ∀ inner, scope.Within inner → inner.isLocal x = true → Ready G inner rest

/-- Patterns that fresh names stand for. -/
def Deferred (forms : List Form) (names : List Symbol) (patterns : List (Form × Form)) : Prop :=
  ∀ e ∈ patterns, e.1 ∈ forms ∧ ∃ x ∈ names, x.generated = true ∧ e.2 = .symbol x none

theorem Deferred.mono {forms forms' : List Form} {names names' : List Symbol}
    {patterns : List (Form × Form)} (h : Deferred forms names patterns) (hforms : forms ⊆ forms')
    (hnames : names ⊆ names') : Deferred forms' names' patterns := by
  intro e he
  obtain ⟨hmem, x, hx, hdrawn, heq⟩ := h e he
  exact ⟨hforms hmem, x, hnames hx, hdrawn, heq⟩

theorem Deferred.append {forms : List Form} {names : List Symbol}
    {patterns patterns' : List (Form × Form)} (h : Deferred forms names patterns)
    (h' : Deferred forms names patterns') : Deferred forms names (patterns ++ patterns') :=
  List.forall_mem_append.2 ⟨h, h'⟩

namespace Correspondence

variable {v : View} {P : State → State → Prop} {G : Scope → Form → Prop}
  (hC : Correspondence v P G)
include hC

/-! ### Single steps -/

theorem push {make make' : Node.Info → Node} {scope scope' : Scope} {p q : Option Span}
    (hscope : v.Scopes scope scope') (hp : v.Place p q)
    (h : ∀ {i j}, v.Infos i j → v.Nodes (make i) (make' j)) :
    Tracks v P v.Nodes (Analysis.push make scope p) (Analysis.push make' scope' q) := by
  intro s t hs
  refine .ok (h ⟨hC.nodes hs, hscope, fun hv => ?_⟩) (hC.number hs)
  rw [hp hv]

theorem fresh : Tracks v P (fun x y => y = v.rename x ∧ x.generated = true) Analysis.fresh
    Analysis.fresh := by
  intro s t hs
  rw [fresh_run, fresh_run]
  have hx : v.rename (.fresh (s.drawn + 1)) = .fresh (t.drawn + 1) := hC.level hs 0
  exact .ok ⟨hx.symm, rfl⟩ (hC.draw 1 hs)

theorem warnIfScalar {f g : Form} (h : v.Forms f g) (position : Nat) {p q : Option Span}
    (hp : v.Place p q) :
    Tracks v P (fun _ _ => True) (Analysis.warnIfScalar f position p)
      (Analysis.warnIfScalar g position q) := by
  intro s t hs
  rw [warnIfScalar_run, warnIfScalar_run]
  refine .ok trivial ?_
  unfold State.noting
  rw [h.isScalar]
  split
  · next hg =>
    have hf : f.isScalar = true := by rw [h.isScalar, hg]
    have hfg : f = g := by
      cases h with
      | scalar => rfl
      | _ => cases hf
    rw [hfg]
    exact hC.warn _ _ hs hp
  · exact hs

theorem announce {scope : Scope} {f : Form} (hf : G scope f) (name : String) {p q : Option Span}
    (hp : v.Place p q) :
    Tracks v P (fun _ _ => True) (Analysis.announce scope.homeName name p)
      (Analysis.announce scope.homeName name q) := by
  intro s t hs
  rw [announce_run, announce_run]
  refine .ok trivial ?_
  unfold State.announcing
  rw [hC.isDefined name hs hf]
  split
  · exact hC.warn _ _ (hC.define name hs hf) hp
  · exact hC.define name hs hf

theorem transaction {α β : Type} {N : α → β → Prop} {x : Analyze α} {y : Analyze β}
    (h : Tracks v P N x y) : Tracks v P N (Analysis.transaction x) (Analysis.transaction y) := by
  intro s t hs
  unfold Analysis.transaction withdrawing
  have hxy := h s t hs
  generalize x s = r, y t = q at hxy
  cases hxy with
  | ok hab h' => exact .ok hab h'
  | failed he h' => exact .failed he (hC.withdraw hs h')
  | exhausted h' => exact .exhausted (hC.withdraw hs h')

theorem bindName (x : Symbol) {scope scope' : Scope} (hscope : v.Scopes scope scope') :
    Tracks v P (fun a b => b.1 = v.rename a.1 ∧ v.Scopes a.2 b.2 ∧ scope.Within a.2 ∧
      a.2.isLocal x = true) (Analysis.bindName x scope) (Analysis.bindName (v.rename x) scope') := by
  unfold Analysis.bindName
  rw [hscope.isLocal]
  split
  · next hx =>
    refine hC.fresh.bind fun a b hab => tracks_pure ?_
    obtain ⟨rfl, -⟩ := hab
    exact ⟨rfl, hscope.shadow x a, ⟨rfl, id⟩, hx⟩
  · exact tracks_pure ⟨rfl, hscope.bind [x], scope.within_bind [x],
      scope.isLocal_bind_of_mem (List.mem_singleton.2 rfl)⟩

/-! ### Patterns -/

/-- The values that patterns expand to may be met in order. -/
theorem ready_of_expands {pairs : List (Form × Form)} {flat : List (Symbol × Form)}
    {holders : List Symbol} (hexp : Pattern.Expands pairs flat holders) {scope : Scope}
    (h : ∀ e ∈ pairs, G scope e.1 ∧ G scope e.2) : Ready G scope flat := by
  have hwider : ∀ {pairs : List (Form × Form)} {scope inner : Scope}, scope.Within inner →
      (∀ e ∈ pairs, G scope e.1 ∧ G scope e.2) → ∀ e ∈ pairs, G inner e.1 ∧ G inner e.2 :=
    fun hin h e he => ⟨hC.wider (h e he).1 hin, hC.wider (h e he).2 hin⟩
  induction hexp generalizing scope with
  | nil => trivial
  | name _ _ ih =>
    obtain ⟨⟨_, hvalue⟩, hrest⟩ := List.forall_mem_cons.1 h
    exact ⟨hvalue, fun inner hin _ => ih (hwider hin hrest)⟩
  | @tuple d inside p value pairs x flat holders hx _ _ ih =>
    obtain ⟨⟨hp, hvalue⟩, hrest⟩ := List.forall_mem_cons.1 h
    refine ⟨hvalue, fun inner hin hlocal => ih (List.forall_mem_append.2 ⟨?_, hwider hin hrest⟩)⟩
    have hparts : ∀ q ∈ inside, G inner q := fun q hq => hC.wider (hC.part hp hq) hin
    have hindex : ∀ i, G inner (Pattern.access x (.int i)) :=
      fun i => hC.access (hC.index i (hC.wider hp hin)) hx hlocal
    have helements : ∀ {qs : List Form} (index : Nat), (∀ q ∈ qs, G inner q) →
        ∀ e ∈ Pattern.elements x index qs, G inner e.1 ∧ G inner e.2 := by
      intro qs
      induction qs with
      | nil => simp [Pattern.elements]
      | cons q qs ihqs =>
        intro index hqs
        obtain ⟨hq, hqs⟩ := List.forall_mem_cons.1 hqs
        exact List.forall_mem_cons.2 ⟨⟨hq, hindex _⟩, ihqs (index + 1) hqs⟩
    exact helements 0 hparts
  | @table inside p value pairs x flat holders hx _ _ ih =>
    obtain ⟨⟨hp, hvalue⟩, hrest⟩ := List.forall_mem_cons.1 h
    refine ⟨hvalue, fun inner hin hlocal => ih (List.forall_mem_append.2 ⟨?_, hwider hin hrest⟩)⟩
    refine List.forall_mem_map.2 fun e he => ?_
    have hkey : e.1 ∈ (Form.table inside p).parts := List.mem_flatMap.2 ⟨e, he, by simp⟩
    have hpattern : e.2 ∈ (Form.table inside p).parts := List.mem_flatMap.2 ⟨e, he, by simp⟩
    exact ⟨hC.wider (hC.part hp hpattern) hin,
      hC.access (hC.wider (hC.part hp hkey) hin) hx hlocal⟩

theorem destructure {scope : Scope} {pairs pairs' : List (Form × Form)}
    (hG : ∀ e ∈ pairs, G scope e.1 ∧ G scope e.2) (h : List.Forall₂ v.Pairs pairs pairs') :
    Tracks v P (fun a b => Ready G scope a ∧ List.Forall₂ v.Bound a b) (Analysis.destructure pairs)
      (Analysis.destructure pairs') := by
  intro s t hs
  unfold Analysis.destructure
  have hxy := Pattern.tracks_bindAll h ⟨s.drawn, []⟩ ⟨t.drawn, []⟩ (hC.level hs)
  generalize hr : Pattern.bindAll pairs ⟨s.drawn, []⟩ = r, Pattern.bindAll pairs' ⟨t.drawn, []⟩ = q
    at hxy
  cases hxy with
  | @ok n added added' hadded =>
    obtain ⟨-, holders, hexp, -⟩ := Pattern.expands_bindAll hr
    exact .ok ⟨hC.ready_of_expands hexp hG, hadded⟩ (hC.draw n hs)
  | @error n e e' pairs pairs' he => exact .failed he (hC.draw n hs)

theorem deferPattern {f g : Form} (h : v.Forms f g) :
    Tracks v P (fun a b => b.1 = v.rename a.1 ∧ List.Forall₂ v.Pairs a.2 b.2 ∧
      Deferred [f] [a.1] a.2) (Analysis.deferPattern f) (Analysis.deferPattern g) := by
  refine hC.fresh.bind fun x y hxy => tracks_pure ?_
  obtain ⟨rfl, hx⟩ := hxy
  refine ⟨rfl, .cons ⟨h, .symbol fun _ => rfl⟩ .nil, ?_⟩
  intro e he
  cases List.mem_singleton.1 he
  exact ⟨List.mem_singleton.2 rfl, x, List.mem_singleton.2 rfl, hx, rfl⟩

theorem binder {f g : Form} (h : v.Forms f g) :
    Tracks v P (fun a b => b.1 = v.rename a.1 ∧ List.Forall₂ v.Pairs a.2 b.2 ∧
      Deferred [f] [a.1] a.2) (Analysis.binder f) (Analysis.binder g) := by
  have hdefer := hC.deferPattern h
  cases h with
  | @symbol x p q hp =>
    unfold Analysis.binder
    dsimp only
    rw [v.isPlain_rename]
    split
    · exact hdefer
    · exact tracks_pure ⟨rfl, .nil, by simp [Deferred]⟩
  | scalar hf => cases f <;> first | exact hdefer | cases hf
  | tuple | table | set | array => exact hdefer

theorem binders {fs gs : List Form} (h : List.Forall₂ v.Forms fs gs) :
    Tracks v P (fun a b => b.1 = a.1.map v.rename ∧ List.Forall₂ v.Pairs a.2 b.2 ∧
      Deferred fs a.1 a.2) (Analysis.binders fs) (Analysis.binders gs) := by
  induction h with
  | nil => exact tracks_pure ⟨rfl, .nil, by simp [Deferred]⟩
  | @cons f g fs gs hf _ ih =>
    refine (hC.binder hf).bind fun a b hab => ih.bind fun c d hcd => tracks_pure ?_
    obtain ⟨hname, hpatterns, hdeferred⟩ := hab
    obtain ⟨hnames, hmore, hrest⟩ := hcd
    refine ⟨by simp [hname, hnames], forall₂_append hpatterns hmore, ?_⟩
    exact (hdeferred.mono (by simp) (by simp)).append (hrest.mono (by simp) (by simp))

theorem parameters {fs gs : List Form} (h : List.Forall₂ v.Forms fs gs) {p q : Option Span}
    (hp : v.Place p q) :
    Tracks v P (fun a b => b.names = a.names.map v.rename ∧ b.variadic = a.variadic ∧
      List.Forall₂ v.Pairs a.patterns b.patterns ∧ Deferred fs a.names a.patterns)
      (Analysis.parameters fs p) (Analysis.parameters gs q) := by
  have hmarker : ∀ f g, v.Forms f g → (!f.isRestMarker) = !g.isRestMarker := by
    intro f g hfg
    rw [hfg.isRestMarker]
  have htake : fs.takeWhile (!·.isRestMarker) ⊆ fs := (List.takeWhile_prefix _).subset
  have hdrop : fs.dropWhile (!·.isRestMarker) ⊆ fs := (List.dropWhile_suffix _).subset
  have hrest := forall₂_dropWhile hmarker h
  unfold Analysis.parameters
  refine (hC.binders (forall₂_takeWhile hmarker h)).bind ?_
  rintro ⟨names, patterns⟩ ⟨names', patterns'⟩ ⟨rfl, hpatterns, hdeferred⟩
  generalize fs.dropWhile (!·.isRestMarker) = rest, gs.dropWhile (!·.isRestMarker) = rest'
    at hdrop hrest ⊢
  -- nothing, or the marker with one parameter, may be left
  rcases hrest with _ | ⟨_, _ | ⟨hf, _ | _⟩⟩
  · exact tracks_pure ⟨rfl, rfl, hpatterns, hdeferred.mono htake fun _ => id⟩
  · exact tracks_fail _ hp
  · refine (hC.binder hf).bind ?_
    rintro ⟨name, more⟩ ⟨name', more'⟩ ⟨rfl, hmore, hlast⟩
    refine tracks_pure ⟨by simp, rfl, forall₂_append hpatterns hmore, ?_⟩
    refine (hdeferred.mono htake (by simp)).append (hlast.mono ?_ (by simp))
    exact List.cons_subset.2 ⟨hdrop (by simp), List.nil_subset _⟩
  · exact tracks_fail _ hp

end Correspondence

end Analysis

end LarkPhp
