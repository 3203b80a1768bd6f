import LarkPhp.Proofs.Destructuring
import LarkPhp.Proofs.FunctionScope
import LarkPhp.Proofs.Numbering
import Mathlib.Data.List.Forall2

/-!
What two runs have in common.

A view says what of two runs is compared.  The symbols of the left run are renamed to those of the
right one; only drawn symbols change their names that way.  Places, contexts and the numbers of
nodes are compared or left out.  A view relates forms, scopes, errors and nodes of the left run to
those of the right one.
-/

namespace LarkPhp

/-- What is compared between a left and a right run. -/
structure View where
  /-- What a symbol of the left run is called in the right one. -/
  rename : Symbol → Symbol
  injective : Function.Injective rename
  /-- Only drawn symbols get other names, and those are drawn symbols too. -/
  drawn (x : Symbol) : rename x = x ∨ ∃ m n, x = .fresh (m + 1) ∧ rename x = .fresh (n + 1)
  /-- Whether places are compared. -/
  places : Bool
  /-- Whether contexts are compared. -/
  contexts : Bool
  /-- Whether the numbers of nodes are compared. -/
  numbers : Bool

/-! ### Forms as trees -/

namespace Form

/-- The forms directly inside, keys and values of tables in turn. -/
def parts : Form → List Form
  | .tuple _ xs _ | .set xs _ | .array xs _ => xs
  | .table es _ => Analysis.flatten es
  | _ => []

theorem heightEntries_eq (es : List (Form × Form)) :
    heightEntries es = heightAll (Analysis.flatten es) := by
  induction es with
  | nil => rfl
  | cons e es ih =>
    obtain ⟨k, v⟩ := e
    simp only [heightEntries, ih, Analysis.flatten, List.flatMap_cons, List.cons_append,
      List.nil_append, heightAll, Nat.max_assoc]

theorem flatten_injective {ds es : List (Form × Form)}
    (h : Analysis.flatten ds = Analysis.flatten es) : ds = es := by
  induction ds generalizing es with
  | nil =>
    cases es with
    | nil => rfl
    | cons e es => cases h
  | cons d ds ih =>
    cases es with
    | nil => cases h
    | cons e es =>
      obtain ⟨hk, hrest⟩ := List.cons.inj h
      obtain ⟨hv, hrest⟩ := List.cons.inj hrest
      rw [Prod.ext hk hv, ih hrest]

theorem height_eq (f : Form) : f.height = heightAll f.parts + 1 := by
  cases f with
  | table es p => rw [height, heightEntries_eq, parts]
  | _ => rfl

theorem height_lt_of_mem_parts {f g : Form} (h : g ∈ f.parts) : g.height < f.height := by
  have := height_le_heightAll h
  rw [f.height_eq]
  omega

/-- Induction on forms: from the forms directly inside to the form. -/
theorem ind {P : Form → Prop} (h : ∀ f, (∀ g ∈ f.parts, P g) → P f) (f : Form) : P f :=
  h f fun g _ => ind h g
termination_by f.height
decreasing_by exact height_lt_of_mem_parts ‹_›

theorem mem_symbols_of_part {f g : Form} (hg : g ∈ f.parts) {x : Symbol} (hx : x ∈ g.symbols) :
    x ∈ f.symbols := by
  have hself : ∀ y ∈ f.symbols, y ∈ f.symbols := fun _ hy => hy
  cases f with
  | tuple d xs p => exact forall_symbolsAll.1 hself g hg x hx
  | set xs p => exact forall_symbolsAll.1 hself g hg x hx
  | array xs p => exact forall_symbolsAll.1 hself g hg x hx
  | table es p =>
    obtain ⟨e, he, hg⟩ := List.mem_flatMap.1 hg
    have hboth := forall_symbolsEntries.1 hself e he
    simp only [List.mem_cons, List.not_mem_nil, or_false] at hg
    rcases hg with rfl | rfl
    · exact hboth.1 x hx
    · exact hboth.2 x hx
  | _ => cases hg

end Form

/-! ### Drawn symbols name nothing else -/

namespace Symbol

theorem ofHost_fresh (n : Nat) : (fresh n).ofHost = false := rfl

theorem isClassName_fresh (n : Nat) : (fresh n).isClassName = false := by
  simp [isClassName, fresh]

theorem isPlain_fresh_succ (n : Nat) (name : String) : (fresh (n + 1)).isPlain name = false := by
  refine beq_eq_false_iff_ne.2 fun h => ?_
  have hgeneration : n + 1 = 0 := congrArg Symbol.generation h
  omega

theorem ofSymbol?_fresh_succ (n : Nat) : SpecialForm.ofSymbol? (fresh (n + 1)) = none := by
  have hwritten : ∀ f : SpecialForm, f.symbol.generation = 0 := by
    intro f
    cases f <;> decide +kernel
  refine List.find?_eq_none.2 fun f _ h => ?_
  have hgeneration : f.symbol.generation = n + 1 := congrArg Symbol.generation (eq_of_beq h)
  have := hwritten f
  omega

@[simp] theorem generated_ofWritten (text : String) : (ofWritten text).generated = false := by
  unfold ofWritten
  dsimp only
  split <;> rfl

end Symbol

/-- A definition is known by a written name. -/
theorem Globals.generated_of_resolve {g : Globals} {x name : Symbol} {home own : String}
    (h : g.resolve x home = .global own name) : name.generated = false := by
  have hin : ∀ {home text : String}, g.resolveIn home text = .global own name →
      name.generated = false := by
    intro home text h
    unfold resolveIn at h
    split at h
    · split at h
      · cases h
      · cases h
        exact Symbol.generated_ofWritten text
    · cases h
  unfold resolve at h
  split at h
  · cases h
  · split at h
    · exact hin h
    · split at h
      · exact hin h
      · exact hin h

/-! ### Injective renamings of lists -/

section Injective
variable {α β : Type} [BEq α] [LawfulBEq α] [BEq β] [LawfulBEq β] {f : α → β}
  (hf : Function.Injective f)
include hf

theorem beq_map (x y : α) : (f x == f y) = (x == y) := by
  rw [Bool.eq_iff_iff, beq_iff_eq, beq_iff_eq, hf.eq_iff]

theorem contains_map (xs : List α) (x : α) : (xs.map f).contains (f x) = xs.contains x := by
  rw [Bool.eq_iff_iff, List.contains_iff_mem, List.contains_iff_mem, List.mem_map_of_injective hf]

theorem lookup_map {γ δ : Type} {g : γ → δ} (es : List (α × γ)) (x : α) :
    (es.map fun e => (f e.1, g e.2)).lookup (f x) = (es.lookup x).map g := by
  induction es with
  | nil => rfl
  | cons e es ih =>
    obtain ⟨y, z⟩ := e
    simp only [List.map_cons, List.lookup_cons, beq_map hf, ih]
    cases x == y <;> rfl

theorem Distinct.addAll_map (xs ys : List α) :
    Distinct.addAll (xs.map f) (ys.map f) = (Distinct.addAll xs ys).map f := by
  induction ys generalizing xs with
  | nil => rfl
  | cons y ys ih =>
    have hadd : Distinct.add (xs.map f) (f y) = (Distinct.add xs y).map f := by
      unfold Distinct.add
      rw [contains_map hf]
      split
      · rfl
      · rw [List.map_append, List.map_singleton]
    rw [List.map_cons, Distinct.addAll_cons, Distinct.addAll_cons, hadd, ih]

end Injective

namespace View

section Symbols
variable (v : View) (x : Symbol)

@[simp] theorem qualifier_rename : (v.rename x).qualifier = x.qualifier := by
  rcases v.drawn x with h | ⟨m, n, rfl, h⟩ <;> rw [h]
  rfl

@[simp] theorem ofHost_rename : (v.rename x).ofHost = x.ofHost := by
  rcases v.drawn x with h | ⟨m, n, rfl, h⟩ <;> rw [h]
  rfl

@[simp] theorem isClassName_rename : (v.rename x).isClassName = x.isClassName := by
  rcases v.drawn x with h | ⟨m, n, rfl, h⟩ <;> rw [h]
  rw [Symbol.isClassName_fresh, Symbol.isClassName_fresh]

@[simp] theorem isPlain_rename (name : String) : (v.rename x).isPlain name = x.isPlain name := by
  rcases v.drawn x with h | ⟨m, n, rfl, h⟩ <;> rw [h]
  rw [Symbol.isPlain_fresh_succ, Symbol.isPlain_fresh_succ]

@[simp] theorem ofSymbol?_rename :
    SpecialForm.ofSymbol? (v.rename x) = SpecialForm.ofSymbol? x := by
  rcases v.drawn x with h | ⟨m, n, rfl, h⟩ <;> rw [h]
  rw [Symbol.ofSymbol?_fresh_succ, Symbol.ofSymbol?_fresh_succ]

/-- A symbol of the host keeps its name. -/
theorem rename_of_ofHost {x : Symbol} (hx : x.ofHost = true) : v.rename x = x := by
  rcases v.drawn x with h | ⟨m, n, rfl, -⟩
  · exact h
  · rw [Symbol.ofHost_fresh] at hx
    cases hx

/-- A written symbol keeps its name. -/
theorem rename_of_written {x : Symbol} (hx : x.generated = false) : v.rename x = x := by
  rcases v.drawn x with h | ⟨m, n, rfl, -⟩
  · exact h
  · cases hx

end Symbols

/-! ### Places and errors -/

/-- The places are the same, if they are compared. -/
def Place (v : View) (p q : Option Span) : Prop := v.places = true → p = q

/-- Errors over the same fault with the same causes, at the same place if places are compared. -/
structure Errors (v : View) (e e' : CompileError) : Prop where
  fault : e.fault = e'.fault
  causes : e.causes = e'.causes
  start : v.places = true → e.start = e'.start
  stop : v.places = true → e.stop = e'.stop

section Places
variable {v : View} {p q : Option Span}

theorem Place.orElse {p' q' : Option Span} (h : v.Place p q) (h' : v.Place p' q') :
    v.Place (p <|> p') (q <|> q') := fun hv => by rw [h hv, h' hv]

/-- Where places are compared, the errors are the same. -/
theorem Errors.eq {e e' : CompileError} (h : v.Errors e e') (hv : v.places = true) : e = e' := by
  obtain ⟨fault, start, stop, causes⟩ := e
  obtain ⟨fault', start', stop', causes'⟩ := e'
  obtain rfl : fault = fault' := h.fault
  obtain rfl : causes = causes' := h.causes
  obtain rfl : start = start' := h.start hv
  obtain rfl : stop = stop' := h.stop hv
  rfl

theorem Errors.locate {e e' : CompileError} (he : v.Errors e e') (h : v.Place p q) :
    v.Errors (e.locate p) (e'.locate q) := by
  have hfault : ∀ (e : CompileError) p, (e.locate p).fault = e.fault := by
    intro e p
    unfold CompileError.locate
    split <;> rfl
  have hcauses : ∀ (e : CompileError) p, (e.locate p).causes = e.causes := by
    intro e p
    unfold CompileError.locate
    split <;> rfl
  have heq : v.places = true → e.locate p = e'.locate q := by
    intro hv
    rw [he.eq hv, h hv]
  refine ⟨?_, ?_, fun hv => by rw [heq hv], fun hv => by rw [heq hv]⟩
  · rw [hfault, hfault, he.fault]
  · rw [hcauses, hcauses, he.causes]

theorem errors_fault (fault : Fault) (h : v.Place p q) :
    v.Errors ((CompileError.ofFault fault).locate p) ((CompileError.ofFault fault).locate q) :=
  Errors.locate ⟨rfl, rfl, fun _ => rfl, fun _ => rfl⟩ h

end Places

/-! ### Forms -/

/-- Forms that differ in the names of drawn symbols, and in places if these are left out. -/
inductive Forms (v : View) : Form → Form → Prop
  | scalar {f} : f.isScalar = true → Forms v f f
  | symbol {x p q} : v.Place p q → Forms v (.symbol x p) (.symbol (v.rename x) q)
  | tuple {d xs ys p q} :
    List.Forall₂ (Forms v) xs ys → v.Place p q → Forms v (.tuple d xs p) (.tuple d ys q)
  | table {ds es p q} :
    List.Forall₂ (Forms v) (Analysis.flatten ds) (Analysis.flatten es) → v.Place p q →
    Forms v (.table ds p) (.table es q)
  | set {xs ys p q} :
    List.Forall₂ (Forms v) xs ys → v.Place p q → Forms v (.set xs p) (.set ys q)
  | array {xs ys p q} :
    List.Forall₂ (Forms v) xs ys → v.Place p q → Forms v (.array xs p) (.array ys q)

section Forms
variable {v : View} {f g : Form}

theorem Forms.parts (h : v.Forms f g) : List.Forall₂ v.Forms f.parts g.parts := by
  cases h with
  | scalar hs => cases f <;> first | exact .nil | cases hs
  | symbol => exact .nil
  | tuple h | table h | set h | array h => exact h

theorem Forms.kind (h : v.Forms f g) : f.kind = g.kind := by
  cases h <;> rfl

theorem Forms.place (h : v.Forms f g) : v.Place f.span g.span := by
  cases h with
  | scalar => exact fun _ => rfl
  | symbol hp | tuple _ hp | table _ hp | set _ hp | array _ hp => exact hp

theorem Forms.isScalar (h : v.Forms f g) : f.isScalar = g.isScalar := by
  cases h <;> rfl

theorem Forms.isRestMarker (h : v.Forms f g) : f.isRestMarker = g.isRestMarker := by
  cases h with
  | symbol => exact (v.isPlain_rename _ _).symm
  | _ => rfl

theorem Forms.callable (h : v.Forms f g) : Analysis.callable f = Analysis.callable g := by
  cases h <;> rfl

theorem Forms.symbol? (h : v.Forms f g) :
    f.symbol?.bind SpecialForm.ofSymbol? = g.symbol?.bind SpecialForm.ofSymbol? := by
  cases h with
  | symbol => exact (v.ofSymbol?_rename _).symm
  | _ => rfl

theorem Forms.operatorOf? (h : v.Forms f g) :
    Analysis.operatorOf? f = Analysis.operatorOf? g := by
  cases h with
  | @symbol x p q =>
    unfold Analysis.operatorOf?
    dsimp only
    rw [v.ofHost_rename]
    cases hx : x.ofHost with
    | false => rfl
    | true => rw [v.rename_of_ofHost hx]
  | _ => rfl

theorem Forms.height (h : v.Forms f g) : f.height = g.height := by
  induction f using Form.ind generalizing g with
  | _ f ih =>
    have hall : ∀ {xs ys : List Form}, List.Forall₂ (fun x y => x.height = y.height) xs ys →
        Form.heightAll xs = Form.heightAll ys := by
      intro xs ys hxy
      induction hxy with
      | nil => rfl
      | cons hx _ ihxs => rw [Form.heightAll, Form.heightAll, hx, ihxs]
    have hparts := (List.forall₂_and_left _ _).2 ⟨ih, h.parts⟩
    rw [f.height_eq, g.height_eq, hall (hparts.imp fun x y hxy => hxy.1 hxy.2)]

/-- A form without symbols that get other names is seen as itself. -/
theorem forms_self (h : ∀ x ∈ f.symbols, v.rename x = x) : v.Forms f f := by
  induction f using Form.ind with
  | _ f ih =>
    have hparts : List.Forall₂ v.Forms f.parts f.parts := by
      refine List.forall₂_same.2 fun g hg => ih g hg fun x hx => h x ?_
      exact Form.mem_symbols_of_part hg hx
    have hp : ∀ p, v.Place p p := fun _ _ => rfl
    cases f with
    | symbol x p =>
      have hx : v.rename x = x := h x (by simp [Form.symbols])
      have hsymbol : v.Forms (.symbol x p) (.symbol (v.rename x) p) := .symbol (hp p)
      rwa [hx] at hsymbol
    | tuple d xs p => exact .tuple hparts (hp p)
    | table es p => exact .table hparts (hp p)
    | set xs p => exact .set hparts (hp p)
    | array xs p => exact .array hparts (hp p)
    | _ => exact .scalar rfl

/-- If no symbol gets another name and places are compared, forms are seen as themselves only. -/
theorem Forms.eq (h : v.Forms f g) (hid : ∀ x, v.rename x = x) (hp : v.places = true) : f = g := by
  induction f using Form.ind generalizing g with
  | _ f ih =>
    have hparts : f.parts = g.parts := by
      have hall := (List.forall₂_and_left _ _).2 ⟨ih, h.parts⟩
      rw [← List.forall₂_eq_eq_eq]
      exact hall.imp fun x y hxy => hxy.1 hxy.2
    cases h with
    | scalar => rfl
    | symbol hpq => rw [hid, hpq hp]
    | tuple _ hpq => exact congrArg₂ _ hparts (hpq hp)
    | table _ hpq => exact congrArg₂ _ (Form.flatten_injective hparts) (hpq hp)
    | set _ hpq => exact congrArg₂ _ hparts (hpq hp)
    | array _ hpq => exact congrArg₂ _ hparts (hpq hp)

end Forms

/-! ### Scopes -/

/-- Scopes that differ in the names of drawn symbols, and in the context if it is left out. -/
structure Scopes (v : View) (s t : Scope) : Prop where
  locals : t.locals = s.locals.map v.rename
  shadows : t.shadows = s.shadows.map fun e => (v.rename e.1, v.rename e.2)
  context : v.contexts = true → s.context = t.context
  home : s.home = t.home

namespace Scopes

variable {v : View} {s t : Scope} (h : v.Scopes s t)
include h

theorem homeName : s.homeName = t.homeName := by
  unfold Scope.homeName
  rw [h.home]

theorem isLocal (x : Symbol) : t.isLocal (v.rename x) = s.isLocal x := by
  unfold Scope.isLocal
  rw [h.locals, contains_map v.injective]

theorem variableOf (x : Symbol) : t.variableOf (v.rename x) = v.rename (s.variableOf x) := by
  unfold Scope.variableOf
  rw [h.shadows, lookup_map v.injective]
  cases s.shadows.lookup x <;> rfl

theorem withContext {c d : Context} (hc : v.contexts = true → c = d) :
    v.Scopes (s.withContext c) (t.withContext d) :=
  ⟨h.locals, h.shadows, hc, h.home⟩

theorem operand : v.Scopes s.operand t.operand := h.withContext fun _ => rfl

theorem bind (names : List Symbol) : v.Scopes (s.bind names) (t.bind (names.map v.rename)) := by
  refine ⟨?_, h.shadows, h.context, h.home⟩
  unfold Scope.bind
  dsimp only
  rw [h.locals, Distinct.addAll_map v.injective]

theorem shadow (x y : Symbol) : v.Scopes (s.shadow x y) (t.shadow (v.rename x) (v.rename y)) := by
  refine ⟨h.locals, ?_, h.context, h.home⟩
  unfold Scope.shadow
  dsimp only
  rw [h.shadows, List.map_cons, List.filter_map]
  congr 2
  refine List.filter_congr fun e _ => ?_
  simp only [Function.comp_apply, bne, beq_map v.injective]

theorem unshadow (names : List Symbol) :
    v.Scopes (s.unshadow names) (t.unshadow (names.map v.rename)) := by
  refine ⟨h.locals, ?_, h.context, h.home⟩
  unfold Scope.unshadow
  dsimp only
  rw [h.shadows, List.filter_map]
  congr 1
  refine List.filter_congr fun e _ => ?_
  simp only [Function.comp_apply, contains_map v.injective]

theorem captured (names : List Symbol) :
    t.captured (names.map v.rename) = (s.captured names).map v.rename := by
  unfold Scope.captured Distinct.ofList
  rw [← Distinct.addAll_map v.injective, h.locals, List.filter_map, List.map_map, List.map_map]
  congr 1
  have hfilter : s.locals.filter ((fun l => !(names.map v.rename).contains l) ∘ v.rename) =
      s.locals.filter fun l => !names.contains l := by
    refine List.filter_congr fun l _ => ?_
    simp only [Function.comp_apply, contains_map v.injective]
  rw [hfilter]
  exact List.map_congr_left fun l _ => h.variableOf l

end Scopes

/-! ### Nodes -/

/-- What nodes carry: related scopes, and the same number and place if these are compared. -/
structure Infos (v : View) (i j : Node.Info) : Prop where
  serial : v.numbers = true → i.serial = j.serial
  scope : v.Scopes i.scope j.scope
  location : v.places = true → i.location = j.location

/-- Trees of the same construct at every node, with related forms, names and scopes. -/
inductive Nodes (v : View) : Node → Node → Prop
  | literal {f g i j} : v.Forms f g → v.Infos i j → Nodes v (.literal f i) (.literal g j)
  | localVar {x i j} : v.Infos i j → Nodes v (.localVar x i) (.localVar (v.rename x) j)
  | globalVar {home x i j} :
    v.Infos i j → Nodes v (.globalVar home x i) (.globalVar home (v.rename x) j)
  | hostVar {x i j} : v.Infos i j → Nodes v (.hostVar x i) (.hostVar (v.rename x) j)
  | className {x i j} : v.Infos i j → Nodes v (.className x i) (.className (v.rename x) j)
  | call {f g xs ys i j} :
    Nodes v f g → List.Forall₂ (Nodes v) xs ys → v.Infos i j → Nodes v (.call f xs i) (.call g ys j)
  | block {xs ys n m i j} :
    List.Forall₂ (Nodes v) xs ys → Nodes v n m → v.Infos i j →
    Nodes v (.block xs n i) (.block ys m j)
  | branch {a b c a' b' c' i j} :
    Nodes v a a' → Nodes v b b' → Nodes v c c' → v.Infos i j →
    Nodes v (.branch a b c i) (.branch a' b' c' j)
  | bindings {bs cs n m i j} :
    cs.map Binding.name = bs.map (fun b => v.rename b.name) →
    cs.map Binding.var = bs.map (fun b => v.rename b.var) →
    List.Forall₂ (Nodes v) (bs.map Binding.init) (cs.map Binding.init) → Nodes v n m →
    v.Infos i j → Nodes v (.bindings bs n i) (.bindings cs m j)
  | function {params variadic uses n m i j} :
    Nodes v n m → v.Infos i j →
    Nodes v (.function params variadic uses n i)
      (.function (params.map v.rename) variadic (uses.map v.rename) m j)
  | definition {home x n m i j} :
    Nodes v n m → v.Infos i j → Nodes v (.definition home x n i) (.definition home (v.rename x) m j)
  | loop {value key a b a' b' i j} :
    Nodes v a a' → Nodes v b b' → v.Infos i j →
    Nodes v (.loop value key a b i) (.loop (v.rename value) (key.map v.rename) a' b' j)
  | throw {n m i j} : Nodes v n m → v.Infos i j → Nodes v (.throw n i) (.throw m j)
  | table {xs ys i j} :
    List.Forall₂ (Nodes v) xs ys → v.Infos i j → Nodes v (.table xs i) (.table ys j)
  | array {xs ys i j} :
    List.Forall₂ (Nodes v) xs ys → v.Infos i j → Nodes v (.array xs i) (.array ys j)
  | set {xs ys i j} :
    List.Forall₂ (Nodes v) xs ys → v.Infos i j → Nodes v (.set xs i) (.set ys j)
  | tuple {xs ys i j} :
    List.Forall₂ (Nodes v) xs ys → v.Infos i j → Nodes v (.tuple xs i) (.tuple ys j)
  | new {n m xs ys i j} :
    Nodes v n m → List.Forall₂ (Nodes v) xs ys → v.Infos i j → Nodes v (.new n xs i) (.new m ys j)
  | member {a b a' b' static method i j} :
    Nodes v a a' → Nodes v b b' → v.Infos i j →
    Nodes v (.member a b static method i) (.member a' b' static method j)
  | methodCall {x xs ys i j} :
    List.Forall₂ (Nodes v) xs ys → v.Infos i j →
    Nodes v (.methodCall x xs i) (.methodCall (v.rename x) ys j)
  | property {x i j} : v.Infos i j → Nodes v (.property x i) (.property (v.rename x) j)
  | arrayGet {a b a' b' i j} :
    Nodes v a a' → Nodes v b b' → v.Infos i j → Nodes v (.arrayGet a b i) (.arrayGet a' b' j)
  | arraySet {a b c a' b' c' i j} :
    Nodes v a a' → Nodes v b b' → Nodes v c c' → v.Infos i j →
    Nodes v (.arraySet a b c i) (.arraySet a' b' c' j)

/-- Bindings with the same names and variables whose values become the same. -/
theorem mapInfoInits_congr {ι : Node.Info → Node.Info} {bs cs : List (Binding Node)}
    (hnames : cs.map Binding.name = bs.map Binding.name)
    (hvars : cs.map Binding.var = bs.map Binding.var)
    (hinits : (bs.map Binding.init).map (Node.mapInfo ι) = (cs.map Binding.init).map (Node.mapInfo ι)) :
    Node.mapInfoInits ι bs = Node.mapInfoInits ι cs := by
  induction bs generalizing cs with
  | nil =>
    cases cs with
    | nil => rfl
    | cons c cs => cases hnames
  | cons b bs ih =>
    cases cs with
    | nil => cases hnames
    | cons c cs =>
      obtain ⟨hname, hnames⟩ := List.cons.inj hnames
      obtain ⟨hvar, hvars⟩ := List.cons.inj hvars
      obtain ⟨hinit, hinits⟩ := List.cons.inj hinits
      rw [Node.mapInfoInits, Node.mapInfoInits, ih hnames hvars hinits, hname, hvar, hinit]

/-- If no symbol gets another name and places are compared, nodes differ in what they carry only. -/
theorem Nodes.mapInfo_eq {v : View} (hid : ∀ x, v.rename x = x) (hp : v.places = true)
    {ι : Node.Info → Node.Info} (hι : ∀ {i j}, v.Infos i j → ι i = ι j) {n m : Node}
    (h : v.Nodes n m) : n.mapInfo ι = m.mapInfo ι := by
  induction n using Node.ind generalizing m with
  | _ n ih =>
    have hall : ∀ {ns ms : List Node}, ns ⊆ n.children → List.Forall₂ v.Nodes ns ms →
        ns.map (Node.mapInfo ι) = ms.map (Node.mapInfo ι) := by
      intro ns ms hsub hns
      induction hns with
      | nil => rfl
      | cons hn _ ihns =>
        rw [List.cons_subset] at hsub
        rw [List.map_cons, List.map_cons, ih _ hsub.1 hn, ihns hsub.2]
    have hsame : v.rename = id := funext hid
    have hnode : ∀ {c d : Node}, c ∈ n.children → v.Nodes c d → c.mapInfo ι = d.mapInfo ι :=
      fun hc hcd => ih _ hc hcd
    cases h with
    | literal hf hij => rw [Node.mapInfo, Node.mapInfo, hf.eq hid hp, hι hij]
    | bindings hnames hvars hinits hbody hij =>
      have hinits := hall (by simp [Node.children]) hinits
      have hbody := hnode (by simp [Node.children]) hbody
      simp only [hid] at hnames hvars
      rw [Node.mapInfo, Node.mapInfo, mapInfoInits_congr hnames hvars hinits, hbody, hι hij]
    | localVar hij | globalVar hij | hostVar hij | className hij | property hij =>
      rw [Node.mapInfo, Node.mapInfo, hid, hι hij]
    | call hf hxs hij | new hf hxs hij =>
      have hf := hnode (by simp [Node.children]) hf
      have hxs := hall (by simp [Node.children]) hxs
      simp only [Node.mapInfo, Node.mapInfoAll_eq, hf, hxs, hι hij]
    | block hxs hf hij =>
      have hf := hnode (by simp [Node.children]) hf
      have hxs := hall (by simp [Node.children]) hxs
      simp only [Node.mapInfo, Node.mapInfoAll_eq, hf, hxs, hι hij]
    | branch ha hb hc hij | arraySet ha hb hc hij =>
      have ha := hnode (by simp [Node.children]) ha
      have hb := hnode (by simp [Node.children]) hb
      have hc := hnode (by simp [Node.children]) hc
      rw [Node.mapInfo, Node.mapInfo, ha, hb, hc, hι hij]
    | loop ha hb hij =>
      have ha := hnode (by simp [Node.children]) ha
      have hb := hnode (by simp [Node.children]) hb
      simp only [Node.mapInfo, hsame, Option.map_id, id_eq, ha, hb, hι hij]
    | member ha hb hij | arrayGet ha hb hij =>
      have ha := hnode (by simp [Node.children]) ha
      have hb := hnode (by simp [Node.children]) hb
      rw [Node.mapInfo, Node.mapInfo, ha, hb, hι hij]
    | function ha hij =>
      have ha := hnode (by simp [Node.children]) ha
      simp only [Node.mapInfo, hsame, List.map_id, ha, hι hij]
    | definition ha hij =>
      have ha := hnode (by simp [Node.children]) ha
      rw [Node.mapInfo, Node.mapInfo, hid, ha, hι hij]
    | throw ha hij =>
      have ha := hnode (by simp [Node.children]) ha
      rw [Node.mapInfo, Node.mapInfo, ha, hι hij]
    | table hxs hij | array hxs hij | set hxs hij | tuple hxs hij =>
      have hxs := hall (by simp [Node.children]) hxs
      simp only [Node.mapInfo, Node.mapInfoAll_eq, hxs, hι hij]
    | methodCall hxs hij =>
      have hxs := hall (by simp [Node.children]) hxs
      simp only [Node.mapInfo, Node.mapInfoAll_eq, hid, hxs, hι hij]

end View

end LarkPhp
