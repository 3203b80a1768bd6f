import LarkPhp.Proofs.Decision
import LarkPhp.Proofs.Destructuring

/-!
Bodies behind patterns.

A run takes patterns apart and binds holders for their values, and a derivation binds patterns as
they stand.  The two agree: the run binds more names than the derivation knows of, but these are
drawn for it, so they are numbered higher than all symbols of the form.
-/

namespace LarkPhp

namespace Form

/-- The symbols of the form are written, or were among the first `k` that were drawn. -/
def UpTo (k : Nat) (f : Form) : Prop := ∀ x ∈ f.symbols, x.generation ≤ k

/-- A form of at most a height, whose symbols are among the first `k`. -/
structure Fits (bound k : Nat) (f : Form) : Prop where
  height : f.height ≤ bound
  upTo : f.UpTo k

section Fits
variable {bound k : Nat} {f g : Form}

theorem Fits.height_lt (h : f.Fits bound k) (hg : g ∈ f.parts) : g.height < bound :=
  Nat.lt_of_lt_of_le (height_lt_of_mem_parts hg) h.height

theorem Fits.part (h : f.Fits (bound + 1) k) (hg : g ∈ f.parts) : g.Fits bound k := by
  refine ⟨Nat.le_of_lt_succ (h.height_lt hg), fun x hx => ?_⟩
  exact h.upTo x (mem_symbols_of_part hg hx)

theorem Fits.inside (h : f.Fits bound k) (hg : g ∈ f.parts) : g.Fits bound k :=
  Fits.part ⟨Nat.le_succ_of_le h.height, h.upTo⟩ hg

end Fits

end Form

namespace Pattern

/-! ### Patterns that can be taken apart -/

theorem bindAll_append (xs ys : List (Form × Form)) :
    bindAll (xs ++ ys) = bindAll xs >>= fun _ => bindAll ys := by
  induction xs with
  | nil => rfl
  | cons x xs ih =>
    obtain ⟨p, value⟩ := x
    rw [List.cons_append, bindAll, bindAll, ih, bind_assoc]

theorem bindEntries_eq (es : List (Form × Form)) (holder : Symbol) :
    bindEntries es holder = bindAll (entries holder es) := by
  induction es with
  | nil => rfl
  | cons e es ih =>
    obtain ⟨k, p⟩ := e
    rw [bindEntries, ih]
    rfl

/-- Elements are bound like patterns of their own; a rest marker is none. -/
theorem bindElements_eq_ok {ps : List Form} {holder : Symbol} {index : Nat} {p : Option Span}
    {b b' : Bindings} (h : bindAll (elements holder index ps) b = .ok () b') :
    bindElements ps holder index p b = .ok () b' := by
  induction ps generalizing index b with
  | nil => exact h
  | cons f ps ih =>
    obtain ⟨_, b₁, hf, hrest⟩ := Analysis.bind_eq_ok.1 h
    unfold bindElements
    split
    · next hmarker =>
      cases f with
      | symbol x q =>
        have hx : x.isPlain "&" = true := hmarker
        unfold bind at hf
        rw [if_pos hx] at hf
        cases hf
      | _ => cases hmarker
    · exact Analysis.bind_eq_ok.2 ⟨(), b₁, hf, ih hrest⟩

theorem map_fst_elements (holder : Symbol) (index : Nat) (ps : List Form) :
    (elements holder index ps).map Prod.fst = ps := by
  induction ps generalizing index with
  | nil => rfl
  | cons p ps ih => rw [elements, List.map_cons, ih]

/-- What stands before a body can be taken apart. -/
theorem bindAll_of_scoped {J : Language.Judgement} {ws : List (Option Form × Form)}
    {body : List Form} {L : Set Symbol} {D D' : Language.Definitions}
    (h : Language.Scoped J ws body L D D') {pairs : List (Form × Form)}
    (hpairs : pairs.map Prod.fst = ws.map Prod.snd) (b : Bindings) :
    ∃ b', bindAll pairs b = .ok () b' := by
  induction h generalizing pairs b with
  | body =>
    cases List.map_eq_nil_iff.1 hpairs
    exact ⟨b, rfl⟩
  | @name before x q rest body L D D₁ D' hx _ _ ih =>
    obtain ⟨⟨p, value⟩, pairs, rfl, rfl, hrest⟩ := List.map_eq_cons_iff.1 hpairs
    obtain ⟨b', hb'⟩ := ih hrest { b with pairs := b.pairs ++ [(x, value)] }
    refine ⟨b', Analysis.bind_eq_ok.2 ⟨(), _, ?_, hb'⟩⟩
    unfold bind
    rw [hx]
    rfl
  | @tuple before d ps q rest body L D D₁ D' _ _ ih =>
    obtain ⟨⟨p, value⟩, pairs, rfl, rfl, hrest⟩ := List.map_eq_cons_iff.1 hpairs
    -- the value goes into a holder, and its parts are bound like patterns before the others
    have hinner : (elements (.fresh (b.drawn + 1)) 0 ps ++ pairs).map Prod.fst =
        (ps.map (none, ·) ++ rest).map Prod.snd := by
      rw [List.map_append, List.map_append, hrest, map_fst_elements, List.map_map]
      exact congrArg (· ++ _) (List.map_id ps).symm
    obtain ⟨b', hb'⟩ := ih hinner ⟨b.drawn + 1, b.pairs ++ [(.fresh (b.drawn + 1), value)]⟩
    rw [bindAll_append] at hb'
    obtain ⟨_, b₁, helements, hb'⟩ := Analysis.bind_eq_ok.1 hb'
    refine ⟨b', Analysis.bind_eq_ok.2 ⟨(), b₁, ?_, hb'⟩⟩
    unfold bind
    exact bindElements_eq_ok helements
  | @table before es q rest body L D D₁ D' _ _ ih =>
    obtain ⟨⟨p, value⟩, pairs, rfl, rfl, hrest⟩ := List.map_eq_cons_iff.1 hpairs
    have hinner : (entries (.fresh (b.drawn + 1)) es ++ pairs).map Prod.fst =
        (es.map (fun e => (some e.1, e.2)) ++ rest).map Prod.snd := by
      rw [List.map_append, List.map_append, hrest, entries, List.map_map, List.map_map]
      rfl
    obtain ⟨b', hb'⟩ := ih hinner ⟨b.drawn + 1, b.pairs ++ [(.fresh (b.drawn + 1), value)]⟩
    rw [bindAll_append] at hb'
    obtain ⟨_, b₁, hentries, hb'⟩ := Analysis.bind_eq_ok.1 hb'
    refine ⟨b', Analysis.bind_eq_ok.2 ⟨(), b₁, ?_, hb'⟩⟩
    unfold bind
    rw [← bindEntries_eq] at hentries
    exact hentries

end Pattern

namespace Analysis

open LarkPhp.Language

/-! ### What is visible -/

/-- Of the symbols that were drawn before, the scope binds those that are visible. -/
structure Sees (home : String) (k : Nat) (scope : Scope) (L : Set Symbol) : Prop where
  home : scope.homeName = home
  locals {x : Symbol} : x.generation ≤ k → (scope.isLocal x = true ↔ x ∈ L)

/-- The inner scope binds more names. -/
structure Binds (names : List Symbol) (scope inner : Scope) : Prop where
  home : inner.homeName = scope.homeName
  locals (x : Symbol) : inner.isLocal x = true ↔ scope.isLocal x = true ∨ x ∈ names

/-- The value of a pattern, and the form that goes before the pattern in a derivation.  A part of a
holder stands for its key, if that is not an index, and a holder stands for nothing. -/
inductive Stands (k : Nat) (scope : Scope) : Form → Option Form → Prop
  | form {f} : f.UpTo k → Stands k scope f (some f)
  | holder {x} : scope.isLocal x = true → Stands k scope (.symbol x none) none
  | element {x i} : scope.isLocal x = true → Stands k scope (Pattern.access x (.int i)) none
  | entry {x key} :
    scope.isLocal x = true → key.UpTo k → Stands k scope (Pattern.access x key) (some key)

section Scopes
variable {home : String} {k : Nat} {scope mid inner : Scope} {L : Set Symbol}
  {names names' : List Symbol} {x : Symbol}

theorem Binds.trans (h : Binds names scope mid) (h' : Binds names' mid inner) :
    Binds (names ++ names') scope inner := by
  refine ⟨h'.home.trans h.home, fun x => ?_⟩
  rw [h'.locals, h.locals, List.mem_append, or_assoc]

theorem Binds.of_local (h : Binds names scope inner) (hx : scope.isLocal x = true) :
    inner.isLocal x = true := (h.locals x).2 (.inl hx)

theorem Binds.of_mem (h : Binds names scope inner) (hx : x ∈ names) : inner.isLocal x = true :=
  (h.locals x).2 (.inr hx)

theorem Binds.withContext (h : Binds names scope inner) (c : Context) :
    Binds names scope (inner.withContext c) := ⟨h.home, h.locals⟩

theorem binds_bind (scope : Scope) (names : List Symbol) : Binds names scope (scope.bind names) := by
  refine ⟨rfl, fun x => ?_⟩
  rw [Scope.isLocal_iff, Scope.isLocal_iff, Scope.mem_locals_bind]

/-- A name is bound, as a shadow variable if it is bound already. -/
theorem silent_bindName (x : Symbol) (scope : Scope) :
    Silent k (bindName x scope) fun a => Binds [x] scope a.2 := by
  unfold bindName
  split
  · next hx =>
    refine silent_fresh.bind fun var _ => silent_pure ⟨rfl, fun y => ?_⟩
    rw [List.mem_singleton]
    constructor
    · exact .inl
    · rintro (hy | rfl)
      · exact hy
      · exact hx
  · exact silent_pure (binds_bind scope [x])

theorem Sees.withContext (h : Sees home k scope L) (c : Context) :
    Sees home k (scope.withContext c) L :=
  ⟨h.home, h.locals⟩

theorem Sees.operand (h : Sees home k scope L) : Sees home k scope.operand L :=
  h.withContext .expression

/-- More names are bound, some of them visible. -/
theorem Sees.more (h : Sees home k scope L) (hinner : Binds names scope inner) {M : Set Symbol}
    (hnames : ∀ x, x.generation ≤ k → (x ∈ names ↔ x ∈ M)) : Sees home k inner (L ∪ M) := by
  refine ⟨hinner.home.trans h.home, fun {x} hx => ?_⟩
  rw [hinner.locals, h.locals hx, hnames x hx]
  rfl

theorem Sees.name (h : Sees home k scope L) (hinner : Binds [x] scope inner) :
    Sees home k inner (insert x L) := by
  rw [← Set.union_singleton]
  exact h.more hinner fun y _ => List.mem_singleton

/-- A symbol that is drawn later is bound without being visible. -/
theorem Sees.holder (h : Sees home k scope L) (hinner : Binds [x] scope inner)
    (hx : k < x.generation) : Sees home k inner L := by
  rw [← Set.union_empty L]
  refine h.more hinner fun y hy => ?_
  rw [List.mem_singleton, Set.mem_empty_iff_false, iff_false]
  rintro rfl
  exact absurd hx (Nat.not_lt.2 hy)

theorem Stands.mono {value : Form} {before : Option Form} (h : Stands k scope value before)
    (hlocal : ∀ x, scope.isLocal x = true → inner.isLocal x = true) :
    Stands k inner value before := by
  cases h with
  | form hf => exact .form hf
  | holder hx => exact .holder (hlocal _ hx)
  | element hx => exact .element (hlocal _ hx)
  | entry hx hkey => exact .entry (hlocal _ hx) hkey

end Scopes

/-! ### Patterns and bodies -/

/-- Values of at most a height are analyzed as what they stand for is derived. -/
def Visits (home core : String) (k bound : Nat) (visit : Visit) : Prop :=
  ∀ ⦃value before scope L⦄, value.height ≤ bound → Stands k scope value before →
    Sees home k scope L →
    Decides core k (visit value scope) (Sequence (Derives home core) before.toList L)

/-- A pattern with its value, and the same pattern with what goes before it. -/
structure Paired (k bound : Nat) (scope : Scope) (e : Form × Form) (w : Option Form × Form) :
    Prop where
  pattern : w.2 = e.1
  fits : e.1.Fits bound k
  stands : Stands k scope e.2 w.1
  height : e.2.height ≤ bound

section Patterns
variable {home core : String} {k bound : Nat} {visit : Visit} {scope inner : Scope}
  {L : Set Symbol} {forms : List Form} {pairs : List (Form × Form)}
  {ws : List (Option Form × Form)}

theorem Visits.form (hv : Visits home core k bound visit) {f : Form} (hf : f.Fits bound k)
    (hsees : Sees home k scope L) :
    Decides core k (visit f scope) (Derives home core f L) := by
  refine (hv hf.height (.form hf.upTo) hsees).congr fun D D' => ?_
  simp

theorem Visits.all (hv : Visits home core k bound visit) (hforms : ∀ f ∈ forms, f.Fits bound k)
    (hsees : Sees home k scope L) :
    Decides core k (all visit forms scope) (Sequence (Derives home core) forms L) :=
  decides_all fun f hf => hv.form (hforms f hf) hsees

theorem Visits.block (hv : Visits home core k bound visit) (hforms : ∀ f ∈ forms, f.Fits bound k)
    (hsees : Sees home k scope L) (p : Option Span) :
    Decides core k (block visit forms scope p) (Sequence (Derives home core) forms L) :=
  decides_block (fun f hf c => hv.form (hforms f hf) (hsees.withContext c)) p

theorem forall₂_paired_mono (hlocal : ∀ x, scope.isLocal x = true → inner.isLocal x = true)
    (h : List.Forall₂ (Paired k bound scope) pairs ws) :
    List.Forall₂ (Paired k bound inner) pairs ws :=
  h.imp fun _ _ hew =>
    ⟨hew.pattern, hew.fits, hew.stands.mono hlocal, hew.height⟩

theorem height_access (x : Symbol) (key : Form) :
    (Pattern.access x key).height = key.height + 1 := by
  have := key.height_pos
  simp only [Pattern.access, Form.parens, Form.height, Form.heightAll]
  omega

/-- The elements of a tuple are patterns for the parts of its holder. -/
theorem paired_elements {d : Delimiter} {ps : List Form} {p : Option Span} {x : Symbol}
    (hx : scope.isLocal x = true) (hfits : (Form.tuple d ps p).Fits bound k) (index : Nat) :
    List.Forall₂ (Paired k bound scope) (Pattern.elements x index ps) (ps.map (none, ·)) := by
  have hparts : ∀ q ∈ ps, q.Fits bound k ∧ q.height < bound :=
    fun q hq => ⟨hfits.inside hq, hfits.height_lt hq⟩
  clear hfits
  induction ps generalizing index with
  | nil => exact .nil
  | cons q ps ih =>
    obtain ⟨⟨hq, hlt⟩, hrest⟩ := List.forall_mem_cons.1 hparts
    refine .cons ⟨rfl, hq, .element hx, ?_⟩ (ih (index + 1) hrest)
    -- an index is no higher than the pattern at it
    rw [height_access]
    exact Nat.le_trans (Nat.succ_le_succ q.height_pos) hlt

/-- The values of a table are patterns for the parts of its holder, after their keys. -/
theorem paired_entries {es : List (Form × Form)} {p : Option Span} {x : Symbol}
    (hx : scope.isLocal x = true) (hfits : (Form.table es p).Fits bound k) :
    List.Forall₂ (Paired k bound scope) (Pattern.entries x es)
      (es.map fun e => (some e.1, e.2)) := by
  have hparts : ∀ q ∈ flatten es, q.Fits bound k ∧ q.height < bound :=
    fun q hq => ⟨hfits.inside hq, hfits.height_lt hq⟩
  clear hfits
  induction es with
  | nil => exact .nil
  | cons e es ih =>
    obtain ⟨⟨hkey, hlt⟩, hrest⟩ := List.forall_mem_cons.1 hparts
    obtain ⟨⟨hq, -⟩, hrest⟩ := List.forall_mem_cons.1 hrest
    refine .cons ⟨rfl, hq, .entry hx hkey.upTo, ?_⟩ (ih hrest)
    rw [height_access]
    exact hlt

/-- A value is analyzed and bound to a name, and what comes then is decided where the name is
bound. -/
theorem decides_bound (hv : Visits home core k bound visit) {x : Symbol} {e : Form × Form}
    {w : Option Form × Form} (hew : Paired k bound scope e w) (hsees : Sees home k scope L)
    {flat : List (Symbol × Form)} {α : Type} {next : List (Binding Node) × Scope → Analyze α}
    {R : Definitions → Definitions → Prop}
    (hnext : ∀ (b : Binding Node) inner, Binds [x] scope inner →
      Decides core k (bindValues visit flat inner >>= fun a => next (b :: a.1, a.2)) R) :
    Decides core k (bindValues visit ((x, e.2) :: flat) scope >>= next)
      fun D D' => ∃ D₁, Sequence (Derives home core) w.1.toList L D D₁ ∧ R D₁ D' := by
  have hstands : Stands k scope.operand e.2 w.1 := hew.stands.mono fun _ => id
  have hvalue := hv hew.height hstands hsees.operand
  rw [bindValues, bind_assoc]
  refine hvalue.bind fun init => ?_
  rw [bind_assoc]
  refine (silent_bindName x scope).decides fun a ha => ?_
  have hrest := hnext ⟨x, a.1, init⟩ a.2 ha
  rw [bind_assoc]
  simpa only [pure_bind] using hrest

/-- Values are bound as patterns are, and then comes what the body decides. -/
theorem decides_bindValues (hv : Visits home core k bound visit)
    {flat : List (Symbol × Form)} {holders : List Symbol}
    (hexp : Pattern.Expands pairs flat holders) (hlate : ∀ h ∈ holders, k < h.generation)
    (hws : List.Forall₂ (Paired k bound scope) pairs ws) (hsees : Sees home k scope L)
    {α : Type} {next : List (Binding Node) × Scope → Analyze α}
    (hnext : ∀ bs last L', Sees home k last L' →
      Decides core k (next (bs, last)) (Sequence (Derives home core) forms L')) :
    Decides core k (bindValues visit flat scope >>= next)
      (Scoped (Derives home core) ws forms L) := by
  -- on how the patterns expand: a holder is bound where the derivation goes on to the parts
  induction hexp generalizing scope L ws next with
  | nil =>
    cases hws
    exact (hnext [] scope L hsees).congr fun D D' => scoped_nil
  | @name x p value pairs flat holders hx _ ih =>
    obtain ⟨⟨before, pattern⟩, ws, hew, hrest, rfl⟩ := List.forall₂_cons_left_iff.1 hws
    obtain rfl : pattern = .symbol x p := hew.pattern
    have hscoped : ∀ D D', Scoped (Derives home core) ((before, .symbol x p) :: ws) forms L D D' ↔
        ∃ D₁, Sequence (Derives home core) before.toList L D D₁ ∧
          Scoped (Derives home core) ws forms (insert x L) D₁ D' := by
      intro D D'
      rw [scoped_name]
      exact and_iff_right hx
    refine (decides_bound hv hew hsees fun b inner hinner => ?_).congr hscoped
    exact ih hlate (forall₂_paired_mono (fun _ => hinner.of_local) hrest) (hsees.name hinner)
      fun bs => hnext (b :: bs)
  | @tuple d inside p value pairs x flat holders _ _ _ ih =>
    obtain ⟨⟨before, pattern⟩, ws, hew, hrest, rfl⟩ := List.forall₂_cons_left_iff.1 hws
    obtain rfl : pattern = .tuple d inside p := hew.pattern
    obtain ⟨hx, hlate⟩ := List.forall_mem_cons.1 hlate
    refine (decides_bound hv hew hsees fun b inner hinner => ?_).congr fun D D' => scoped_tuple
    have hinside := paired_elements (hinner.of_mem (List.mem_singleton.2 rfl)) hew.fits 0
    have hrest := forall₂_paired_mono (fun _ => hinner.of_local) hrest
    exact ih hlate (List.rel_append hinside hrest) (hsees.holder hinner hx)
      fun bs => hnext (b :: bs)
  | @table inside p value pairs x flat holders _ _ _ ih =>
    obtain ⟨⟨before, pattern⟩, ws, hew, hrest, rfl⟩ := List.forall₂_cons_left_iff.1 hws
    obtain rfl : pattern = .table inside p := hew.pattern
    obtain ⟨hx, hlate⟩ := List.forall_mem_cons.1 hlate
    refine (decides_bound hv hew hsees fun b inner hinner => ?_).congr fun D D' => scoped_table
    have hinside := paired_entries (hinner.of_mem (List.mem_singleton.2 rfl)) hew.fits
    have hrest := forall₂_paired_mono (fun _ => hinner.of_local) hrest
    exact ih hlate (List.rel_append hinside hrest) (hsees.holder hinner hx)
      fun bs => hnext (b :: bs)

/-- Patterns are taken apart if a derivation can bind them, and what comes then is decided for the
bindings of plain symbols. -/
theorem decides_destructure {α : Type} {next : List (Symbol × Form) → Analyze α}
    {R : Definitions → Definitions → Prop}
    (hR : ∀ D D', R D D' → ∀ b, ∃ b', Pattern.bindAll pairs b = .ok () b')
    (hnext : ∀ flat holders, Pattern.Expands pairs flat holders →
      (∀ h ∈ holders, k < h.generation) → Decides core k (next flat) R) :
    Decides core k (destructure pairs >>= next) R := by
  have hafter : ∀ {s : State} {b : Pattern.Bindings}, Steady core k s →
      Pattern.bindAll pairs ⟨s.drawn, []⟩ = .ok () b →
      Steady core k (s.drawnTo b.drawn) ∧ Decides core k (next b.pairs) R := by
    intro s b hs hb
    obtain ⟨hle, holders, hexp, hlate⟩ := Pattern.expands_bindAll hb
    refine ⟨hs.of_globals rfl hle, hnext _ holders hexp fun h hh => ?_⟩
    exact Nat.lt_of_le_of_lt hs.drawn (hlate h hh).1
  constructor
  · intro s a s' hs h
    obtain ⟨flat, s₁, hflat, h⟩ := bind_eq_ok.1 h
    obtain ⟨b, hb, rfl, rfl⟩ := Rules.destructure_sound hflat
    obtain ⟨hs₁, hdecides⟩ := hafter hs hb
    obtain ⟨hs', hD⟩ := hdecides.sound hs₁ h
    exact ⟨hs', hD⟩
  · intro s D' hs hD
    obtain ⟨b, hb⟩ := hR _ _ hD ⟨s.drawn, []⟩
    obtain ⟨hs₁, hdecides⟩ := hafter hs hb
    obtain ⟨a, s', ha, hD'⟩ := hdecides.complete hs₁ hD
    refine ⟨a, s', bind_eq_ok.2 ⟨b.pairs, s.drawnTo b.drawn, ?_, ha⟩, hD'⟩
    unfold destructure
    rw [hb]
    rfl

theorem decides_bindings (hv : Visits home core k bound visit)
    (hws : List.Forall₂ (Paired k bound scope) pairs ws)
    (hforms : ∀ f ∈ forms, f.Fits bound k) (hsees : Sees home k scope L)
    (p : Option Span) :
    Decides core k (bindings visit pairs forms scope p)
      (Scoped (Derives home core) ws forms L) := by
  refine decides_destructure (fun D D' hD => ?_) fun flat holders hexp hlate => ?_
  · have hpatterns : List.Forall₂ (· = ·) (pairs.map Prod.fst) (ws.map Prod.snd) := by
      rw [List.forall₂_map_left_iff, List.forall₂_map_right_iff]
      exact hws.imp fun _ _ hew => hew.pattern.symm
    rw [List.forall₂_eq_eq_eq] at hpatterns
    exact Pattern.bindAll_of_scoped hD hpatterns
  · refine decides_bindValues hv hexp hlate hws hsees fun bs last L' hlast => ?_
    exact (hv.block hforms (hlast.withContext _) p).push scope p

theorem decides_patternBody (hv : Visits home core k bound visit)
    (hws : List.Forall₂ (Paired k bound scope) pairs ws)
    (hforms : ∀ f ∈ forms, f.Fits bound k) (hsees : Sees home k scope L)
    (p : Option Span) :
    Decides core k (patternBody visit pairs forms scope p)
      (Scoped (Derives home core) ws forms L) := by
  unfold patternBody
  split
  · next hempty =>
    cases List.isEmpty_iff.1 hempty
    cases hws
    exact (hv.block hforms hsees p).congr fun D D' => scoped_nil
  · exact decides_bindings hv hws hforms hsees p

end Patterns

/-! ### Binders -/

/-- Variables for binders, and the patterns among the binders with the variables for them.  The
variables that are not names of binders are drawn later. -/
structure Substituted (k : Nat) (forms : List Form) (vars : List Symbol)
    (pairs : List (Form × Form)) : Prop where
  names (x : Symbol) : x.generation ≤ k → (x ∈ vars ↔ x ∈ Language.names forms)
  patterns : pairs.map Prod.fst = forms.filter (!Pattern.isPlain ·)
  values : ∀ e ∈ pairs, ∃ x ∈ vars, e.2 = .symbol x none

section Binders
variable {home core : String} {k bound : Nat} {forms more : List Form} {vars vars' : List Symbol}
  {pairs pairs' : List (Form × Form)} {scope inner : Scope} {L : Set Symbol}

theorem Substituted.append (h : Substituted k forms vars pairs)
    (h' : Substituted k more vars' pairs') :
    Substituted k (forms ++ more) (vars ++ vars') (pairs ++ pairs') := by
  refine ⟨fun x hx => ?_, ?_, ?_⟩
  · rw [List.mem_append, h.names x hx, h'.names x hx]
    simp only [mem_names, List.mem_append, or_and_right, exists_or]
  · rw [List.map_append, List.filter_append, h.patterns, h'.patterns]
  · refine List.forall_mem_append.2 ⟨fun e he => ?_, fun e he => ?_⟩
    · obtain ⟨x, hx, hvalue⟩ := h.values e he
      exact ⟨x, List.mem_append_left _ hx, hvalue⟩
    · obtain ⟨x, hx, hvalue⟩ := h'.values e he
      exact ⟨x, List.mem_append_right _ hx, hvalue⟩

theorem substituted_name {x : Symbol} {p : Option Span} (hx : x.isPlain "&" = false) :
    Substituted k [.symbol x p] [x] [] := by
  refine ⟨fun y _ => ?_, ?_, by simp⟩
  · simp only [mem_names, List.mem_singleton]
    constructor
    · rintro rfl
      exact ⟨p, rfl, hx⟩
    · rintro ⟨q, hq, -⟩
      cases hq
      rfl
  · simp [Pattern.isPlain, hx]

theorem silent_deferPattern {f : Form} (hf : Pattern.isPlain f = false) :
    Silent k (deferPattern f) fun a => Substituted k [f] [a.1] a.2 := by
  refine silent_fresh.bind fun x hx => silent_pure ⟨fun y hy => ?_, ?_, ?_⟩
  · simp only [mem_names, List.mem_singleton]
    constructor
    · rintro rfl
      exact absurd hx (Nat.not_lt.2 hy)
    · rintro ⟨q, rfl, hplain⟩
      rw [Pattern.isPlain, hplain] at hf
      cases hf
  · simp [hf]
  · intro e he
    cases List.mem_singleton.1 he
    exact ⟨x, List.mem_singleton.2 rfl, rfl⟩

theorem silent_binder (f : Form) :
    Silent k (binder f) fun a => Substituted k [f] [a.1] a.2 := by
  unfold binder
  split
  · next x p =>
    split
    · next hx => exact silent_deferPattern (by rw [Pattern.isPlain, hx]; rfl)
    · next hx => exact silent_pure (substituted_name (Bool.eq_false_iff.2 hx))
  · next hsymbol =>
    refine silent_deferPattern ?_
    unfold Pattern.isPlain
    split
    · exact absurd rfl (hsymbol _ _)
    · rfl

theorem silent_binders (forms : List Form) :
    Silent k (binders forms) fun a => Substituted k forms a.1 a.2 := by
  induction forms with
  | nil =>
    refine silent_pure ⟨fun x _ => ?_, rfl, by simp⟩
    simp [mem_names]
  | cons f fs ih =>
    refine (silent_binder f).bind fun a ha => ih.bind fun b hb => silent_pure ?_
    exact ha.append hb

/-- The patterns among binders are bound to their variables. -/
theorem Substituted.paired (h : Substituted k forms vars pairs)
    (hforms : ∀ f ∈ forms, f.Fits bound k)
    (hvars : ∀ x ∈ vars, inner.isLocal x = true) :
    List.Forall₂ (Paired k bound inner) pairs (Language.patterns forms) := by
  rw [Language.patterns, ← h.patterns, List.map_map, List.forall₂_map_right_iff, List.forall₂_same]
  intro e he
  have hmem : e.1 ∈ forms := by
    have := List.mem_map_of_mem (f := Prod.fst) he
    rw [h.patterns] at this
    exact List.mem_of_mem_filter this
  have hfits := hforms e.1 hmem
  obtain ⟨x, hx, hvalue⟩ := h.values e he
  refine ⟨rfl, hfits, ?_, ?_⟩
  · rw [hvalue]
    exact .holder (hvars x hx)
  · rw [hvalue]
    exact Nat.le_trans e.1.height_pos hfits.height

end Binders

end Analysis

end LarkPhp
