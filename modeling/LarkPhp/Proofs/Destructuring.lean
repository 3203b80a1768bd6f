import LarkPhp.Proofs.Run

/-!
Patterns taken apart.

`Pattern.Expands` says what taking patterns apart means: a name is bound to its value, and a tuple
or a table to a holder of its own, before its parts are bound to the parts of the holder.
`Pattern.Unfolds` says so too of holders that are drawn one after the other, which is what happens
(`Pattern.takes_bind`).  `Pattern.expands_bindAll` says that the holders are drawn for it.
-/

namespace LarkPhp

/-! ### Symbols of forms -/

namespace Form

mutual
/-- The symbols of a form, in order. -/
def symbols : Form → List Symbol
  | .symbol s _ => [s]
  | .tuple _ xs _ | .set xs _ | .array xs _ => symbolsAll xs
  | .table es _ => symbolsEntries es
  | _ => []

/-- The symbols of forms. -/
def symbolsAll : List Form → List Symbol
  | [] => []
  | f :: fs => f.symbols ++ symbolsAll fs

/-- The symbols of keys and values. -/
def symbolsEntries : List (Form × Form) → List Symbol
  | [] => []
  | (k, v) :: es => k.symbols ++ v.symbols ++ symbolsEntries es
end

theorem forall_symbolsAll {P : Symbol → Prop} {fs : List Form} :
    (∀ x ∈ symbolsAll fs, P x) ↔ ∀ f ∈ fs, ∀ x ∈ f.symbols, P x := by
  induction fs with
  | nil => simp [symbolsAll]
  | cons f fs ih => rw [symbolsAll, List.forall_mem_append, ih, List.forall_mem_cons]

theorem forall_symbolsEntries {P : Symbol → Prop} {es : List (Form × Form)} :
    (∀ x ∈ symbolsEntries es, P x) ↔
      ∀ e ∈ es, (∀ x ∈ e.1.symbols, P x) ∧ ∀ x ∈ e.2.symbols, P x := by
  induction es with
  | nil => simp [symbolsEntries]
  | cons e es ih =>
    rw [symbolsEntries, List.forall_mem_append, List.forall_mem_append, ih, List.forall_mem_cons]

/-- The drawn symbols of the form are among `names`. -/
def Known (names : List Symbol) (f : Form) : Prop :=
  ∀ x ∈ f.symbols, x.generated = true → x ∈ names

section Known
variable {names more : List Symbol}

theorem Known.mono {f : Form} (h : f.Known names) (hsub : ∀ x ∈ names, x ∈ more) : f.Known more :=
  fun x hx hg => hsub x (h x hx hg)

theorem known_symbol {x : Symbol} {span : Option Span} (h : x.generated = true → x ∈ names) :
    (symbol x span).Known names := by
  intro y hy hg
  cases List.mem_singleton.1 hy
  exact h hg

theorem known_tuple {d : Delimiter} {xs : List Form} {span : Option Span} :
    (tuple d xs span).Known names ↔ ∀ f ∈ xs, f.Known names := forall_symbolsAll

theorem known_set {xs : List Form} {span : Option Span} :
    (set xs span).Known names ↔ ∀ f ∈ xs, f.Known names := forall_symbolsAll

theorem known_array {xs : List Form} {span : Option Span} :
    (array xs span).Known names ↔ ∀ f ∈ xs, f.Known names := forall_symbolsAll

theorem known_table {es : List (Form × Form)} {span : Option Span} :
    (table es span).Known names ↔ ∀ e ∈ es, e.1.Known names ∧ e.2.Known names :=
  forall_symbolsEntries

end Known

end Form

namespace Pattern

/-! ### What patterns expand to -/

/-- Patterns and the parts of a holder that they are bound to, from an index on. -/
def elements (holder : Symbol) : (index : Nat) → List Form → List (Form × Form)
  | _, [] => []
  | index, p :: ps =>
    (p, access holder (.int (Int64.ofNat index))) :: elements holder (index + 1) ps

/-- Patterns and the parts of a holder that they are bound to, by their keys. -/
def entries (holder : Symbol) (es : List (Form × Form)) : List (Form × Form) :=
  es.map fun e => (e.2, access holder e.1)

/-- Whether the form is taken apart where it stands for a name. -/
def compound : Form → Bool
  | .tuple .. | .table .. => true
  | _ => false

/-- The patterns inside a pattern and the parts of its holder that they are bound to. -/
def inside (holder : Symbol) : Form → List (Form × Form)
  | .tuple _ inner _ => elements holder 0 inner
  | .table inner _ => entries holder inner
  | _ => []

/-- Patterns with their values, the bindings of plain symbols that they stand for, and the holders
among these.  The holders are drawn symbols that differ from each other. -/
inductive Expands : List (Form × Form) → List (Symbol × Form) → List Symbol → Prop
  | nil : Expands [] [] []
  | name {n span value pairs flat holders} :
    n.isPlain "&" = false → Expands pairs flat holders →
    Expands ((.symbol n span, value) :: pairs) ((n, value) :: flat) holders
  | tuple {d inner span value pairs holder flat holders} :
    holder.generated = true → holder ∉ holders →
    Expands (elements holder 0 inner ++ pairs) flat holders →
    Expands ((.tuple d inner span, value) :: pairs) ((holder, value) :: flat) (holder :: holders)
  | table {inner span value pairs holder flat holders} :
    holder.generated = true → holder ∉ holders →
    Expands (entries holder inner ++ pairs) flat holders →
    Expands ((.table inner span, value) :: pairs) ((holder, value) :: flat) (holder :: holders)

/-- The value of every binding mentions only drawn symbols among `names` and the names bound before
it. -/
def Supplied (names : List Symbol) : List (Symbol × Form) → Prop
  | [] => True
  | (n, value) :: flat => value.Known names ∧ Supplied (n :: names) flat

theorem Supplied.mono {names more : List Symbol} (hsub : ∀ x ∈ names, x ∈ more)
    {flat : List (Symbol × Form)} (h : Supplied names flat) : Supplied more flat := by
  induction flat generalizing names more with
  | nil => trivial
  | cons e flat ih =>
    refine ⟨h.1.mono hsub, ih ?_ h.2⟩
    exact List.forall_mem_cons.2 ⟨List.mem_cons_self, fun x hx => List.mem_cons_of_mem _ (hsub x hx)⟩

section Expands
variable {names : List Symbol} {pairs : List (Form × Form)} {flat : List (Symbol × Form)}
  {holders : List Symbol}

theorem known_access {holder : Symbol} {key : Form} (hh : holder ∈ names) (hk : key.Known names) :
    (access holder key).Known names := by
  unfold access Form.parens
  rw [Form.known_tuple]
  intro f hf
  simp only [List.mem_cons, List.not_mem_nil, or_false] at hf
  rcases hf with rfl | rfl | rfl
  · exact Form.known_symbol (by simp)
  · exact Form.known_symbol fun _ => hh
  · exact hk

theorem known_elements {holder : Symbol} {inner : List Form} (hh : holder ∈ names)
    (h : ∀ p ∈ inner, p.Known names) (index : Nat) :
    ∀ e ∈ elements holder index inner, e.1.Known names ∧ e.2.Known names := by
  induction inner generalizing index with
  | nil => simp [elements]
  | cons p ps ih =>
    obtain ⟨hp, hps⟩ := List.forall_mem_cons.1 h
    refine List.forall_mem_cons.2 ⟨⟨hp, known_access hh ?_⟩, ih hps (index + 1)⟩
    intro x hx
    cases hx

theorem known_entries {holder : Symbol} {inner : List (Form × Form)} (hh : holder ∈ names)
    (h : ∀ e ∈ inner, e.1.Known names ∧ e.2.Known names) :
    ∀ e ∈ entries holder inner, e.1.Known names ∧ e.2.Known names := by
  refine List.forall_mem_map.2 fun e he => ?_
  exact ⟨(h e he).2, known_access hh (h e he).1⟩

theorem known_pairs_mono {more : List Symbol} (hsub : ∀ x ∈ names, x ∈ more)
    (h : ∀ e ∈ pairs, e.1.Known names ∧ e.2.Known names) :
    ∀ e ∈ pairs, e.1.Known more ∧ e.2.Known more :=
  fun e he => ⟨(h e he).1.mono hsub, (h e he).2.mono hsub⟩

/-- The values are supplied in order, and drawn names are known or holders. -/
def Ordered (names : List Symbol) (flat : List (Symbol × Form)) (holders : List Symbol) : Prop :=
  Supplied names flat ∧ ∀ e ∈ flat, e.1.generated = true → e.1 ∈ names ∨ e.1 ∈ holders

theorem Ordered.cons {n : Symbol} {value : Form} {all : List Symbol}
    (h : Ordered (n :: names) flat holders) (hvalue : value.Known names)
    (hn : n.generated = true → n ∈ names ∨ n ∈ all) (hall : ∀ x ∈ holders, x ∈ all) :
    Ordered names ((n, value) :: flat) all := by
  refine ⟨⟨hvalue, h.1⟩, List.forall_mem_cons.2 ⟨hn, fun e he hg => ?_⟩⟩
  rcases h.2 e he hg with hmem | hmem
  · rcases List.mem_cons.1 hmem with heq | hmem
    · exact heq ▸ hn (heq ▸ hg)
    · exact .inl hmem
  · exact .inr (hall _ hmem)

theorem Expands.ordered (hexp : Expands pairs flat holders)
    (h : ∀ e ∈ pairs, e.1.Known names ∧ e.2.Known names) : Ordered names flat holders := by
  induction hexp generalizing names with
  | nil => exact ⟨trivial, by simp⟩
  | @name n span value pairs flat holders _ _ ih =>
    obtain ⟨⟨hp, hvalue⟩, hrest⟩ := List.forall_mem_cons.1 h
    have hrest := known_pairs_mono (fun _ => List.mem_cons_of_mem n) hrest
    exact (ih hrest).cons hvalue (fun hg => .inl (hp n (by simp [Form.symbols]) hg)) fun _ => id
  | @tuple d inner span value pairs holder flat holders _ _ _ ih =>
    obtain ⟨⟨hp, hvalue⟩, hrest⟩ := List.forall_mem_cons.1 h
    have hholder : holder ∈ holder :: names := List.mem_cons_self
    have hinner := known_elements hholder (fun p hmem =>
      (Form.known_tuple.1 hp p hmem).mono fun _ => List.mem_cons_of_mem holder) 0
    have hrest := known_pairs_mono (fun _ => List.mem_cons_of_mem holder) hrest
    exact (ih (List.forall_mem_append.2 ⟨hinner, hrest⟩)).cons hvalue
      (fun _ => .inr List.mem_cons_self) fun _ => List.mem_cons_of_mem holder
  | @table inner span value pairs holder flat holders _ _ _ ih =>
    obtain ⟨⟨hp, hvalue⟩, hrest⟩ := List.forall_mem_cons.1 h
    have hholder : holder ∈ holder :: names := List.mem_cons_self
    have hinner := known_entries hholder
      (known_pairs_mono (fun _ => List.mem_cons_of_mem holder) (Form.known_table.1 hp))
    have hrest := known_pairs_mono (fun _ => List.mem_cons_of_mem holder) hrest
    exact (ih (List.forall_mem_append.2 ⟨hinner, hrest⟩)).cons hvalue
      (fun _ => .inr List.mem_cons_self) fun _ => List.mem_cons_of_mem holder

end Expands

/-! ### What taking apart does -/

/-- Patterns with their values, and the bindings of plain symbols that they are taken apart to.  The
numbers are those of the symbols that were drawn before and after; each holder is the next one. -/
inductive Unfolds : (before : Nat) → List (Form × Form) → List (Symbol × Form) → (after : Nat) → Prop
  | nil {k} : Unfolds k [] [] k
  | name {k n span value pairs flat m} :
    n.isPlain "&" = false → Unfolds k pairs flat m →
    Unfolds k ((.symbol n span, value) :: pairs) ((n, value) :: flat) m
  | apart {k p value pairs flat m} :
    compound p = true → Unfolds (k + 1) (inside (.fresh (k + 1)) p ++ pairs) flat m →
    Unfolds k ((p, value) :: pairs) ((.fresh (k + 1), value) :: flat) m

section Unfolds
variable {k m : Nat} {pairs more : List (Form × Form)} {flat rest : List (Symbol × Form)}

theorem Unfolds.append {l : Nat} (h : Unfolds k pairs flat l) (h' : Unfolds l more rest m) :
    Unfolds k (pairs ++ more) (flat ++ rest) m := by
  induction h with
  | nil => exact h'
  | name hn _ ih => exact .name hn (ih h')
  | apart hp _ ih =>
    have hrest := ih h'
    rw [List.append_assoc] at hrest
    exact .apart hp hrest

/-- The holders are drawn one after the other, so they differ from each other. -/
theorem Unfolds.expands (h : Unfolds k pairs flat m) :
    k ≤ m ∧ ∃ holders, Expands pairs flat holders ∧
      ∀ h ∈ holders, k < h.generation ∧ h.generation ≤ m := by
  induction h with
  | nil => exact ⟨Nat.le_refl _, [], .nil, by simp⟩
  | name hn _ ih =>
    obtain ⟨hle, holders, hexp, hbounds⟩ := ih
    exact ⟨hle, holders, .name hn hexp, hbounds⟩
  | @apart k p value pairs flat m hp _ ih =>
    obtain ⟨hle, holders, hexp, hbounds⟩ := ih
    have hnew : Symbol.fresh (k + 1) ∉ holders :=
      fun hmem => absurd (hbounds _ hmem).1 (Nat.lt_irrefl _)
    refine ⟨Nat.le_of_succ_le hle, .fresh (k + 1) :: holders, ?_, List.forall_mem_cons.2 ⟨?_, ?_⟩⟩
    · cases p with
      | tuple d inner span => exact .tuple rfl hnew hexp
      | table inner span => exact .table rfl hnew hexp
      | _ => cases hp
    · exact ⟨Nat.lt_succ_self k, hle⟩
    · exact fun h hh => ⟨Nat.lt_of_succ_lt (hbounds h hh).1, (hbounds h hh).2⟩

end Unfolds

/-- From `b` to `b'` the pairs were taken apart. -/
def Takes (pairs : List (Form × Form)) (b b' : Bindings) : Prop :=
  ∃ added, b'.pairs = b.pairs ++ added ∧ Unfolds b.drawn pairs added b'.drawn

section Takes
variable {b b₁ b' : Bindings} {pairs more : List (Form × Form)}

theorem Takes.nil : Takes [] b b := ⟨[], (List.append_nil _).symm, .nil⟩

theorem Takes.append (h : Takes pairs b b₁) (h' : Takes more b₁ b') : Takes (pairs ++ more) b b' := by
  obtain ⟨added, hadded, hunfolds⟩ := h
  obtain ⟨added', hadded', hunfolds'⟩ := h'
  refine ⟨added ++ added', ?_, hunfolds.append hunfolds'⟩
  rw [hadded', hadded, List.append_assoc]

/-- A value is put into a holder, and its parts are taken from there. -/
theorem takes_hold {p value : Form} {holder : Symbol} (hp : compound p = true)
    (hold : hold value b = .ok holder b₁) (h : Takes (inside holder p) b₁ b') :
    Takes [(p, value)] b b' := by
  cases hold
  obtain ⟨added, hadded, hunfolds⟩ := h
  refine ⟨(.fresh (b.drawn + 1), value) :: added, ?_, .apart hp ?_⟩
  · rw [hadded, List.append_assoc]
    rfl
  · rw [List.append_nil]
    exact hunfolds

mutual
theorem takes_bind : ∀ {p value : Form} {b b' : Bindings}, bind p value b = .ok () b' →
    Takes [(p, value)] b b'
  | .symbol n span, value, b, b', h => by
    unfold bind at h
    split at h
    · cases h
    · next hn =>
      cases h
      exact ⟨[(n, value)], rfl, .name (Bool.eq_false_iff.2 hn) .nil⟩
  | .tuple d inner span, value, b, b', h => by
    unfold bind at h
    obtain ⟨holder, b₁, hhold, h⟩ := Analysis.bind_eq_ok.1 h
    exact takes_hold rfl hhold (takes_bindElements h)
  | .table inner span, value, b, b', h => by
    unfold bind at h
    obtain ⟨holder, b₁, hhold, h⟩ := Analysis.bind_eq_ok.1 h
    exact takes_hold rfl hhold (takes_bindEntries h)
  | .nil, _, _, _, h | .bool _, _, _, _, h | .int _, _, _, _, h | .float _, _, _, _, h
  | .str _, _, _, _, h | .keyword _, _, _, _, h | .set _ _, _, _, _, h
  | .array _ _, _, _, _, h => by
    unfold bind at h
    cases h

theorem takes_bindElements : ∀ {ps : List Form} {holder : Symbol} {index : Nat}
    {span : Option Span} {b b' : Bindings}, bindElements ps holder index span b = .ok () b' →
    Takes (elements holder index ps) b b'
  | [], _, _, _, _, _, h => by
    cases h
    exact .nil
  | p :: ps, holder, index, span, b, b', h => by
    unfold bindElements at h
    split at h
    · cases h
    · obtain ⟨_, b₁, hp, h⟩ := Analysis.bind_eq_ok.1 h
      exact (takes_bind hp).append (takes_bindElements h)

theorem takes_bindEntries : ∀ {es : List (Form × Form)} {holder : Symbol} {b b' : Bindings},
    bindEntries es holder b = .ok () b' → Takes (entries holder es) b b'
  | [], _, _, _, h => by
    cases h
    exact .nil
  | (k, p) :: es, holder, b, b', h => by
    unfold bindEntries at h
    obtain ⟨_, b₁, hp, h⟩ := Analysis.bind_eq_ok.1 h
    exact (takes_bind hp).append (takes_bindEntries h)
end

theorem takes_bindAll {pairs : List (Form × Form)} {b b' : Bindings}
    (h : bindAll pairs b = .ok () b') : Takes pairs b b' := by
  induction pairs generalizing b with
  | nil =>
    cases h
    exact .nil
  | cons pair pairs ih =>
    obtain ⟨_, b₁, hp, h⟩ := Analysis.bind_eq_ok.1 h
    exact (takes_bind hp).append (ih h)

/-- **Taking patterns apart yields what they expand to,** with holders that are drawn for it. -/
theorem expands_bindAll {pairs : List (Form × Form)} {drawn : Nat} {b : Bindings}
    (h : bindAll pairs ⟨drawn, []⟩ = .ok () b) :
    drawn ≤ b.drawn ∧ ∃ holders, Expands pairs b.pairs holders ∧
      ∀ h ∈ holders, drawn < h.generation ∧ h.generation ≤ b.drawn := by
  obtain ⟨added, hadded, hunfolds⟩ := takes_bindAll h
  rw [List.nil_append] at hadded
  rw [hadded]
  exact hunfolds.expands

end Takes

end Pattern

end LarkPhp
