import LarkPhp.Proofs.Bindings

/-!
Access paths of patterns.

Taking a pattern apart binds holders on the way to the names.  Once every holder is replaced by the
value that it is bound to, what is left are the names of the pattern, each with the path on which
its part is reached from the value: that is `Pattern.bind_paths`.
-/

namespace LarkPhp

namespace Symbol

/-- Whether the symbol is still to be drawn, from a supply that drew some symbols. -/
def upcoming (drawn : Nat) (x : Symbol) : Bool := drawn < x.generation && x == .fresh x.generation

theorem upcoming_fresh {drawn n : Nat} : (fresh n).upcoming drawn = decide (drawn < n) := by
  simp [upcoming, fresh]

theorem generated_of_upcoming {drawn : Nat} {x : Symbol} (h : x.upcoming drawn = true) :
    x.generated = true := by
  simp only [upcoming, Bool.and_eq_true, decide_eq_true_eq] at h
  exact bne_iff_ne.2 (Nat.ne_of_gt (Nat.zero_lt_of_lt h.1))

/-- What is still to be drawn later was still to be drawn before. -/
theorem upcoming_of_le {k l : Nat} (hle : k ≤ l) {x : Symbol} (h : x.upcoming k = false) :
    x.upcoming l = false := by
  rw [← Bool.not_eq_true, upcoming, Bool.and_eq_true, decide_eq_true_eq] at h ⊢
  exact fun hx => h ⟨Nat.lt_of_le_of_lt hle hx.1, hx.2⟩

end Symbol

namespace Form

/-! ### Symbols replaced by forms -/

mutual
/-- The form with forms in the place of symbols. -/
def replace (values : Symbol → Option Form) : Form → Form
  | .symbol x span => (values x).getD (.symbol x span)
  | .tuple d fs span => .tuple d (replaceAll values fs) span
  | .table es span => .table (replaceEntries values es) span
  | .set fs span => .set (replaceAll values fs) span
  | .array fs span => .array (replaceAll values fs) span
  | scalar => scalar

/-- The forms with forms in the place of symbols. -/
def replaceAll (values : Symbol → Option Form) : List Form → List Form
  | [] => []
  | f :: fs => f.replace values :: replaceAll values fs

/-- The keys and values with forms in the place of symbols. -/
def replaceEntries (values : Symbol → Option Form) : List (Form × Form) → List (Form × Form)
  | [] => []
  | (key, f) :: es => (key.replace values, f.replace values) :: replaceEntries values es
end

/-- No symbol of the form is still to be drawn. -/
def Settled (drawn : Nat) (f : Form) : Prop := ∀ x ∈ f.symbols, x.upcoming drawn = false

section Replace
variable {values values' : Symbol → Option Form}

mutual
/-- A form sees only what stands for its own symbols. -/
theorem replace_congr : ∀ {f : Form}, (∀ x ∈ f.symbols, values x = values' x) →
    f.replace values = f.replace values'
  | .symbol x span, h => by rw [replace, replace, h x (List.mem_singleton.2 rfl)]
  | .tuple d fs span, h => by rw [replace, replace, replaceAll_congr h]
  | .table es span, h => by rw [replace, replace, replaceEntries_congr h]
  | .set fs span, h => by rw [replace, replace, replaceAll_congr h]
  | .array fs span, h => by rw [replace, replace, replaceAll_congr h]
  | .nil, _ | .bool _, _ | .int _, _ | .float _, _ | .str _, _ | .keyword _, _ => by
    rw [replace, replace] <;> simp

theorem replaceAll_congr : ∀ {fs : List Form}, (∀ x ∈ symbolsAll fs, values x = values' x) →
    replaceAll values fs = replaceAll values' fs
  | [], _ => rfl
  | f :: fs, h => by
    obtain ⟨hf, hfs⟩ := List.forall_mem_append.1 h
    rw [replaceAll, replaceAll, replace_congr hf, replaceAll_congr hfs]

theorem replaceEntries_congr : ∀ {es : List (Form × Form)},
    (∀ x ∈ symbolsEntries es, values x = values' x) →
    replaceEntries values es = replaceEntries values' es
  | [], _ => rfl
  | (key, f) :: es, h => by
    obtain ⟨he, hes⟩ := List.forall_mem_append.1 h
    obtain ⟨hkey, hf⟩ := List.forall_mem_append.1 he
    rw [replaceEntries, replaceEntries, replace_congr hkey, replace_congr hf,
      replaceEntries_congr hes]
end

mutual
theorem replace_none : ∀ f : Form, f.replace (fun _ => none) = f
  | .symbol x span => rfl
  | .tuple d fs span => by rw [replace, replaceAll_none]
  | .table es span => by rw [replace, replaceEntries_none]
  | .set fs span => by rw [replace, replaceAll_none]
  | .array fs span => by rw [replace, replaceAll_none]
  | .nil | .bool _ | .int _ | .float _ | .str _ | .keyword _ => by rw [replace] <;> simp

theorem replaceAll_none : ∀ fs : List Form, replaceAll (fun _ => none) fs = fs
  | [] => rfl
  | f :: fs => by rw [replaceAll, replace_none, replaceAll_none]

theorem replaceEntries_none : ∀ es : List (Form × Form), replaceEntries (fun _ => none) es = es
  | [] => rfl
  | (key, f) :: es => by rw [replaceEntries, replace_none, replace_none, replaceEntries_none]
end

theorem replace_eq_self {f : Form} (h : ∀ x ∈ f.symbols, values x = none) :
    f.replace values = f :=
  (replace_congr h).trans (replace_none f)

end Replace

end Form

namespace Pattern

/-! ### Positions and paths -/

/-- The form `(php/aget whole key)`. -/
def part (whole key : Form) : Form :=
  .parens [.symbol (.qualified "php" "aget") none, whole, key]

/-- Whether nothing can be bound where the form stands for a name: it is the marker `&`, or neither
a symbol nor a tuple nor a table. -/
def refused : Form → Bool
  | .symbol x _ => x.isPlain "&"
  | f => !compound f

mutual
/-- What stands for names in a pattern: the pattern itself, then what does so inside it. -/
def positions : Form → List Form
  | .tuple d ps span => .tuple d ps span :: positionsAll ps
  | .table es span => .table es span :: positionsEntries es
  | p => [p]

/-- What stands for names in patterns. -/
def positionsAll : List Form → List Form
  | [] => []
  | p :: ps => positions p ++ positionsAll ps

/-- What stands for names in the values of entries. -/
def positionsEntries : List (Form × Form) → List Form
  | [] => []
  | (_, p) :: es => positions p ++ positionsEntries es
end

mutual
/-- The names of a pattern in order, each with the path to its part of what is on a path. -/
def paths : (pattern path : Form) → List (Symbol × Form)
  | .symbol x _, path => [(x, path)]
  | .tuple _ ps _, path => pathsElements path 0 ps
  | .table es _, path => pathsEntries path es
  | _, _ => []

/-- The names of patterns for the elements of what is on a path, from an index on. -/
def pathsElements (path : Form) (index : Nat) : List Form → List (Symbol × Form)
  | [] => []
  | p :: ps =>
    paths p (part path (.int (Int64.ofNat index))) ++ pathsElements path (index + 1) ps

/-- The names of patterns for the values at keys of what is on a path. -/
def pathsEntries (path : Form) : List (Form × Form) → List (Symbol × Form)
  | [] => []
  | (key, p) :: es => paths p (part path key) ++ pathsEntries path es
end

/-- The bindings of names, with every symbol that was drawn for a holder replaced by the value that
it is bound to. -/
def inlined (drawn : Nat) (values : Symbol → Option Form) :
    List (Symbol × Form) → List (Symbol × Form)
  | [] => []
  | (x, f) :: flat =>
    if x.upcoming drawn then
      inlined drawn (Function.update values x (some (f.replace values))) flat
    else (x, f.replace values) :: inlined drawn values flat

/-- What taking a pattern apart adds, from a number of drawn symbols on. -/
structure Flattened (drawn : Nat) (p v : Form) (added : List (Symbol × Form)) : Prop where
  /-- There is one binding for each position, of a drawn symbol if that is taken apart. -/
  each : added.map (·.1.upcoming drawn) = (positions p).map compound
  /-- The drawn symbols are the next ones of the supply. -/
  holders : (added.map Prod.fst).filter (·.upcoming drawn) =
    (List.range' (drawn + 1) ((positions p).countP compound)).map Symbol.fresh
  /-- A drawn symbol is bound before it is used. -/
  bound {before after : List (Symbol × Form)} {x : Symbol} {f : Form} :
    added = before ++ (x, f) :: after →
    ∀ y ∈ f.symbols, y.upcoming drawn = true → y ∈ before.map Prod.fst
  /-- The names are bound to their parts of the value. -/
  leaves : inlined drawn (fun _ => none) added = paths p v

/-! ### When a pattern is refused -/

/-- The bindings are made, whatever was bound before, if and only if `P` holds. -/
def SucceedsIff (m : Binder Unit) (P : Prop) : Prop := ∀ b, (∃ b', m b = .ok () b') ↔ P

section Refused
variable {m m' : Binder Unit} {P Q : Prop}

theorem succeedsIff_refuse {fault : Fault} {span : Option Span} (h : ¬P) :
    SucceedsIff (refuse fault span) P :=
  fun _ => ⟨fun ⟨_, hb⟩ => (nomatch hb), fun hP => absurd hP h⟩

theorem succeedsIff_nil {P : Form → Prop} : SucceedsIff (pure ()) (∀ q ∈ [], P q) :=
  fun b => ⟨fun _ _ => nofun, fun _ => ⟨b, rfl⟩⟩

theorem SucceedsIff.append {ps qs : List Form} {P : Form → Prop}
    (h : SucceedsIff m (∀ q ∈ ps, P q)) (h' : SucceedsIff m' (∀ q ∈ qs, P q)) :
    SucceedsIff (m >>= fun _ => m') (∀ q ∈ ps ++ qs, P q) := by
  intro b
  rw [List.forall_mem_append]
  constructor
  · rintro ⟨b', hb'⟩
    obtain ⟨_, b₁, hm, hm'⟩ := Analysis.bind_eq_ok.1 hb'
    exact ⟨(h b).1 ⟨b₁, hm⟩, (h' b₁).1 ⟨b', hm'⟩⟩
  · rintro ⟨hP, hQ⟩
    obtain ⟨b₁, hm⟩ := (h b).2 hP
    obtain ⟨b', hm'⟩ := (h' b₁).2 hQ
    exact ⟨b', Analysis.bind_eq_ok.2 ⟨(), b₁, hm, hm'⟩⟩

/-- A value can always be put into a holder. -/
theorem succeedsIff_hold {value p : Form} {ps : List Form} {parts : Symbol → Binder Unit}
    (hp : refused p = false) (h : ∀ holder, SucceedsIff (parts holder) (∀ q ∈ ps, refused q = false)) :
    SucceedsIff (hold value >>= parts) (∀ q ∈ p :: ps, refused q = false) := by
  intro b
  rw [List.forall_mem_cons, and_iff_right hp]
  exact h _ _

mutual
theorem succeedsIff_bind : ∀ (p value : Form),
    SucceedsIff (bind p value) (∀ q ∈ positions p, refused q = false)
  | .symbol x span, value => by
    unfold bind
    split
    · next hx => exact succeedsIff_refuse fun h => absurd hx (by simpa [positions, refused] using h)
    · next hx =>
      have hall : ∀ q ∈ positions (.symbol x span), refused q = false := by
        simpa [positions, refused] using hx
      exact fun b => ⟨fun _ => hall, fun _ => ⟨_, rfl⟩⟩
  | .tuple d ps span, value => by
    unfold bind positions
    exact succeedsIff_hold rfl fun holder => succeedsIff_bindElements ps holder 0 span
  | .table es span, value => by
    unfold bind positions
    exact succeedsIff_hold rfl fun holder => succeedsIff_bindEntries es holder
  | .nil, _ | .bool _, _ | .int _, _ | .float _, _ | .str _, _ | .keyword _, _ | .set _ _, _
  | .array _ _, _ => by
    unfold bind
    exact succeedsIff_refuse (by simp [positions, refused, compound])

theorem succeedsIff_bindElements : ∀ (ps : List Form) (holder : Symbol) (index : Nat)
    (span : Option Span),
    SucceedsIff (bindElements ps holder index span) (∀ q ∈ positionsAll ps, refused q = false)
  | [], _, _, _ => succeedsIff_nil
  | p :: ps, holder, index, span => by
    unfold bindElements positionsAll
    split
    · next hmarker =>
      refine succeedsIff_refuse fun h => ?_
      cases p with
      | symbol x q =>
        have hx : x.isPlain "&" = false := (List.forall_mem_append.1 h).1 _ List.mem_cons_self
        rw [Form.isRestMarker, hx] at hmarker
        cases hmarker
      | _ => cases hmarker
    · exact (succeedsIff_bind p _).append (succeedsIff_bindElements ps holder (index + 1) span)

theorem succeedsIff_bindEntries : ∀ (es : List (Form × Form)) (holder : Symbol),
    SucceedsIff (bindEntries es holder) (∀ q ∈ positionsEntries es, refused q = false)
  | [], _ => succeedsIff_nil
  | (key, p) :: es, holder => by
    unfold bindEntries positionsEntries
    exact (succeedsIff_bind p _).append (succeedsIff_bindEntries es holder)
end

/-- A pattern is refused if something in it cannot be bound, and only then. -/
theorem bind_error_iff (p value : Form) (b : Bindings) :
    (∃ e b', bind p value b = .error e b') ↔ ∃ q ∈ positions p, refused q = true := by
  have hok := succeedsIff_bind p value b
  cases hrun : bind p value b with
  | ok a b' =>
    have hall := hok.1 ⟨b', hrun⟩
    refine ⟨fun ⟨_, _, h⟩ => (nomatch h), fun ⟨q, hq, hrefused⟩ => ?_⟩
    rw [hall q hq] at hrefused
    cases hrefused
  | error e b' =>
    refine ⟨fun _ => ?_, fun _ => ⟨e, b', rfl⟩⟩
    by_contra hnone
    obtain ⟨b₁, hb₁⟩ := hok.2 fun q hq => by
      rw [← Bool.not_eq_true]
      exact fun hrefused => hnone ⟨q, hq, hrefused⟩
    rw [hrun] at hb₁
    cases hb₁

end Refused

/-! ### What is bound -/

theorem positionsAll_eq (ps : List Form) : positionsAll ps = ps.flatMap positions := by
  induction ps with
  | nil => rfl
  | cons p ps ih => rw [positionsAll, ih, List.flatMap_cons]

theorem positionsEntries_eq (es : List (Form × Form)) :
    positionsEntries es = es.flatMap (positions ·.2) := by
  induction es with
  | nil => rfl
  | cons e es ih => rw [positionsEntries, ih, List.flatMap_cons]

theorem positions_of_compound (holder : Symbol) {p : Form} (hp : compound p = true) :
    positions p = p :: (inside holder p).flatMap (positions ·.1) := by
  cases p with
  | tuple d ps span =>
    have hinside := List.flatMap_map Prod.fst positions (elements holder 0 ps)
    rw [map_fst_elements] at hinside
    rw [positions, positionsAll_eq, inside, hinside]
  | table es span => rw [positions, positionsEntries_eq, inside, entries, List.flatMap_map]
  | _ => cases hp

section Settled
variable {drawn k : Nat}

theorem settled_of_le {f : Form} (hle : drawn ≤ k) (h : f.Settled drawn) : f.Settled k :=
  fun x hx => Symbol.upcoming_of_le hle (h x hx)

theorem settled_access {holder : Symbol} {key : Form} (hholder : holder.upcoming k = false)
    (hkey : key.Settled k) : (access holder key).Settled k := by
  unfold access Form.parens Form.Settled Form.symbols
  rw [Form.forall_symbolsAll]
  simp only [List.forall_mem_cons, Form.symbols]
  exact ⟨⟨rfl, by simp⟩, ⟨hholder, by simp⟩, hkey, by simp⟩

theorem settled_elements {holder : Symbol} {ps : List Form} (hholder : holder.upcoming k = false)
    (hps : ∀ p ∈ ps, p.Settled drawn) (index : Nat) :
    ∀ e ∈ elements holder index ps, e.1.Settled drawn ∧ e.2.Settled k := by
  induction ps generalizing index with
  | nil => simp [elements]
  | cons p ps ih =>
    obtain ⟨hp, hps⟩ := List.forall_mem_cons.1 hps
    refine List.forall_mem_cons.2 ⟨⟨hp, settled_access hholder ?_⟩, ih hps (index + 1)⟩
    exact fun _ hx => absurd hx List.not_mem_nil

/-- The patterns inside a pattern and their values, of symbols that were drawn. -/
theorem settled_inside {p : Form} (hp : p.Settled drawn) (hle : drawn ≤ k) :
    ∀ e ∈ inside (.fresh (k + 1)) p, e.1.Settled drawn ∧ e.2.Settled (k + 1) := by
  have hholder : (Symbol.fresh (k + 1)).upcoming (k + 1) = false := by
    simp [Symbol.upcoming_fresh]
  cases p with
  | tuple d ps span =>
    exact settled_elements hholder (Form.forall_symbolsAll.1 hp) 0
  | table es span =>
    have hes := Form.forall_symbolsEntries.1 hp
    refine List.forall_mem_map.2 fun e he => ⟨(hes e he).2, settled_access hholder ?_⟩
    exact settled_of_le (Nat.le_succ_of_le hle) (hes e he).1
  | _ => simp [inside]

end Settled

section Flat
variable {drawn k m : Nat} {pairs : List (Form × Form)} {flat : List (Symbol × Form)}

/-- One symbol is drawn for each pattern that is taken apart. -/
theorem Unfolds.count (h : Unfolds k pairs flat m) :
    m = k + (pairs.flatMap (positions ·.1)).countP compound := by
  induction h with
  | nil => rfl
  | name _ _ ih => simpa [positions, compound] using ih
  | @apart k p value pairs flat m hp _ ih =>
    rw [List.flatMap_append] at ih
    rw [List.flatMap_cons, positions_of_compound (.fresh (k + 1)) hp, List.cons_append,
      List.countP_cons_of_pos hp, ih]
    omega

/-- The patterns have no symbols that are still to be drawn after `drawn`, and the values none that
are so after `k`. -/
def Ready (drawn k : Nat) (pairs : List (Form × Form)) : Prop :=
  drawn ≤ k ∧ ∀ e ∈ pairs, e.1.Settled drawn ∧ e.2.Settled k

theorem Ready.name {n : Symbol} {span : Option Span} {value : Form}
    (h : Ready drawn k ((.symbol n span, value) :: pairs)) :
    n.upcoming drawn = false ∧ Ready drawn k pairs := by
  obtain ⟨hle, hall⟩ := h
  obtain ⟨⟨hn, -⟩, hrest⟩ := List.forall_mem_cons.1 hall
  exact ⟨hn n (List.mem_singleton.2 rfl), hle, hrest⟩

theorem Ready.apart {p value : Form} (h : Ready drawn k ((p, value) :: pairs)) :
    (Symbol.fresh (k + 1)).upcoming drawn = true ∧
      Ready drawn (k + 1) (inside (.fresh (k + 1)) p ++ pairs) := by
  obtain ⟨hle, hall⟩ := h
  obtain ⟨⟨hp, -⟩, hrest⟩ := List.forall_mem_cons.1 hall
  refine ⟨?_, Nat.le_succ_of_le hle, List.forall_mem_append.2 ⟨settled_inside hp hle, ?_⟩⟩
  · rw [Symbol.upcoming_fresh, decide_eq_true_eq]
    exact Nat.lt_succ_of_le hle
  · exact fun e he => ⟨(hrest e he).1, settled_of_le (Nat.le_succ k) (hrest e he).2⟩

/-- There is one binding for each position, and those that are taken apart have holders. -/
theorem Unfolds.each (h : Unfolds k pairs flat m) (hready : Ready drawn k pairs) :
    flat.map (·.1.upcoming drawn) = (pairs.flatMap (positions ·.1)).map compound := by
  induction h with
  | nil => rfl
  | name _ _ ih =>
    obtain ⟨hn, hready⟩ := hready.name
    rw [List.map_cons, hn, ih hready]
    rfl
  | @apart k p value pairs flat m hp _ ih =>
    obtain ⟨hholder, hready⟩ := hready.apart
    rw [List.map_cons, hholder, ih hready, List.flatMap_cons, List.flatMap_append,
      positions_of_compound (.fresh (k + 1)) hp, List.cons_append, List.map_cons, hp]

/-- The holders are the next symbols of the supply. -/
theorem Unfolds.holders (h : Unfolds k pairs flat m) (hready : Ready drawn k pairs) :
    (flat.map Prod.fst).filter (·.upcoming drawn) =
      (List.range' (k + 1) ((pairs.flatMap (positions ·.1)).countP compound)).map Symbol.fresh := by
  induction h with
  | nil => rfl
  | name _ _ ih =>
    obtain ⟨hn, hready⟩ := hready.name
    rw [List.map_cons, List.filter_cons_of_neg (by simp [hn]), ih hready]
    rfl
  | @apart k p value pairs flat m hp _ ih =>
    obtain ⟨hholder, hready⟩ := hready.apart
    rw [List.map_cons, List.filter_cons_of_pos hholder, ih hready, List.flatMap_cons,
      List.flatMap_append, positions_of_compound (.fresh (k + 1)) hp, List.cons_append,
      List.countP_cons_of_pos hp, List.range'_succ, List.map_cons]

/-! ### What the names are bound to -/

section Replaced
variable {values : Symbol → Option Form} {holder : Symbol} {path : Form}

theorem replace_access {key : Form} (hholder : values holder = some path)
    (haget : values (.qualified "php" "aget") = none) (hkey : key.replace values = key) :
    (access holder key).replace values = part path key := by
  simp [access, part, Form.parens, Form.replace, Form.replaceAll, hholder, haget, hkey]

theorem pathsElements_eq (hholder : values holder = some path)
    (haget : values (.qualified "php" "aget") = none) (index : Nat) (ps : List Form) :
    pathsElements path index ps =
      (elements holder index ps).flatMap fun e => paths e.1 (e.2.replace values) := by
  induction ps generalizing index with
  | nil => rfl
  | cons p ps ih =>
    rw [pathsElements, ih, elements, List.flatMap_cons, replace_access hholder haget]
    rw [Form.replace] <;> simp

theorem pathsEntries_eq (hholder : values holder = some path)
    (haget : values (.qualified "php" "aget") = none) {es : List (Form × Form)}
    (hkeys : ∀ e ∈ es, e.1.replace values = e.1) :
    pathsEntries path es =
      (entries holder es).flatMap fun e => paths e.1 (e.2.replace values) := by
  induction es with
  | nil => rfl
  | cons e es ih =>
    obtain ⟨hkey, hkeys⟩ := List.forall_mem_cons.1 hkeys
    rw [pathsEntries, ih hkeys, ← replace_access hholder haget hkey]
    rfl

/-- What is reached through a holder is reached through what stands for the holder. -/
theorem paths_of_compound (hvalues : ∀ x, x.upcoming drawn = false → values x = none)
    (hholder : values holder = some path) {p : Form} (hp : p.Settled drawn)
    (hcompound : compound p = true) :
    paths p path = (inside holder p).flatMap fun e => paths e.1 (e.2.replace values) := by
  have haget : values (.qualified "php" "aget") = none := hvalues _ rfl
  cases p with
  | tuple d ps span => exact pathsElements_eq hholder haget 0 ps
  | table es span =>
    refine pathsEntries_eq hholder haget fun e he => Form.replace_eq_self fun x hx => ?_
    exact hvalues x ((Form.forall_symbolsEntries.1 hp e he).1 x hx)
  | _ => cases hcompound

end Replaced

theorem Unfolds.inlined {values : Symbol → Option Form} (h : Unfolds k pairs flat m)
    (hready : Ready drawn k pairs) (hvalues : ∀ x, x.upcoming drawn = false → values x = none) :
    inlined drawn values flat = pairs.flatMap fun e => paths e.1 (e.2.replace values) := by
  induction h generalizing values with
  | nil => rfl
  | name _ _ ih =>
    obtain ⟨hn, hready⟩ := hready.name
    rw [Pattern.inlined, if_neg (by simp [hn]), ih hready hvalues]
    rfl
  | @apart k p value pairs flat m hp _ ih =>
    obtain ⟨⟨hsettled, -⟩, hrest⟩ := List.forall_mem_cons.1 hready.2
    obtain ⟨hholder, hready⟩ := hready.apart
    let values' := Function.update values (.fresh (k + 1)) (some (value.replace values))
    have hvalues' : ∀ x, x.upcoming drawn = false → values' x = none := by
      intro x hx
      have hne : x ≠ .fresh (k + 1) := by
        rintro rfl
        rw [hholder] at hx
        cases hx
      rw [← hvalues x hx]
      exact Function.update_of_ne hne _ _
    rw [Pattern.inlined, if_pos hholder, ih hready hvalues', List.flatMap_append, List.flatMap_cons,
      paths_of_compound hvalues' (Function.update_self _ _ _) hsettled hp]
    -- the values of the other patterns do not mention the new holder
    refine congrArg (_ ++ ·) (List.flatMap_congr fun e he => ?_)
    refine congrArg (paths e.1) (Form.replace_congr fun x hx => Function.update_of_ne ?_ _ _)
    rintro rfl
    have hlate := (hrest e he).2 _ hx
    simp [Symbol.upcoming_fresh] at hlate

end Flat

/-! ### Holders before their uses -/

theorem Supplied.bound {names : List Symbol} {before after : List (Symbol × Form)} {x : Symbol}
    {f : Form} (h : Supplied names (before ++ (x, f) :: after)) {y : Symbol} (hy : y ∈ f.symbols)
    (hgenerated : y.generated = true) : y ∈ names ∨ y ∈ before.map Prod.fst := by
  induction before generalizing names with
  | nil => exact .inl (h.1 y hy hgenerated)
  | cons e before ih =>
    rw [List.map_cons, List.mem_cons]
    rcases ih h.2 with hnames | hbefore
    · rcases List.mem_cons.1 hnames with heq | hmem
      · exact .inr (.inl heq)
      · exact .inl hmem
    · exact .inr (.inr hbefore)

theorem Unfolds.bound {drawn m : Nat} {p v : Form} {before after : List (Symbol × Form)}
    {x : Symbol} {f : Form} (h : Unfolds drawn [(p, v)] (before ++ (x, f) :: after) m)
    (hp : p.Settled drawn) (hv : v.Settled drawn) :
    ∀ y ∈ f.symbols, y.upcoming drawn = true → y ∈ before.map Prod.fst := by
  intro y hy hupcoming
  obtain ⟨-, holders, hexp, -⟩ := h.expands
  -- what the pattern and the value mention themselves needs no binding
  have hordered : Ordered (p.symbols ++ v.symbols) (before ++ (x, f) :: after) holders := by
    refine hexp.ordered (List.forall_mem_singleton.2 ⟨fun z hz _ => ?_, fun z hz _ => ?_⟩)
    · exact List.mem_append_left _ hz
    · exact List.mem_append_right _ hz
  rcases hordered.1.bound hy (Symbol.generated_of_upcoming hupcoming) with hown | hbefore
  · have hsettled : y.upcoming drawn = false := by
      rcases List.mem_append.1 hown with hmem | hmem
      · exact hp y hmem
      · exact hv y hmem
    rw [hsettled] at hupcoming
    cases hupcoming
  · exact hbefore

/-- **A pattern is refused exactly for what cannot be bound in it, and otherwise binds each of its
names to the path of its part.**  One symbol is drawn for each pattern inside that is taken apart. -/
theorem bind_paths {p v : Form} {b : Bindings} (hp : p.Settled b.drawn) (hv : v.Settled b.drawn) :
    ((∃ e b', bind p v b = .error e b') ↔ ∃ q ∈ positions p, refused q = true) ∧
    ∀ b', bind p v b = .ok () b' →
      b'.drawn = b.drawn + (positions p).countP compound ∧
      ∃ added, b'.pairs = b.pairs ++ added ∧ Flattened b.drawn p v added := by
  refine ⟨bind_error_iff p v b, fun b' hrun => ?_⟩
  obtain ⟨added, hadded, hunfolds⟩ := takes_bind hrun
  have hready : Ready b.drawn b.drawn [(p, v)] :=
    ⟨Nat.le_refl _, List.forall_mem_singleton.2 ⟨hp, hv⟩⟩
  have hpositions : [(p, v)].flatMap (positions ·.1) = positions p := List.flatMap_singleton _ _
  have hcount := hunfolds.count
  have heach := hunfolds.each hready
  have hholders := hunfolds.holders hready
  rw [hpositions] at hcount heach hholders
  refine ⟨hcount, added, hadded, heach, hholders, ?_, ?_⟩
  · rintro before after x f rfl
    exact hunfolds.bound hp hv
  · rw [hunfolds.inlined hready fun _ _ => rfl, List.flatMap_singleton, Form.replace_none]

/-- The pattern `[a [b c] {:k x}]` and a symbol that was drawn before. -/
theorem bind_paths_nested :
    let p : Form := .brackets [.name "a", .brackets [.name "b", .name "c"],
      .table [(.keyword "k", .name "x")] none]
    let v : Form := .symbol (.fresh 1) none
    p.Settled 2 ∧ v.Settled 2 ∧ ∃ b', bind p v ⟨2, []⟩ = .ok () b' ∧ b'.drawn = 5 ∧
      (∃ added, b'.pairs = [] ++ added ∧ Flattened 2 p v added) ∧
      paths p v = [(.plain "a", part v (.int 0)), (.plain "b", part (part v (.int 1)) (.int 0)),
        (.plain "c", part (part v (.int 1)) (.int 1)),
        (.plain "x", part (part v (.int 2)) (.keyword "k"))] := by
  intro p v
  have hp : p.Settled 2 := by unfold Form.Settled; decide
  have hv : v.Settled 2 := by unfold Form.Settled; decide
  obtain ⟨hrefused, hpaths⟩ := bind_paths (b := ⟨2, []⟩) hp hv
  obtain ⟨hdrawn, hadded⟩ := hpaths _ rfl
  exact ⟨hp, hv, _, rfl, hdrawn, hadded, rfl⟩

end Pattern

end LarkPhp
