import LarkPhp.Form.Hash
import LarkPhp.Proofs.Construction
import Mathlib.Data.UInt
import Mathlib.Algebra.BigOperators.Group.List.Basic

/-!
Equal forms hash equally.

What a hasher takes in of a form is determined by what the form equals (`pieces_eq_of_same`).  For sets
and tables that is a matter of matching: the elements of one are, in another order, equal to those of
the other, so their hashes are the same in another order, and a sum does not depend on the order.
-/

namespace LarkPhp.Form

variable (element : List Piece → UInt64)

/-! ### The pieces by parts -/

theorem piecesAll_eq (xs : List Form) : piecesAll element xs = xs.flatMap (pieces element) := by
  induction xs with
  | nil => rfl
  | cons x xs ih => rw [piecesAll, ih, List.flatMap_cons]

theorem sumAll_eq (xs : List Form) :
    sumAll element xs = (xs.map fun x => element (x.pieces element)).sum := by
  induction xs with
  | nil => rfl
  | cons x xs ih => rw [sumAll, ih, List.map_cons, List.sum_cons]

theorem sumEntries_eq (es : List (Form × Form)) :
    sumEntries element es =
      (es.map fun e => element (e.1.pieces element ++ e.2.pieces element)).sum := by
  induction es with
  | nil => rfl
  | cons e es ih => rw [sumEntries, ih, List.map_cons, List.sum_cons]

/-! ### Lists that match -/

/-- A function that does not tell matched values apart has the same list of values on both sides. -/
theorem map_eq_of_forall₂ {α β : Type} {R : α → α → Prop} {f : α → β} {xs ys : List α}
    (hf : ∀ x ∈ xs, ∀ y ∈ ys, R x y → f x = f y) (h : List.Forall₂ R xs ys) :
    xs.map f = ys.map f := by
  induction h with
  | nil => rfl
  | @cons x y xs ys hxy _ ih =>
    have hrest : ∀ a ∈ xs, ∀ b ∈ ys, R a b → f a = f b := fun a ha b hb =>
      hf a (List.mem_cons_of_mem _ ha) b (List.mem_cons_of_mem _ hb)
    rw [List.map_cons, List.map_cons, hf x List.mem_cons_self y List.mem_cons_self hxy, ih hrest]

/-- Lists of one length, the left one without repeats and with a partner on the right for all it
holds, have the same sum of values. -/
theorem sum_eq_of_partners {α : Type} {R : α → α → Prop} {P : α → Prop} (h : Lawful R P)
    {f : α → UInt64} {xs ys : List α} (hx : ∀ x ∈ xs, P x) (hy : ∀ y ∈ ys, P y)
    (hf : ∀ x ∈ xs, ∀ y ∈ ys, R x y → f x = f y) (hlen : xs.length = ys.length)
    (hall : ∀ x ∈ xs, ∃ y ∈ ys, R x y) (hdistinct : xs.Pairwise fun a b => ¬ R a b) :
    (xs.map f).sum = (ys.map f).sum := by
  obtain ⟨zs, hperm, hmatch⟩ := exists_perm_forall₂ hlen hall (h.apart hx hy hdistinct)
  have hmap : xs.map f = zs.map f :=
    map_eq_of_forall₂ (fun x hx z hz => hf x hx z (hperm.mem_iff.1 hz)) hmatch
  rw [hmap]
  exact (hperm.map f).sum_eq

/-! ### Equal forms -/

theorem piecesAll_eq_of_forall₂ {xs ys : List Form}
    (hpieces : ∀ x ∈ xs, ∀ y ∈ ys, Same x y → x.pieces element = y.pieces element)
    (hxy : List.Forall₂ Same xs ys) : piecesAll element xs = piecesAll element ys := by
  rw [piecesAll_eq, piecesAll_eq, List.flatMap_def, List.flatMap_def, map_eq_of_forall₂ hpieces hxy]

theorem pieces_eq_of_same {a b : Form} (ha : a.Proper) (hb : b.Proper) (hab : Same a b) :
    a.pieces element = b.pieces element := by
  -- on the form on the left; the parts of both sides are matched by the definition of equality
  induction ha generalizing b with
  | scalar h =>
    cases same_iff_level.1 hab with
    | scalar => rfl
    | _ => cases h
  | symbol =>
    cases same_iff_level.1 hab with
    | scalar h => cases h
    | symbol => rfl
  | @tuple d xs p hx ih =>
    cases same_iff_level.1 hab with
    | scalar h => cases h
    | @tuple _ _ _ ys _ _ hxy =>
      have hy := proper_tuple_iff.1 hb
      have hall := piecesAll_eq_of_forall₂ element (fun x hx y hmem => ih x hx (hy y hmem)) hxy
      rw [pieces, pieces, hall, hxy.length_eq]
  | @array xs p hx ih =>
    cases same_iff_level.1 hab with
    | scalar h => cases h
    | @array _ ys _ _ hxy =>
      have hy := proper_array_iff.1 hb
      have hall := piecesAll_eq_of_forall₂ element (fun x hx y hmem => ih x hx (hy y hmem)) hxy
      rw [pieces, pieces, hall, hxy.length_eq]
  | @set xs p hx hdistinct ih =>
    cases same_iff_level.1 hab with
    | scalar h => cases h
    | @set _ ys _ _ hlen hxy =>
      have hy := (proper_set_iff.1 hb).1
      have hsum := sum_eq_of_partners lawful_proper (f := fun x => element (x.pieces element)) hx hy
        (fun x hx y hmem hsame => congrArg element (ih x hx (hy y hmem) hsame)) hlen hxy hdistinct
      rw [pieces, pieces, sumAll_eq, sumAll_eq, hsum, hlen]
  | @table ds p hk hv hdistinct ihk ihv =>
    cases same_iff_level.1 hab with
    | scalar h => cases h
    | @table _ es _ _ hlen hfound =>
      have hd : Entries ds := ⟨hk, hv, hdistinct⟩
      have he := proper_table_iff.1 hb
      have hpartners := (lookups_iff lawful_proper hd.1 he.1 he.2.2).1 hfound
      have hsum := sum_eq_of_partners (lawful_entries lawful_proper)
        (f := fun e => element (e.1.pieces element ++ e.2.pieces element))
        (fun d hmem => ⟨hk d hmem, hv d hmem⟩) (fun e hmem => ⟨he.1 e hmem, he.2.1 e hmem⟩)
        (fun d hd e hmem hsame => by
          rw [ihk d hd (he.1 e hmem) hsame.1, ihv d hd (he.2.1 e hmem) hsame.2])
        hlen hpartners (hdistinct.imp fun hne hsame => hne hsame.1)
      rw [pieces, pieces, sumEntries_eq, sumEntries_eq, hsum, hlen]

/-! ### The laws -/

/-- How a hasher takes in forms, with another one for the elements of sets and the entries of tables.
Whatever state it is in, equal forms change it in the same way. -/
structure HashLaws {σ τ : Type} (element : Hasher τ) (h : Hasher σ) : Prop where
  equal {a b : Form} : a.Built → b.Built → (a == b) = true →
    a.hash element h = b.hash element h ∧ ∀ state, a.feed element h state = b.feed element h state
  symbols (s : Symbol) (p : Option Span) (state : σ) :
    (symbol s p).feed element h state =
      h.take (h.take (match s.qualifier with
        | none => h.take (h.take state (.tag 6)) (.tag 0)
        | some home => h.take (h.take (h.take state (.tag 6)) (.tag 1)) (.text home))
        (.text s.name)) (.word (UInt64.ofNat s.generation))
  tuples (d : Delimiter) (xs : List Form) (p : Option Span) (state : σ) :
    (tuple d xs p).feed element h state =
      xs.foldl (fun state x => x.feed element h state)
        (h.take (h.take state (.tag 7)) (.size xs.length))
  arrays (xs : List Form) (p : Option Span) (state : σ) :
    (array xs p).feed element h state =
      xs.foldl (fun state x => x.feed element h state)
        (h.take (h.take state (.tag 10)) (.size xs.length))
  sets (xs : List Form) (p : Option Span) (state : σ) :
    (set xs p).feed element h state =
      h.take (h.take (h.take state (.tag 9)) (.size xs.length))
        (.word (xs.map (hash element element)).sum)
  tables (es : List (Form × Form)) (p : Option Span) (state : σ) :
    (table es p).feed element h state =
      h.take (h.take (h.take state (.tag 8)) (.size es.length))
        (.word (es.map fun e => element.finish
          (e.2.feed element element (e.1.feed element element element.start))).sum)

/-- **Equal forms hash equally**, whatever the hashers. -/
theorem hashLaws {σ τ : Type} (element : Hasher τ) (h : Hasher σ) : HashLaws element h where
  equal {a b} ha hb hab := by
    have hpieces := pieces_eq_of_same element.digest ha.proper hb.proper hab
    unfold hash feed
    rw [hpieces]
    exact ⟨rfl, fun _ => rfl⟩
  symbols s p state := by
    unfold feed
    rw [pieces, symbolPieces]
    cases s.qualifier with
    | none => rfl
    | some home => rfl
  tuples d xs p state := by
    unfold feed
    rw [pieces, piecesAll_eq, List.foldl_cons, List.foldl_cons, List.foldl_flatMap]
  arrays xs p state := by
    unfold feed
    rw [pieces, piecesAll_eq, List.foldl_cons, List.foldl_cons, List.foldl_flatMap]
  sets xs p state := by
    unfold feed
    rw [pieces, sumAll_eq]
    rfl
  tables es p state := by
    unfold feed
    rw [pieces, sumEntries_eq]
    simp only [Hasher.digest, List.foldl_append]
    rfl

/-- Sets in sets, in other orders. -/
example : (Form.set [.set [.int 1, .int 2] none, .parens []] none).hash .multiplicative .multiplicative =
    (Form.set [.brackets [], .set [.int 2, .int 1] none] none).hash .multiplicative .multiplicative := by
  decide +kernel

end LarkPhp.Form
