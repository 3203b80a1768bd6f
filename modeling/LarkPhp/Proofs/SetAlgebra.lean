import LarkPhp.Proofs.Construction
import Mathlib.Data.Finset.Card
import Mathlib.Data.Finset.SDiff

/-!
Sets of forms are finite sets of values.

What a form stands for is the class of the forms that equal it (`Form.equals`).  The elements of a set
stand for different classes, so a set is a finite set of classes (`FormSet.classes`) with an order on
it.  Equality of sets is equality of the classes, the size is their number, and the operations are those
of finite sets (`classes_union`, `classes_inter`, `classes_diff`); the laws of `setLaws` are read off
from there.  What the operations do to the order is said on the lists of elements.
-/

namespace LarkPhp

/-! ### Classes of equal forms -/

namespace Form

/-- The forms without repeats that equal a form. -/
def equals (f : Form) : Set Form := {g | g.Proper ∧ Same f g}

theorem equals_eq_iff {a b : Form} (ha : a.Proper) (hb : b.Proper) :
    a.equals = b.equals ↔ Same a b := by
  constructor
  · intro h
    have hmem : b ∈ b.equals := ⟨hb, lawful_proper.refl hb⟩
    rw [← h] at hmem
    exact hmem.2
  · intro hab
    have hba : Same b a := lawful_proper.symm ha hb hab
    ext g
    exact ⟨fun hg => ⟨hg.1, lawful_proper.trans hb ha hg.1 hba hg.2⟩,
      fun hg => ⟨hg.1, lawful_proper.trans ha hb hg.1 hab hg.2⟩⟩

section Lists
variable {xs ys : List Form} {x y : Form}

/-- The classes of the forms of a list. -/
noncomputable def classes (xs : List Form) : Finset (Set Form) := (xs.map equals).toFinset

theorem mem_classes {c : Set Form} : c ∈ classes xs ↔ ∃ x ∈ xs, x.equals = c := by
  unfold classes
  rw [List.mem_toFinset, List.mem_map]

/-- A list contains a form if the class of the form is among its classes. -/
theorem equals_mem_classes (hxs : ∀ x ∈ xs, x.Proper) (hy : y.Proper) :
    y.equals ∈ classes xs ↔ xs.contains y = true := by
  rw [mem_classes, contains_iff]
  refine exists_congr fun x => and_congr_right fun hx => ?_
  rw [eq_comm, equals_eq_iff hy (hxs x hx)]

theorem card_classes (h : Elements xs) : (classes xs).card = xs.length := by
  have hnodup : (xs.map equals).Nodup := by
    refine List.pairwise_map.2 (h.2.imp_of_mem fun {a b} ha hb hab heq => ?_)
    exact hab ((equals_eq_iff (h.1 a ha) (h.1 b hb)).1 heq)
  unfold classes
  rw [List.toFinset_card_of_nodup hnodup, List.length_map]

theorem classes_subset_iff (hxs : ∀ x ∈ xs, x.Proper) (hys : ∀ y ∈ ys, y.Proper) :
    classes xs ⊆ classes ys ↔ ∀ x ∈ xs, ys.contains x = true := by
  constructor
  · intro h x hx
    exact (equals_mem_classes hys (hxs x hx)).1 (h (mem_classes.2 ⟨x, hx, rfl⟩))
  · intro h c hc
    obtain ⟨x, hx, rfl⟩ := mem_classes.1 hc
    exact (equals_mem_classes hys (hxs x hx)).2 (h x hx)

/-- Equality of sets, which compares the sizes and looks in one direction only, is equality of the
classes. -/
theorem same_set_iff (hx : Elements xs) (hy : Elements ys) {p q : Option Span} :
    Same (.set xs p) (.set ys q) ↔ classes xs = classes ys := by
  have hsame : Same (.set xs p) (.set ys q) ↔
      xs.length = ys.length ∧ ∀ x ∈ xs, ys.contains x = true := by
    show (xs.length == ys.length && allIn xs ys) = true ↔ _
    rw [allIn_eq, Bool.and_eq_true, beq_iff_eq, List.all_eq_true]
  rw [hsame, ← classes_subset_iff hx.1 hy.1, ← card_classes hx, ← card_classes hy]
  constructor
  · rintro ⟨hcard, hsub⟩
    exact Finset.eq_of_subset_of_card_le hsub hcard.ge
  · intro h
    rw [h]
    exact ⟨rfl, Finset.Subset.refl _⟩

theorem classes_append : classes (xs ++ ys) = classes xs ∪ classes ys := by
  unfold classes
  rw [List.map_append, List.toFinset_append]

/-! ### Lists without repeats -/

theorem Elements.eraseDups_eq (h : Elements xs) : xs.eraseDups = xs := by
  induction xs with
  | nil => rfl
  | cons x xs ih =>
    obtain ⟨hx, hxs⟩ := List.forall_mem_cons.1 h.1
    obtain ⟨hfirst, hrest⟩ := List.pairwise_cons.1 h.2
    have hkept : (xs.filter fun y => !y == x) = xs := by
      refine List.filter_eq_self.2 fun y hy => ?_
      have hyx : (y == x) = false :=
        Bool.eq_false_iff.2 fun hyx => hfirst y hy (lawful_proper.symm (hxs y hy) hx hyx)
      rw [hyx]
      rfl
    rw [List.eraseDups_cons, hkept, ih ⟨hxs, hrest⟩]

theorem Elements.filter (h : Elements xs) (p : Form → Bool) : Elements (xs.filter p) :=
  h.sublist (List.filter_sublist ..)

/-- The classes of the forms that a test picks out, where the test depends on the class only. -/
theorem mem_classes_filter {p : Form → Bool} {C : Set Form → Prop}
    (hp : ∀ x ∈ xs, p x = true ↔ C x.equals) {c : Set Form} :
    c ∈ classes (xs.filter p) ↔ c ∈ classes xs ∧ C c := by
  rw [mem_classes, mem_classes]
  constructor
  · rintro ⟨x, hx, rfl⟩
    obtain ⟨hmem, hpx⟩ := List.mem_filter.1 hx
    exact ⟨⟨x, hmem, rfl⟩, (hp x hmem).1 hpx⟩
  · rintro ⟨⟨x, hmem, rfl⟩, hC⟩
    exact ⟨x, List.mem_filter.2 ⟨hmem, (hp x hmem).2 hC⟩, rfl⟩

end Lists

end Form

/-! ### The operations -/

namespace FormSet

open Form

section Operations
variable {s t : FormSet} {x y : Form}

theorem elements_of_built (hs : s.toForm.Built) : Elements s.elements := proper_set_iff.1 hs.proper

theorem contains_iff_mem_classes (hs : s.toForm.Built) (hx : x.Built) :
    s.contains x = true ↔ x.equals ∈ classes s.elements :=
  (equals_mem_classes (elements_of_built hs).1 hx.proper).symm

theorem contains_congr (hs : s.toForm.Built) (hx : x.Built) (hy : y.Built) (hxy : Same x y) :
    s.contains x = s.contains y := by
  rw [Bool.eq_iff_iff, contains_iff_mem_classes hs hx, contains_iff_mem_classes hs hy,
    (equals_eq_iff hx.proper hy.proper).2 hxy]

theorem elements_inter (hs : s.toForm.Built) (t : FormSet) :
    (s.inter t).elements = s.elements.filter t.contains := by
  show Distinct.ofList (s.elements.filter t.contains) = _
  rw [Distinct.ofList_eq, ((elements_of_built hs).filter _).eraseDups_eq]

theorem elements_diff (hs : s.toForm.Built) (t : FormSet) :
    (s.diff t).elements = s.elements.filter fun x => !t.contains x := by
  show Distinct.ofList (s.elements.filter fun x => !t.contains x) = _
  rw [Distinct.ofList_eq, ((elements_of_built hs).filter _).eraseDups_eq]

/-- What a set is extended by is what it lacks of the other one. -/
theorem elements_union (s t : FormSet) :
    (s.union t).elements = s.elements ++ (t.diff s).elements := by
  show Distinct.addAll s.elements t.elements = s.elements ++ Distinct.ofList _
  rw [Distinct.addAll_eq, Distinct.ofList_eq]
  rfl

/-- One form is put at the end as a set of one would be. -/
theorem push_eq_union (s : FormSet) (x : Form) : s.push x = s.union (ofList [x]) := rfl

section Two
variable (hs : s.toForm.Built) (ht : t.toForm.Built)
include hs ht

/-- Equality of sets that were made is equality of their classes. -/
theorem same_iff_classes :
    (s.toForm == t.toForm) = true ↔ classes s.elements = classes t.elements :=
  same_set_iff (elements_of_built hs) (elements_of_built ht)

theorem classes_inter : classes (s.inter t).elements = classes s.elements ∩ classes t.elements := by
  rw [elements_inter hs]
  ext c
  rw [Finset.mem_inter]
  refine mem_classes_filter fun x hx => ?_
  exact (equals_mem_classes (elements_of_built ht).1 ((elements_of_built hs).1 x hx)).symm

theorem classes_diff : classes (s.diff t).elements = classes s.elements \ classes t.elements := by
  rw [elements_diff hs]
  ext c
  rw [Finset.mem_sdiff]
  refine mem_classes_filter (C := fun c => c ∉ classes t.elements) fun x hx => ?_
  rw [equals_mem_classes (elements_of_built ht).1 ((elements_of_built hs).1 x hx), Bool.not_eq_true',
    ← Bool.not_eq_true]
  exact Iff.rfl

theorem classes_union : classes (s.union t).elements = classes s.elements ∪ classes t.elements := by
  rw [elements_union, classes_append, classes_diff ht hs, Finset.union_sdiff_self_eq_union]

theorem contains_union (hx : x.Built) :
    (s.union t).contains x = (s.contains x || t.contains x) := by
  rw [Bool.eq_iff_iff, Bool.or_eq_true, contains_iff_mem_classes (.union hs ht) hx,
    classes_union hs ht, Finset.mem_union, contains_iff_mem_classes hs hx,
    contains_iff_mem_classes ht hx]

theorem contains_inter (hx : x.Built) :
    (s.inter t).contains x = (s.contains x && t.contains x) := by
  rw [Bool.eq_iff_iff, Bool.and_eq_true, contains_iff_mem_classes (.inter hs ht) hx,
    classes_inter hs ht, Finset.mem_inter, contains_iff_mem_classes hs hx,
    contains_iff_mem_classes ht hx]

theorem contains_diff (hx : x.Built) :
    (s.diff t).contains x = (s.contains x && !t.contains x) := by
  rw [Bool.eq_iff_iff, Bool.and_eq_true, Bool.not_eq_true', ← Bool.not_eq_true,
    contains_iff_mem_classes (.diff hs ht) hx, classes_diff hs ht, Finset.mem_sdiff,
    contains_iff_mem_classes hs hx, contains_iff_mem_classes ht hx]

end Two

theorem contains_push (hs : s.toForm.Built) (hx : x.Built) (hy : y.Built) :
    (s.push x).contains y = (s.contains y || y == x) := by
  have hone : (ofList [x]).toForm.Built := .set (List.forall_mem_singleton.2 hx)
  rw [push_eq_union, contains_union hs hone hy]
  show (_ || [x].contains y) = _
  rw [List.contains_cons, List.contains_nil, Bool.or_false]

theorem contains_cons (hs : s.toForm.Built) (hx : x.Built) (hy : y.Built) :
    (s.cons x).contains y = (s.contains y || y == x) := by
  unfold cons
  split
  · next hin =>
    -- `x` is there already, and with it all that equals it
    cases hyx : y == x with
    | false => rw [Bool.or_false]
    | true => rw [contains_congr hs hy hx hyx, hin, Bool.true_or]
  · exact List.contains_cons.trans (Bool.or_comm _ _)

theorem ofList_append_singleton (xs : List Form) (x : Form) :
    ofList (xs ++ [x]) = (ofList xs).push x := by
  unfold ofList Distinct.ofList
  rw [Distinct.addAll_append]
  rfl

theorem contains_ofList {xs : List Form} (hxs : ∀ x ∈ xs, x.Built) (hy : y.Built) :
    (ofList xs).contains y = xs.contains y := by
  induction xs using List.reverseRecOn with
  | nil => rfl
  | append_singleton xs x ih =>
    obtain ⟨hxs, hx⟩ := List.forall_mem_append.1 hxs
    have hx : x.Built := hx x List.mem_cons_self
    rw [ofList_append_singleton, contains_push (.set hxs) hx hy, ih hxs]
    simp [List.contains_eq_any_beq]

end Operations

/-! ### Sequences of operations -/

/-- An operation on a set, with what it is given beside the set. -/
inductive Step where
  | cons (x : Form)
  | push (x : Form)
  | concat (t : FormSet)
  | union (t : FormSet)
  | inter (t : FormSet)
  | diff (t : FormSet)

/-- The set after an operation. -/
def step (s : FormSet) : Step → FormSet
  | .cons x => s.cons x
  | .push x => s.push x
  | .concat t => s.concat t
  | .union t => s.union t
  | .inter t => s.inter t
  | .diff t => s.diff t

/-- The set after operations, one after the other. -/
def run (s : FormSet) (steps : List Step) : FormSet := steps.foldl step s

namespace Step

/-- What the operation is given was made by such operations too. -/
def Made : Step → Prop
  | .cons x | .push x => x.Built
  | .concat t | .union t | .inter t | .diff t => t.toForm.Built

/-- Whether a form is in the set after the operation, by whether it was before. -/
def holds (x : Form) (before : Bool) : Step → Bool
  | .cons y | .push y => before || x == y
  | .concat t | .union t => before || t.contains x
  | .inter t => before && t.contains x
  | .diff t => before && !t.contains x

end Step

section Runs
variable {s : FormSet}

theorem built_step (hs : s.toForm.Built) {op : Step} (hop : op.Made) : (s.step op).toForm.Built := by
  cases op with
  | cons x => exact .setCons hs hop
  | push x => exact .setPush hs hop
  | concat t => exact .union hs hop
  | union t => exact .union hs hop
  | inter t => exact .inter hs hop
  | diff t => exact .diff hs hop

theorem contains_step (hs : s.toForm.Built) {op : Step} (hop : op.Made) {x : Form} (hx : x.Built) :
    (s.step op).contains x = op.holds x (s.contains x) := by
  cases op with
  | cons y => exact contains_cons hs hop hx
  | push y => exact contains_push hs hop hx
  | concat t => exact contains_union hs hop hx
  | union t => exact contains_union hs hop hx
  | inter t => exact contains_inter hs hop hx
  | diff t => exact contains_diff hs hop hx

theorem built_run (hs : s.toForm.Built) {ops : List Step} (hops : ∀ op ∈ ops, op.Made) :
    (s.run ops).toForm.Built := by
  induction ops generalizing s with
  | nil => exact hs
  | cons op ops ih =>
    obtain ⟨hop, hops⟩ := List.forall_mem_cons.1 hops
    exact ih (built_step hs hop) hops

theorem contains_run (hs : s.toForm.Built) {ops : List Step} (hops : ∀ op ∈ ops, op.Made) {x : Form}
    (hx : x.Built) :
    (s.run ops).contains x = ops.foldl (fun before op => op.holds x before) (s.contains x) := by
  induction ops generalizing s with
  | nil => rfl
  | cons op ops ih =>
    obtain ⟨hop, hops⟩ := List.forall_mem_cons.1 hops
    rw [List.foldl_cons, ← contains_step hs hop hx]
    exact ih (built_step hs hop) hops

end Runs

/-! ### The laws -/

/-- What the operations on sets come to, on sets that were made by them.  Whatever sequence of
operations a set went through, no two of its elements are equal, and what it contains is found by
going through the sequence. -/
structure Laws : Prop where
  run {xs : List Form} {ops : List Step} :
    (∀ x ∈ xs, x.Built) → (∀ op ∈ ops, op.Made) →
    ((ofList xs).run ops).toForm.Built ∧
    (((ofList xs).run ops).elements.Pairwise fun x y => (x == y) = false) ∧
    ∀ x, x.Built → ((ofList xs).run ops).contains x =
      ops.foldl (fun before op => op.holds x before) (xs.contains x)
  contains {s : FormSet} {op : Step} : s.toForm.Built → op.Made →
    ∀ x, x.Built → (s.step op).contains x = op.holds x (s.contains x)
  -- where the elements stand afterwards
  push (s : FormSet) (x : Form) :
    (s.push x).elements = if s.contains x then s.elements else s.elements ++ [x]
  cons (s : FormSet) (x : Form) :
    (s.cons x).elements = if s.contains x then s.elements else x :: s.elements
  union (s : FormSet) {t : FormSet} : t.toForm.Built →
    (s.union t).elements = s.elements ++ t.elements.filter fun x => !s.contains x
  concat (s : FormSet) {t : FormSet} : t.toForm.Built →
    (s.concat t).elements = s.elements ++ t.elements.filter fun x => !s.contains x
  inter {s : FormSet} (t : FormSet) : s.toForm.Built →
    (s.inter t).elements = s.elements.filter t.contains
  diff {s : FormSet} (t : FormSet) : s.toForm.Built →
    (s.diff t).elements = s.elements.filter fun x => !t.contains x
  -- the algebra of sets, where sets that hold the same in another order are equal
  union_comm {s t : FormSet} : s.toForm.Built → t.toForm.Built →
    ((s.union t).toForm == (t.union s).toForm) = true
  union_assoc {s t u : FormSet} : s.toForm.Built → t.toForm.Built → u.toForm.Built →
    (((s.union t).union u).toForm == (s.union (t.union u)).toForm) = true
  union_self {s : FormSet} : s.toForm.Built → ((s.union s).toForm == s.toForm) = true
  inter_comm {s t : FormSet} : s.toForm.Built → t.toForm.Built →
    ((s.inter t).toForm == (t.inter s).toForm) = true
  inter_assoc {s t u : FormSet} : s.toForm.Built → t.toForm.Built → u.toForm.Built →
    (((s.inter t).inter u).toForm == (s.inter (t.inter u)).toForm) = true
  inter_self {s : FormSet} : s.toForm.Built → ((s.inter s).toForm == s.toForm) = true
  diff_union_inter {s t : FormSet} : s.toForm.Built → t.toForm.Built →
    (s.toForm == ((s.diff t).union (s.inter t)).toForm) = true
  diff_apart {s t : FormSet} : s.toForm.Built → t.toForm.Built →
    ∀ x, x.Built → ¬ ((s.diff t).contains x = true ∧ t.contains x = true)
  size {s t : FormSet} : s.toForm.Built → t.toForm.Built →
    (s.union t).elements.length + (s.inter t).elements.length =
      s.elements.length + t.elements.length

/-- **Sets are finite sets of values**, in the order in which these were put in. -/
theorem setLaws : Laws where
  run {xs ops} hxs hops := by
    have hrun := built_run (.set hxs) hops
    refine ⟨hrun, (elements_of_built hrun).2.imp fun h => Bool.eq_false_iff.2 h, fun x hx => ?_⟩
    rw [contains_run (.set hxs) hops hx, contains_ofList hxs hx]
  contains hs hop _ hx := contains_step hs hop hx
  push s x := by
    unfold push Distinct.add contains
    split <;> rfl
  cons s x := by
    unfold cons
    split <;> rfl
  union s t ht := by rw [elements_union, elements_diff ht]
  concat s t ht := (elements_union s t).trans (by rw [elements_diff ht])
  inter t hs := elements_inter hs t
  diff t hs := elements_diff hs t
  union_comm hs ht := by
    rw [same_iff_classes (.union hs ht) (.union ht hs), classes_union hs ht, classes_union ht hs,
      Finset.union_comm]
  union_assoc {s t u} hs ht hu := by
    have hst := Built.union hs ht
    have htu := Built.union ht hu
    rw [same_iff_classes (.union hst hu) (.union hs htu), classes_union hst hu, classes_union hs ht,
      classes_union hs htu, classes_union ht hu, Finset.union_assoc]
  union_self hs := by
    rw [same_iff_classes (.union hs hs) hs, classes_union hs hs, Finset.union_self]
  inter_comm hs ht := by
    rw [same_iff_classes (.inter hs ht) (.inter ht hs), classes_inter hs ht, classes_inter ht hs,
      Finset.inter_comm]
  inter_assoc {s t u} hs ht hu := by
    have hst := Built.inter hs ht
    have htu := Built.inter ht hu
    rw [same_iff_classes (.inter hst hu) (.inter hs htu), classes_inter hst hu, classes_inter hs ht,
      classes_inter hs htu, classes_inter ht hu, Finset.inter_assoc]
  inter_self hs := by
    rw [same_iff_classes (.inter hs hs) hs, classes_inter hs hs, Finset.inter_self]
  diff_union_inter {s t} hs ht := by
    have hdiff := Built.diff hs ht
    have hinter := Built.inter hs ht
    rw [same_iff_classes hs (.union hdiff hinter), classes_union hdiff hinter, classes_diff hs ht,
      classes_inter hs ht, Finset.sdiff_union_inter]
  diff_apart hs ht x hx := by
    rw [contains_diff hs ht hx]
    simp
  size {s t} hs ht := by
    rw [← card_classes (elements_of_built (.union hs ht)),
      ← card_classes (elements_of_built (.inter hs ht)), ← card_classes (elements_of_built hs),
      ← card_classes (elements_of_built ht), classes_union hs ht, classes_inter hs ht,
      Finset.card_union_add_card_inter]

/-- Elements that are sets themselves are equal in any order. -/
example : ((ofList [.set [.int 1, .int 2] none]).union (ofList [.set [.int 2, .int 1] none, .nil])).elements
    = [.set [.int 1, .int 2] none, .nil] := by
  rfl

end FormSet

end LarkPhp
