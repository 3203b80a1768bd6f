import LarkPhp.Proofs.Equality

/-!
Forms that are made by the operations on collections.

`Built` lists the operations.  None of them makes a set with two equal elements or a table with two
equal keys, and every form without such repeats is made by them (`built_iff_proper`).  So on the
forms that are made equality is an equivalence, and whatever is replaced by an equal form in a
collection, the collection stays equal to what it was.
-/

namespace LarkPhp.Form

/-! ### Forms that are made -/

/-- The forms that are made from scalars and symbols by the operations on collections. -/
inductive Built : Form → Prop
  | scalar {f} : f.isScalar = true → Built f
  | symbol {s p} : Built (.symbol s p)
  | tuple {d xs p} : (∀ x ∈ xs, Built x) → Built (.tuple d xs p)
  | array {xs} : (∀ x ∈ xs, Built x) → Built (FormArray.ofList xs).toForm
  | arrayPush {a : FormArray} {x} : Built a.toForm → Built x → Built (a.push x).toForm
  | set {xs} : (∀ x ∈ xs, Built x) → Built (FormSet.ofList xs).toForm
  | setCons {s : FormSet} {x} : Built s.toForm → Built x → Built (s.cons x).toForm
  | setPush {s : FormSet} {x} : Built s.toForm → Built x → Built (s.push x).toForm
  | union {s t : FormSet} : Built s.toForm → Built t.toForm → Built (s.union t).toForm
  | inter {s t : FormSet} : Built s.toForm → Built t.toForm → Built (s.inter t).toForm
  | diff {s t : FormSet} : Built s.toForm → Built t.toForm → Built (s.diff t).toForm
  | table {es} :
    (∀ e ∈ es, Built e.1) → (∀ e ∈ es, Built e.2) → Built (FormTable.ofList es).toForm
  | insert {t : FormTable} {k v} : Built t.toForm → Built k → Built v → Built (t.insert k v).toForm
  | moveTo {f p} : Built f → Built (f.moveTo p)

/-- Proper elements, no two of them equal. -/
def Elements (xs : List Form) : Prop := (∀ x ∈ xs, Proper x) ∧ xs.Pairwise fun x y => ¬ Same x y

/-- Entries of proper forms, no two of them with equal keys. -/
def Entries (es : List (Form × Form)) : Prop :=
  (∀ e ∈ es, Proper e.1) ∧ (∀ e ∈ es, Proper e.2) ∧ es.Pairwise fun d e => ¬ Same d.1 e.1

theorem proper_set_iff {xs : List Form} {p : Option Span} : Proper (.set xs p) ↔ Elements xs := by
  constructor
  · intro h
    cases h with
    | scalar h => cases h
    | set hx hdistinct => exact ⟨hx, hdistinct⟩
  · exact fun h => .set h.1 h.2

theorem proper_table_iff {es : List (Form × Form)} {p : Option Span} :
    Proper (.table es p) ↔ Entries es := by
  constructor
  · intro h
    cases h with
    | scalar h => cases h
    | table hk hv hdistinct => exact ⟨hk, hv, hdistinct⟩
  · exact fun h => .table h.1 h.2.1 h.2.2

theorem proper_tuple_iff {d : Delimiter} {xs : List Form} {p : Option Span} :
    Proper (.tuple d xs p) ↔ ∀ x ∈ xs, Proper x := by
  constructor
  · intro h
    cases h with
    | scalar h => cases h
    | tuple hx => exact hx
  · exact .tuple

theorem proper_array_iff {xs : List Form} {p : Option Span} :
    Proper (.array xs p) ↔ ∀ x ∈ xs, Proper x := by
  constructor
  · intro h
    cases h with
    | scalar h => cases h
    | array hx => exact hx
  · exact .array

theorem contains_iff {xs : List Form} {x : Form} :
    xs.contains x = true ↔ ∃ y ∈ xs, Same x y := List.contains_iff_exists_mem_beq

section Collections
variable {xs ys : List Form} {x : Form} {es : List (Form × Form)} {k v : Form}

theorem Elements.nil : Elements [] := ⟨by simp, .nil⟩

theorem Elements.sublist (h : Elements xs) (hsub : ys.Sublist xs) : Elements ys :=
  ⟨fun y hy => h.1 y (hsub.subset hy), h.2.sublist hsub⟩

theorem Elements.add (h : Elements xs) (hx : Proper x) : Elements (Distinct.add xs x) := by
  by_cases hin : xs.contains x = true
  · rwa [Distinct.add_of_contains hin]
  · rw [Distinct.add_of_not_contains (Bool.eq_false_iff.2 hin)]
    refine ⟨List.forall_mem_append.2 ⟨h.1, List.forall_mem_singleton.2 hx⟩, ?_⟩
    refine List.pairwise_append.2 ⟨h.2, List.pairwise_singleton _ _, ?_⟩
    intro y hy z hz hyz
    cases List.mem_singleton.1 hz
    -- the new element was looked for from its own side
    exact hin (contains_iff.2 ⟨y, hy, lawful_proper.symm (h.1 y hy) hx hyz⟩)

theorem Elements.addAll (h : Elements xs) (hy : ∀ y ∈ ys, Proper y) :
    Elements (Distinct.addAll xs ys) := by
  induction ys generalizing xs with
  | nil => exact h
  | cons y ys ih =>
    obtain ⟨hy, hys⟩ := List.forall_mem_cons.1 hy
    exact ih (h.add hy) hys

theorem elements_ofList (hx : ∀ x ∈ xs, Proper x) : Elements (Distinct.ofList xs) :=
  Elements.nil.addAll hx

theorem Elements.cons (h : Elements xs) (hx : Proper x) (hin : xs.contains x = false) :
    Elements (x :: xs) := by
  refine ⟨List.forall_mem_cons.2 ⟨hx, h.1⟩, List.pairwise_cons.2 ⟨fun y hy hxy => ?_, h.2⟩⟩
  have hin' : xs.contains x = true := contains_iff.2 ⟨y, hy, hxy⟩
  rw [hin] at hin'
  cases hin'

/-- What is in a table after `v` was put in under `k`: old keys, or `k`. -/
theorem mem_put {e : Form × Form} (h : e ∈ FormTable.put k v es) :
    (e.2 = v ∨ ∃ d ∈ es, d.2 = e.2) ∧ (e.1 = k ∨ ∃ d ∈ es, d.1 = e.1) := by
  induction es with
  | nil =>
    cases List.mem_singleton.1 h
    exact ⟨.inl rfl, .inl rfl⟩
  | cons d es ih =>
    obtain ⟨k', v'⟩ := d
    unfold FormTable.put at h
    split at h
    · rcases List.mem_cons.1 h with rfl | h
      · exact ⟨.inl rfl, .inr ⟨_, List.mem_cons_self, rfl⟩⟩
      · exact ⟨.inr ⟨e, List.mem_cons_of_mem _ h, rfl⟩, .inr ⟨e, List.mem_cons_of_mem _ h, rfl⟩⟩
    · rcases List.mem_cons.1 h with rfl | h
      · exact ⟨.inr ⟨_, List.mem_cons_self, rfl⟩, .inr ⟨_, List.mem_cons_self, rfl⟩⟩
      · obtain ⟨hv, hk⟩ := ih h
        refine ⟨hv.imp_right ?_, hk.imp_right ?_⟩
        · rintro ⟨d, hd, heq⟩
          exact ⟨d, List.mem_cons_of_mem _ hd, heq⟩
        · rintro ⟨d, hd, heq⟩
          exact ⟨d, List.mem_cons_of_mem _ hd, heq⟩

theorem Entries.nil : Entries [] := ⟨by simp, by simp, .nil⟩

theorem Entries.put (h : Entries es) (hk : Proper k) (hv : Proper v) :
    Entries (FormTable.put k v es) := by
  obtain ⟨hkeys, hvalues, hdistinct⟩ := h
  refine ⟨fun e he => ?_, fun e he => ?_, ?_⟩
  · rcases (mem_put he).2 with heq | ⟨d, hd, heq⟩
    · rwa [heq]
    · rw [← heq]
      exact hkeys d hd
  · rcases (mem_put he).1 with heq | ⟨d, hd, heq⟩
    · rwa [heq]
    · rw [← heq]
      exact hvalues d hd
  · clear hvalues hv
    induction es with
    | nil => exact List.pairwise_singleton _ _
    | cons d es ih =>
      obtain ⟨k', v'⟩ := d
      obtain ⟨hk', hkeys⟩ := List.forall_mem_cons.1 hkeys
      obtain ⟨hfirst, hdistinct⟩ := List.pairwise_cons.1 hdistinct
      unfold FormTable.put
      split
      · exact List.pairwise_cons.2 ⟨hfirst, hdistinct⟩
      · next hne =>
        refine List.pairwise_cons.2 ⟨fun e he => ?_, ih hkeys hdistinct⟩
        rcases (mem_put he).2 with heq | ⟨d, hd, heq⟩
        · rw [heq]
          exact fun hsame => hne (lawful_proper.symm hk' hk hsame)
        · rw [← heq]
          exact hfirst d hd

theorem entries_ofList (hk : ∀ e ∈ es, Proper e.1) (hv : ∀ e ∈ es, Proper e.2) :
    Entries (FormTable.ofList es).entries := by
  have hfold : ∀ t : FormTable, Entries t.entries →
      Entries (es.foldl (fun t e => t.insert e.1 e.2) t).entries := by
    induction es with
    | nil => exact fun t ht => ht
    | cons e es ih =>
      obtain ⟨hke, hk⟩ := List.forall_mem_cons.1 hk
      obtain ⟨hve, hv⟩ := List.forall_mem_cons.1 hv
      exact fun t ht => ih hk hv _ (ht.put hke hve)
  exact hfold .empty Entries.nil

end Collections

theorem Proper.moveTo {f : Form} (h : f.Proper) (p : Option Span) : (f.moveTo p).Proper := by
  cases h with
  | scalar h => cases f <;> exact .scalar h
  | symbol => exact .symbol
  | tuple h => exact .tuple h
  | table hk hv hdistinct => exact .table hk hv hdistinct
  | set h hdistinct => exact .set h hdistinct
  | array h => exact .array h

/-- **No form that is made holds repeats.** -/
theorem Built.proper {f : Form} (h : f.Built) : f.Proper := by
  induction h with
  | scalar h => exact .scalar h
  | symbol => exact .symbol
  | tuple _ ih => exact .tuple ih
  | array _ ih => exact .array ih
  | arrayPush _ _ iha ihx =>
    refine proper_array_iff.2 (List.forall_mem_append.2 ⟨proper_array_iff.1 iha, ?_⟩)
    exact List.forall_mem_singleton.2 ihx
  | set _ ih => exact proper_set_iff.2 (elements_ofList ih)
  | @setCons s x _ _ ihs ihx =>
    have hs : Elements s.elements := proper_set_iff.1 ihs
    unfold FormSet.cons
    split
    · exact ihs
    · next hin => exact proper_set_iff.2 (hs.cons ihx (Bool.eq_false_iff.2 hin))
  | setPush _ _ ihs ihx => exact proper_set_iff.2 ((proper_set_iff.1 ihs).add ihx)
  | union _ _ ihs iht =>
    exact proper_set_iff.2 ((proper_set_iff.1 ihs).addAll (proper_set_iff.1 iht).1)
  | inter _ _ ihs iht =>
    exact proper_set_iff.2 (elements_ofList
      ((proper_set_iff.1 ihs).sublist (List.filter_sublist ..)).1)
  | diff _ _ ihs iht =>
    exact proper_set_iff.2 (elements_ofList
      ((proper_set_iff.1 ihs).sublist (List.filter_sublist ..)).1)
  | table _ _ ihk ihv => exact proper_table_iff.2 (entries_ofList ihk ihv)
  | insert _ _ _ iht ihk ihv => exact proper_table_iff.2 ((proper_table_iff.1 iht).put ihk ihv)
  | moveTo _ ih => exact ih.moveTo _

/-! ### All forms without repeats are made -/

theorem addAll_eq_append {xs ys : List Form} (h : Elements (xs ++ ys)) :
    Distinct.addAll xs ys = xs ++ ys := by
  induction ys generalizing xs with
  | nil => rw [List.append_nil, Distinct.addAll_nil]
  | cons y ys ih =>
    have hnew : xs.contains y = false := by
      refine Bool.eq_false_iff.2 fun hin => ?_
      obtain ⟨x, hx, hyx⟩ := contains_iff.1 hin
      have hxp : Proper x := h.1 x (List.mem_append_left _ hx)
      have hyp : Proper y := h.1 y (List.mem_append_right _ List.mem_cons_self)
      exact (List.pairwise_append.1 h.2).2.2 x hx y List.mem_cons_self
        (lawful_proper.symm hyp hxp hyx)
    have hsplit : xs ++ y :: ys = (xs ++ [y]) ++ ys := by simp
    rw [Distinct.addAll_cons, Distinct.add_of_not_contains hnew, hsplit]
    rw [hsplit] at h
    exact ih h

theorem put_eq_append {k v : Form} {es : List (Form × Form)} (hnew : ∀ e ∈ es, ¬ Same k e.1) :
    FormTable.put k v es = es ++ [(k, v)] := by
  induction es with
  | nil => rfl
  | cons e es ih =>
    obtain ⟨k', v'⟩ := e
    obtain ⟨hne, hnew⟩ := List.forall_mem_cons.1 hnew
    have hne : ¬ (k == k') = true := hne
    unfold FormTable.put
    rw [if_neg hne, ih hnew, List.cons_append]

theorem entries_foldl_insert {es : List (Form × Form)} (t : FormTable)
    (h : Entries (t.entries ++ es)) :
    (es.foldl (fun t e => t.insert e.1 e.2) t).entries = t.entries ++ es := by
  induction es generalizing t with
  | nil => rw [List.append_nil, List.foldl_nil]
  | cons e es ih =>
    have hnew : ∀ d ∈ t.entries, ¬ Same e.1 d.1 := by
      intro d hd hed
      have hdp : Proper d.1 := h.1 d (List.mem_append_left _ hd)
      have hep : Proper e.1 := h.1 e (List.mem_append_right _ List.mem_cons_self)
      exact (List.pairwise_append.1 h.2.2).2.2 d hd e List.mem_cons_self
        (lawful_proper.symm hep hdp hed)
    have hput : (t.insert e.1 e.2).entries = t.entries ++ [e] := put_eq_append hnew
    have hsplit : t.entries ++ e :: es = (t.insert e.1 e.2).entries ++ es := by simp [hput]
    rw [hsplit] at h ⊢
    exact ih _ h

/-- The forms that are made are those without repeats. -/
theorem built_iff_proper {f : Form} : f.Built ↔ f.Proper := by
  refine ⟨Built.proper, fun h => ?_⟩
  induction h with
  | scalar h => exact .scalar h
  | symbol => exact .symbol
  | tuple _ ih => exact .tuple ih
  | @array xs p _ ih => exact .moveTo (f := .array xs none) (.array ih)
  | @set xs p hx hdistinct ih =>
    have hxs : Distinct.ofList xs = xs := @addAll_eq_append [] xs ⟨hx, hdistinct⟩
    have hset := Built.moveTo (p := p) (.set ih)
    unfold FormSet.ofList at hset
    rwa [hxs] at hset
  | @table es p hk hv hdistinct ihk ihv =>
    have hes : (FormTable.ofList es).entries = es :=
      entries_foldl_insert .empty ⟨hk, hv, hdistinct⟩
    have htable := Built.moveTo (p := p) (.table ihk ihv)
    unfold FormTable.toForm Form.moveTo at htable
    rwa [hes] at htable

/-! ### Equal parts -/

theorem same_moveTo {f : Form} (h : f.Proper) (p : Option Span) : Same (f.moveTo p) f := by
  have hself := lawful_proper.refl h
  cases f <;> exact hself

/-- What differs still differs after all was replaced by equal forms. -/
theorem pairwise_of_forall₂ {xs ys : List Form} (hx : ∀ x ∈ xs, Proper x) (hy : ∀ y ∈ ys, Proper y)
    (hxy : List.Forall₂ Same xs ys) (hdistinct : xs.Pairwise fun a b => ¬ Same a b) :
    ys.Pairwise fun a b => ¬ Same a b := by
  induction hxy with
  | nil => exact .nil
  | @cons x y xs ys hab hrest ih =>
    obtain ⟨hx, hxs⟩ := List.forall_mem_cons.1 hx
    obtain ⟨hy, hys⟩ := List.forall_mem_cons.1 hy
    obtain ⟨hfirst, hdistinct⟩ := List.pairwise_cons.1 hdistinct
    refine List.pairwise_cons.2 ⟨fun z hz hyz => ?_, ih hxs hys hdistinct⟩
    obtain ⟨w, hw, hzw⟩ := exists_mem_of_forall₂ (lawful_proper.forall₂_symm hxs hys hrest) z hz
    -- `x` equals `y`, which equals `z`, which equals `w`
    have hxz : Same x z := lawful_proper.trans hx hy (hys z hz) hab hyz
    exact hfirst w hw (lawful_proper.trans hx (hys z hz) (hxs w hw) hxz hzw)

theorem elements_of_forall₂ {xs ys : List Form} (h : Elements xs) (hy : ∀ y ∈ ys, Proper y)
    (hxy : List.Forall₂ Same xs ys) : Elements ys :=
  ⟨hy, pairwise_of_forall₂ h.1 hy hxy h.2⟩

theorem entries_of_forall₂ {ds es : List (Form × Form)} (h : Entries ds)
    (hk : ∀ e ∈ es, Proper e.1) (hv : ∀ e ∈ es, Proper e.2) (hde : List.Forall₂ SameEntry ds es) :
    Entries es := by
  have hkeys : List.Forall₂ Same (ds.map Prod.fst) (es.map Prod.fst) := by
    rw [List.forall₂_map_left_iff, List.forall₂_map_right_iff]
    exact hde.imp fun _ _ h => h.1
  have hdistinct := pairwise_of_forall₂ (List.forall_mem_map.2 h.1) (List.forall_mem_map.2 hk) hkeys
    (List.pairwise_map.2 h.2.2)
  exact ⟨hk, hv, List.pairwise_map.1 hdistinct⟩

theorem same_table_iff {ds es : List (Form × Form)} {p q : Option Span} (hd : Entries ds)
    (he : Entries es) :
    Same (.table ds p) (.table es q) ↔
      ds.length = es.length ∧ ∀ d ∈ ds, ∃ e ∈ es, SameEntry d e := by
  have hlookups := lookups_iff lawful_proper hd.1 he.1 he.2.2
  constructor
  · intro h
    have hlevel := same_iff_level.1 h
    clear h
    cases hlevel with
    | scalar h => cases h
    | table hlen h => exact ⟨hlen, hlookups.1 h⟩
  · rintro ⟨hlen, h⟩
    exact same_iff_level.2 (.table hlen (hlookups.2 h))

/-! ### The laws of equality -/

/-- What equality of forms comes to.  It is an equivalence; tuples and arrays are equal place by
place; sets are equal if they are of one size and the right one contains what the left one holds;
tables are so if each entry of the left one has an equal one in the right one.  Whatever is replaced
by an equal form in a collection, the collection stays equal. -/
structure EqualityLaws : Prop where
  equivalence : Equivalence fun a b : { f : Form // f.Built } => (a.1 == b.1) = true
  places {f : Form} (p : Option Span) : f.Built → (f.moveTo p == f) = true
  floats (a b : UInt64) : (float a == float b) = true ↔ a = b
  tuples (d d' : Delimiter) (xs ys : List Form) (p q : Option Span) :
    (tuple d xs p == tuple d' ys q) = true ↔ List.Forall₂ (fun x y => (x == y) = true) xs ys
  arrays (xs ys : List Form) (p q : Option Span) :
    (array xs p == array ys q) = true ↔ List.Forall₂ (fun x y => (x == y) = true) xs ys
  sets (xs ys : List Form) (p q : Option Span) :
    (set xs p == set ys q) = true ↔ xs.length = ys.length ∧ ∀ x ∈ xs, ys.contains x = true
  tables {ds es : List (Form × Form)} {p q : Option Span} :
    (table ds p).Built → (table es q).Built →
    ((table ds p == table es q) = true ↔
      ds.length = es.length ∧ ∀ d ∈ ds, ∃ e ∈ es, (d.1 == e.1) = true ∧ (d.2 == e.2) = true)
  setReplaced {xs ys : List Form} {p : Option Span} :
    (set xs p).Built → (∀ y ∈ ys, y.Built) → List.Forall₂ (fun x y => (x == y) = true) xs ys →
    (set ys p).Built ∧ (set xs p == set ys p) = true
  tableReplaced {ds es : List (Form × Form)} {p : Option Span} :
    (table ds p).Built → (∀ e ∈ es, e.1.Built ∧ e.2.Built) →
    List.Forall₂ (fun d e => (d.1 == e.1) = true ∧ (d.2 == e.2) = true) ds es →
    (table es p).Built ∧ (table ds p == table es p) = true

/-- **Equality of forms is an equivalence and a congruence.** -/
theorem equalityLaws : EqualityLaws where
  equivalence :=
    ⟨fun a => lawful_proper.refl a.2.proper,
      fun {a b} => lawful_proper.symm a.2.proper b.2.proper,
      fun {a b c} => lawful_proper.trans a.2.proper b.2.proper c.2.proper⟩
  places p h := same_moveTo h.proper p
  floats a b := beq_iff_eq (a := a) (b := b)
  tuples d d' xs ys p q := sameAll_iff
  arrays xs ys p q := sameAll_iff
  sets xs ys p q := by
    show (xs.length == ys.length && allIn xs ys) = true ↔ _
    rw [Bool.and_eq_true, beq_iff_eq, allIn_iff]
    exact and_congr_right fun _ => forall₂_congr fun x _ => contains_iff.symm
  tables hd he := same_table_iff (proper_table_iff.1 hd.proper) (proper_table_iff.1 he.proper)
  setReplaced {xs ys p} hxs hys hxy := by
    have hx : Elements xs := proper_set_iff.1 hxs.proper
    have hy : Elements ys := elements_of_forall₂ hx (fun y hmem => (hys y hmem).proper) hxy
    refine ⟨built_iff_proper.2 (proper_set_iff.2 hy), same_iff_level.2 ?_⟩
    exact .set hxy.length_eq (exists_mem_of_forall₂ hxy)
  tableReplaced {ds es p} hds hes hde := by
    have hd : Entries ds := proper_table_iff.1 hds.proper
    have he : Entries es := entries_of_forall₂ hd (fun e hmem => (hes e hmem).1.proper)
      (fun e hmem => (hes e hmem).2.proper) hde
    refine ⟨built_iff_proper.2 (proper_table_iff.2 he), (same_table_iff hd he).2 ?_⟩
    exact ⟨hde.length_eq, exists_mem_of_forall₂ hde⟩

end LarkPhp.Form
