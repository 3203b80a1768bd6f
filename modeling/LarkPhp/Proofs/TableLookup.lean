import LarkPhp.Proofs.SetAlgebra

/-!
Tables of forms are maps in the order of insertion.

Putting a value in leaves the keys as they are if an equal key is there, and appends the key if not
(`keys_put`); afterwards the value is found under every key that equals the given one, and all else is
found as before (`get?_insert`).  From the two follows what a list of pairs becomes: the first
occurrences of its keys, each with the value that was given last (`entries_ofList_eq`).  Equality of
tables compares sizes and looks in one direction; for tables that were made it is equality of all that
is found (`same_iff_get?`).
-/

namespace LarkPhp.FormTable

open Form

/-- The value of the last pair whose key equals `k`. -/
def last? (es : List (Form × Form)) (k : Form) : Option Form :=
  (es.reverse.find? fun e => k == e.1).map Prod.snd

/-! ### Keys -/

section Keys
variable {k v : Form} {es : List (Form × Form)}

theorem keys_put : (put k v es).map Prod.fst = Distinct.add (es.map Prod.fst) k := by
  induction es with
  | nil => rfl
  | cons e es ih =>
    obtain ⟨k', v'⟩ := e
    unfold put
    split
    · next hk =>
      have hin : (((k', v') :: es).map Prod.fst).contains k = true := by simp [hk]
      rw [Distinct.add_of_contains hin]
      rfl
    · next hk =>
      rw [List.map_cons, ih]
      by_cases hin : (es.map Prod.fst).contains k = true
      · have hin' : (((k', v') :: es).map Prod.fst).contains k = true := by
          rw [List.map_cons, List.contains_cons, hin, Bool.or_true]
        rw [Distinct.add_of_contains hin, Distinct.add_of_contains hin']
        rfl
      · have hin : (es.map Prod.fst).contains k = false := Bool.eq_false_iff.2 hin
        have hin' : (((k', v') :: es).map Prod.fst).contains k = false := by
          rw [List.map_cons, List.contains_cons, hin, Bool.or_false]
          exact Bool.eq_false_iff.2 hk
        rw [Distinct.add_of_not_contains hin, Distinct.add_of_not_contains hin']
        rfl

/-- The keys of a table are the first occurrences of the keys that were given. -/
theorem keys_ofList (es : List (Form × Form)) :
    (ofList es).entries.map Prod.fst = (es.map Prod.fst).eraseDups := by
  have hfold : ∀ t : FormTable, (es.foldl (fun t e => t.insert e.1 e.2) t).entries.map Prod.fst =
      Distinct.addAll (t.entries.map Prod.fst) (es.map Prod.fst) := by
    induction es with
    | nil => exact fun t => rfl
    | cons e es ih =>
      intro t
      rw [List.foldl_cons, ih, List.map_cons, Distinct.addAll_cons]
      exact congrArg (Distinct.addAll · _) keys_put
  rw [← Distinct.ofList_eq]
  exact hfold .empty

theorem ofList_append_singleton (es : List (Form × Form)) (e : Form × Form) :
    ofList (es ++ [e]) = (ofList es).insert e.1 e.2 := by
  unfold ofList
  rw [List.foldl_append]
  rfl

end Keys

/-! ### Lookup -/

section Lookup
variable {t u : FormTable} {k k' v : Form}

theorem entries_of_built (ht : t.toForm.Built) : Entries t.entries := proper_table_iff.1 ht.proper

theorem contains_eq_isSome (t : FormTable) (k : Form) : t.contains k = (t.get? k).isSome := by
  unfold contains get?
  rw [Option.isSome_map, List.isSome_find?]

/-- What is found under a key is the value of the one entry with an equal key. -/
theorem get?_eq_some_iff (ht : t.toForm.Built) (hk : k.Built) :
    t.get? k = some v ↔ ∃ e ∈ t.entries, Same k e.1 ∧ e.2 = v := by
  have hes := entries_of_built ht
  unfold get?
  rw [Option.map_eq_some_iff]
  constructor
  · rintro ⟨e, hfind, hv⟩
    have hke := List.find?_some (p := fun e : Form × Form => k == e.1) hfind
    exact ⟨e, List.mem_of_find?_eq_some hfind, hke, hv⟩
  · rintro ⟨e, he, hke, hv⟩
    exact ⟨e, find?_eq_some_of_same lawful_proper hk.proper hes.1 hes.2.2 he hke, hv⟩

theorem get?_of_mem (ht : t.toForm.Built) {e : Form × Form} (he : e ∈ t.entries) :
    t.get? e.1 = some e.2 := by
  have hk : e.1.Proper := (entries_of_built ht).1 e he
  exact (get?_eq_some_iff ht (built_iff_proper.2 hk)).2 ⟨e, he, lawful_proper.refl hk, rfl⟩

theorem get?_congr (ht : t.toForm.Built) (hk : k.Built) (hk' : k'.Built) (h : Same k k') :
    t.get? k = t.get? k' := by
  have hback : Same k' k := lawful_proper.symm hk.proper hk'.proper h
  refine Option.ext fun v => ?_
  rw [get?_eq_some_iff ht hk, get?_eq_some_iff ht hk']
  refine exists_congr fun e => and_congr_right fun he => and_congr_left fun _ => ?_
  have he : e.1.Proper := (entries_of_built ht).1 e he
  exact ⟨fun hke => lawful_proper.trans hk'.proper hk.proper he hback hke,
    fun hke => lawful_proper.trans hk.proper hk'.proper he h hke⟩

end Lookup

/-! ### Putting in -/

section Insert
variable {t : FormTable} {k k' v : Form}

theorem replace_eq (k v : Form) (es : List (Form × Form)) :
    replace k v es = ((es.find? fun e => k == e.1).map Prod.snd, put k v es) := by
  induction es with
  | nil => rfl
  | cons e es ih =>
    obtain ⟨k', v'⟩ := e
    unfold replace put
    rw [List.find?_cons]
    dsimp only
    by_cases hk : (k == k') = true
    · rw [if_pos hk, if_pos hk, hk]
      rfl
    · rw [if_neg hk, if_neg hk, Bool.eq_false_iff.2 hk, ih]

/-- What putting a value in gives back is what was found before. -/
theorem exchange_eq (t : FormTable) (k v : Form) : t.exchange k v = (t.get? k, t.insert k v) := by
  unfold exchange
  rw [replace_eq]
  rfl

theorem find?_put {es : List (Form × Form)} (hes : ∀ e ∈ es, e.1.Proper) (hk : k.Proper)
    (hk' : k'.Proper) :
    ((put k v es).find? fun e => k' == e.1).map Prod.snd =
      if k' == k then some v else (es.find? fun e => k' == e.1).map Prod.snd := by
  induction es with
  | nil =>
    unfold put
    rw [List.find?_cons]
    cases h : k' == k <;> rfl
  | cons e es ih =>
    obtain ⟨d, w⟩ := e
    obtain ⟨hd, hes⟩ := List.forall_mem_cons.1 hes
    unfold put
    split
    · next hkd =>
      -- `d` stays where it is and stands for `k`
      have heq : (k' == d) = (k' == k) := by
        rw [Bool.eq_iff_iff]
        exact ⟨fun h => lawful_proper.trans hk' hd hk h (lawful_proper.symm hk hd hkd),
          fun h => lawful_proper.trans hk' hk hd h hkd⟩
      rw [List.find?_cons, List.find?_cons]
      dsimp only
      rw [heq]
      cases h : k' == k <;> rfl
    · next hkd =>
      rw [List.find?_cons, List.find?_cons]
      dsimp only
      cases hd' : k' == d with
      | false => exact ih hes
      | true =>
        have hne : ¬ (k' == k) = true := fun h =>
          hkd (lawful_proper.trans hk hk' hd (lawful_proper.symm hk' hk h) hd')
        rw [if_neg hne]

theorem get?_insert (ht : t.toForm.Built) (hk : k.Built) (hk' : k'.Built) (v : Form) :
    (t.insert k v).get? k' = if k' == k then some v else t.get? k' :=
  find?_put (entries_of_built ht).1 hk.proper hk'.proper

theorem built_ofList {es : List (Form × Form)} (hes : ∀ e ∈ es, e.1.Built ∧ e.2.Built) :
    (ofList es).toForm.Built :=
  .table (fun e he => (hes e he).1) (fun e he => (hes e he).2)

/-- What is found in a table that is made from pairs is the value that was given last. -/
theorem get?_ofList {es : List (Form × Form)} (hes : ∀ e ∈ es, e.1.Built ∧ e.2.Built)
    (hk : k.Built) : (ofList es).get? k = last? es k := by
  induction es using List.reverseRecOn with
  | nil => rfl
  | append_singleton es e ih =>
    obtain ⟨hes, he⟩ := List.forall_mem_append.1 hes
    obtain ⟨hke, -⟩ := he e List.mem_cons_self
    rw [ofList_append_singleton, get?_insert (built_ofList hes) hke hk, ih hes]
    unfold last?
    rw [List.reverse_append, List.reverse_singleton, List.singleton_append, List.find?_cons]
    cases h : k == e.1 <;> rfl

theorem contains_ofList {es : List (Form × Form)} (hes : ∀ e ∈ es, e.1.Built ∧ e.2.Built)
    (hk : k.Built) : (ofList es).contains k = es.any fun e => k == e.1 := by
  rw [contains_eq_isSome, get?_ofList hes hk]
  unfold last?
  rw [Option.isSome_map, List.isSome_find?, List.any_reverse]

/-- **What pairs become.**  The entries are the first occurrences of the keys, each with the value that
was given last. -/
theorem entries_ofList_eq {es : List (Form × Form)} (hes : ∀ e ∈ es, e.1.Built ∧ e.2.Built) :
    (ofList es).entries.map (fun e => (e.1, some e.2)) =
      (es.map Prod.fst).eraseDups.map fun k => (k, last? es k) := by
  have ht := built_ofList hes
  rw [← keys_ofList, List.map_map]
  refine List.map_congr_left fun e he => ?_
  have hk : e.1.Built := built_iff_proper.2 ((entries_of_built ht).1 e he)
  show (e.1, some e.2) = (e.1, last? es e.1)
  rw [← get?_ofList hes hk, get?_of_mem ht he]

end Insert

/-! ### Equality -/

/-- Under every key where `t` has a value, `u` has an equal one. -/
def Within (t u : FormTable) : Prop :=
  ∀ k, k.Built → ∀ v, t.get? k = some v → ∃ w, u.get? k = some w ∧ (v == w) = true

/-- No key stands in two entries. -/
theorem countP_entries {es : List (Form × Form)} (hes : Entries es) {k : Form} (hk : k.Proper) :
    (es.countP fun e => k == e.1) = if es.any fun e => k == e.1 then 1 else 0 := by
  obtain ⟨hkeys, -, hdistinct⟩ := hes
  induction es with
  | nil => rfl
  | cons e es ih =>
    obtain ⟨he, hkeys⟩ := List.forall_mem_cons.1 hkeys
    obtain ⟨hfirst, hdistinct⟩ := List.pairwise_cons.1 hdistinct
    rw [List.countP_cons, List.any_cons]
    cases hke : k == e.1 with
    | false =>
      simp only [Bool.false_or, Bool.false_eq_true, if_false, Nat.add_zero]
      exact ih hkeys hdistinct
    | true =>
      have hnone : (es.countP fun d => k == d.1) = 0 := by
        refine List.countP_eq_zero.2 fun d hd hkd => ?_
        have hek : Same e.1 k := lawful_proper.symm hk he hke
        exact hfirst d hd (lawful_proper.trans he hk (hkeys d hd) hek hkd)
      rw [hnone]
      rfl

section Equality
variable {t u : FormTable} (ht : t.toForm.Built) (hu : u.toForm.Built)

theorem elements_keys (ht : t.toForm.Built) : Elements (t.entries.map Prod.fst) := by
  obtain ⟨hkeys, -, hdistinct⟩ := entries_of_built ht
  exact ⟨List.forall_mem_map.2 hkeys, List.pairwise_map.2 hdistinct⟩

include ht hu

theorem within_iff : t.Within u ↔ ∀ d ∈ t.entries, ∃ e ∈ u.entries, SameEntry d e := by
  constructor
  · intro h d hd
    have hk : d.1.Built := built_iff_proper.2 ((entries_of_built ht).1 d hd)
    obtain ⟨w, hw, hvw⟩ := h d.1 hk d.2 (get?_of_mem ht hd)
    obtain ⟨e, he, hke, rfl⟩ := (get?_eq_some_iff hu hk).1 hw
    exact ⟨e, he, hke, hvw⟩
  · intro h k hk v hv
    obtain ⟨d, hd, hkd, rfl⟩ := (get?_eq_some_iff ht hk).1 hv
    obtain ⟨e, he, hde, hve⟩ := h d hd
    have hke : Same k e.1 := lawful_proper.trans hk.proper ((entries_of_built ht).1 d hd)
      ((entries_of_built hu).1 e he) hkd hde
    exact ⟨e.2, (get?_eq_some_iff hu hk).2 ⟨e, he, hke, rfl⟩, hve⟩

/-- A table has no more keys than a table that has values under all of them. -/
theorem Within.classes_subset (h : t.Within u) :
    classes (t.entries.map Prod.fst) ⊆ classes (u.entries.map Prod.fst) := by
  rw [classes_subset_iff (elements_keys ht).1 (elements_keys hu).1]
  refine List.forall_mem_map.2 fun d hd => ?_
  obtain ⟨e, he, hde⟩ := (within_iff ht hu).1 h d hd
  exact contains_iff.2 ⟨e.1, List.mem_map_of_mem he, hde.1⟩

/-- Equality of tables is equality of all that is found in them. -/
theorem same_iff_get? : (t.toForm == u.toForm) = true ↔ t.Within u ∧ u.Within t := by
  have hsame := @same_table_iff t.entries u.entries t.span u.span (entries_of_built ht)
    (entries_of_built hu)
  constructor
  · intro h
    have hback : Same u.toForm t.toForm := lawful_proper.symm ht.proper hu.proper h
    refine ⟨(within_iff ht hu).2 (hsame.1 h).2, (within_iff hu ht).2 ?_⟩
    exact ((same_table_iff (entries_of_built hu) (entries_of_built ht)).1 hback).2
  · rintro ⟨htu, hut⟩
    have hclasses : classes (t.entries.map Prod.fst) = classes (u.entries.map Prod.fst) :=
      Finset.Subset.antisymm (htu.classes_subset ht hu) (hut.classes_subset hu ht)
    have hlen : (t.entries.map Prod.fst).length = (u.entries.map Prod.fst).length := by
      rw [← card_classes (elements_keys ht), ← card_classes (elements_keys hu), hclasses]
    exact hsame.2 ⟨by simpa using hlen, (within_iff ht hu).1 htu⟩

end Equality

/-! ### The laws -/

/-- What the operations on tables come to, on tables that were made by them. -/
structure Laws : Prop where
  /-- What a list of pairs becomes. -/
  pairs {es : List (Form × Form)} : (∀ e ∈ es, e.1.Built ∧ e.2.Built) →
    (ofList es).entries.map (fun e => (e.1, some e.2)) =
        (es.map Prod.fst).eraseDups.map (fun k => (k, last? es k)) ∧
    ∀ k, k.Built → ((ofList es).entries.countP fun e => k == e.1) =
      if es.any (fun e => k == e.1) then 1 else 0
  oneByOne (es : List (Form × Form)) :
    ofList es = es.foldl (fun t e => (t.exchange e.1 e.2).2) empty
  /-- What is given back, and what is found afterwards. -/
  exchange {t : FormTable} {k v : Form} : t.toForm.Built → k.Built → v.Built →
    (t.exchange k v).1 = t.get? k ∧ (t.exchange k v).2.toForm.Built ∧
    ∀ k', k'.Built → (t.exchange k v).2.get? k' = if k' == k then some v else t.get? k'
  found {t : FormTable} {k v : Form} : t.toForm.Built → k.Built →
    (t.get? k = some v ↔ ∃ e ∈ t.entries, (k == e.1) = true ∧ e.2 = v)
  equalKeys {t : FormTable} {k k' : Form} : t.toForm.Built → k.Built → k'.Built →
    (k == k') = true → t.get? k = t.get? k' ∧ t.contains k = t.contains k'
  contains (t : FormTable) (k : Form) : t.contains k = (t.get? k).isSome
  equality {t u : FormTable} : t.toForm.Built → u.toForm.Built →
    ((t.toForm == u.toForm) = true ↔ t.Within u ∧ u.Within t)
  reordered {t u : FormTable} : t.toForm.Built → u.toForm.Built → t.entries.Perm u.entries →
    (t.toForm == u.toForm) = true

/-- **Tables are maps in the order of insertion**, where equal keys are one key. -/
theorem tableLaws : Laws where
  pairs {es} hes := by
    have ht := built_ofList hes
    refine ⟨entries_ofList_eq hes, fun k hk => ?_⟩
    rw [countP_entries (entries_of_built ht) hk.proper, ← contains_ofList hes hk]
    rfl
  oneByOne es := by
    unfold ofList
    congr 1
    funext t e
    rw [exchange_eq]
  exchange {t k v} ht hk hv := by
    rw [exchange_eq]
    exact ⟨rfl, .insert ht hk hv, fun k' hk' => get?_insert ht hk hk' v⟩
  found ht hk := get?_eq_some_iff ht hk
  equalKeys {t k k'} ht hk hk' h := by
    have hget := get?_congr ht hk hk' h
    rw [contains_eq_isSome, contains_eq_isSome, hget]
    exact ⟨rfl, rfl⟩
  contains t k := contains_eq_isSome t k
  equality ht hu := same_iff_get? ht hu
  reordered {t u} ht hu hperm := by
    have hes := entries_of_built ht
    refine (same_table_iff hes (entries_of_built hu)).2 ⟨hperm.length_eq, fun d hd => ?_⟩
    exact ⟨d, hperm.mem_iff.1 hd, lawful_proper.refl (hes.1 d hd), lawful_proper.refl (hes.2.1 d hd)⟩

/-- `(1)` and `[1]` are one key: the first stays, with the value of the second. -/
example : (ofList [(.parens [.int 1], .nil), (.int 2, .nil), (.brackets [.int 1], .bool true)]).entries =
    [(.parens [.int 1], .bool true), (.int 2, .nil)] := by
  rfl

end LarkPhp.FormTable
