import LarkPhp.Form.Collection
import Mathlib.Data.List.Forall2
import Mathlib.Data.List.Perm.Basic

/-!
Equality of forms is an equivalence.

Sets and tables are compared in one direction only: they have the same size, and what the left one
holds is found in the right one.  That is enough because no form that is made by the operations of
sets and tables holds two equal elements or keys, at any depth (`Proper`): then two elements on the
left never have the same partner on the right, and all on the right are met (`exists_perm_forall₂`).
The laws are proved together, by induction on the height of the forms.
-/

namespace LarkPhp

/-! ### Partners -/

/-- Lists of one length, where everything on the left has a partner on the right and no two have
the same one: reordered, the right list matches the left one place by place. -/
theorem exists_perm_forall₂ {α β : Type} {R : α → β → Prop} {xs : List α} {ys : List β}
    (hlen : xs.length = ys.length) (hall : ∀ x ∈ xs, ∃ y ∈ ys, R x y)
    (hapart : xs.Pairwise fun a b => ∀ y ∈ ys, R a y → ¬ R b y) :
    ∃ zs, zs.Perm ys ∧ List.Forall₂ R xs zs := by
  induction xs generalizing ys with
  | nil =>
    have hys : ys = [] := List.eq_nil_of_length_eq_zero hlen.symm
    subst hys
    exact ⟨[], List.Perm.refl _, .nil⟩
  | cons x xs ih =>
    obtain ⟨hx, hxs⟩ := List.forall_mem_cons.1 hall
    obtain ⟨hfirst, hrest⟩ := List.pairwise_cons.1 hapart
    obtain ⟨y, hy, hxy⟩ := hx
    obtain ⟨left, right, rfl⟩ := List.append_of_mem hy
    -- the others find their partners beside the one of `x`
    have hothers : ∀ a ∈ xs, ∃ b ∈ left ++ right, R a b := by
      intro a ha
      obtain ⟨b, hb, hab⟩ := hxs a ha
      have hne : b ≠ y := by
        rintro rfl
        exact hfirst a ha b hy hxy hab
      refine ⟨b, ?_, hab⟩
      simp only [List.mem_append, List.mem_cons] at hb ⊢
      tauto
    have hlen' : xs.length = (left ++ right).length := by
      simp only [List.length_cons, List.length_append] at hlen ⊢
      omega
    have hrest' : xs.Pairwise fun a b => ∀ y ∈ left ++ right, R a y → ¬ R b y := by
      refine hrest.imp fun h z hz => h z ?_
      simp only [List.mem_append, List.mem_cons] at hz ⊢
      tauto
    obtain ⟨zs, hperm, hmatch⟩ := ih hlen' hothers hrest'
    exact ⟨y :: zs, (hperm.cons y).trans List.perm_middle.symm, .cons hxy hmatch⟩

theorem exists_mem_of_forall₂ {α β : Type} {R : α → β → Prop} {xs : List α} {ys : List β}
    (h : List.Forall₂ R xs ys) : ∀ x ∈ xs, ∃ y ∈ ys, R x y := by
  induction h with
  | nil => simp
  | @cons a b xs ys hab _ ih =>
    refine List.forall_mem_cons.2 ⟨⟨b, List.mem_cons_self, hab⟩, fun x hx => ?_⟩
    obtain ⟨y, hy, hxy⟩ := ih x hx
    exact ⟨y, List.mem_cons_of_mem b hy, hxy⟩

/-- A relation that is an equivalence among the values that `P` holds of. -/
structure Lawful {α : Type} (R : α → α → Prop) (P : α → Prop) : Prop where
  refl {a} : P a → R a a
  symm {a b} : P a → P b → R a b → R b a
  trans {a b c} : P a → P b → P c → R a b → R b c → R a c

namespace Lawful

variable {α : Type} {R : α → α → Prop} {P : α → Prop} (h : Lawful R P)
variable {xs ys zs : List α} (hx : ∀ x ∈ xs, P x) (hy : ∀ y ∈ ys, P y) (hz : ∀ z ∈ zs, P z)
include h hx

theorem forall₂_refl : List.Forall₂ R xs xs :=
  List.forall₂_same.2 fun x hmem => h.refl (hx x hmem)

include hy

theorem forall₂_symm (hxy : List.Forall₂ R xs ys) : List.Forall₂ R ys xs := by
  induction hxy with
  | nil => exact .nil
  | cons hab _ ih =>
    obtain ⟨ha, hxs⟩ := List.forall_mem_cons.1 hx
    obtain ⟨hb, hys⟩ := List.forall_mem_cons.1 hy
    exact .cons (h.symm ha hb hab) (ih hxs hys)

/-- Two values that differ have no common partner. -/
theorem apart (hdistinct : xs.Pairwise fun a b => ¬ R a b) :
    xs.Pairwise fun a b => ∀ y ∈ ys, R a y → ¬ R b y := by
  refine hdistinct.imp_of_mem ?_
  intro a b ha hb hab y hmem hay hby
  have hyb : R y b := h.symm (hx b hb) (hy y hmem) hby
  exact hab (h.trans (hx a ha) (hy y hmem) (hx b hb) hay hyb)

/-- If all on the left have partners, so have all on the right. -/
theorem partners_symm (hlen : xs.length = ys.length) (hall : ∀ x ∈ xs, ∃ y ∈ ys, R x y)
    (hdistinct : xs.Pairwise fun a b => ¬ R a b) : ∀ y ∈ ys, ∃ x ∈ xs, R y x := by
  obtain ⟨zs, hperm, hmatch⟩ := exists_perm_forall₂ hlen hall (h.apart hx hy hdistinct)
  have hback := h.forall₂_symm hx (fun z hz => hy z (hperm.mem_iff.1 hz)) hmatch
  exact fun y hmem => exists_mem_of_forall₂ hback y (hperm.mem_iff.2 hmem)

include hz

theorem forall₂_trans (hxy : List.Forall₂ R xs ys) (hyz : List.Forall₂ R ys zs) :
    List.Forall₂ R xs zs := by
  induction hxy generalizing zs with
  | nil => exact hyz
  | cons hab _ ih =>
    cases hyz with
    | cons hbc hyz =>
      obtain ⟨ha, hxs⟩ := List.forall_mem_cons.1 hx
      obtain ⟨hb, hys⟩ := List.forall_mem_cons.1 hy
      obtain ⟨hc, hzs⟩ := List.forall_mem_cons.1 hz
      exact .cons (h.trans ha hb hc hab hbc) (ih hxs hys hzs hyz)

theorem partners_trans (hxy : ∀ x ∈ xs, ∃ y ∈ ys, R x y) (hyz : ∀ y ∈ ys, ∃ z ∈ zs, R y z) :
    ∀ x ∈ xs, ∃ z ∈ zs, R x z := by
  intro x hmem
  obtain ⟨y, hymem, hxy⟩ := hxy x hmem
  obtain ⟨z, hzmem, hyz⟩ := hyz y hymem
  exact ⟨z, hzmem, h.trans (hx x hmem) (hy y hymem) (hz z hzmem) hxy hyz⟩

end Lawful

namespace Form

/-! ### One level -/

/-- Two forms are equal. -/
abbrev Same (a b : Form) : Prop := a.same b = true

/-- The keys are equal, and the values too. -/
def SameEntry (d e : Form × Form) : Prop := Same d.1 e.1 ∧ Same d.2 e.2

/-- What equality asks of two forms, with what it asks of their parts. -/
inductive Level : Form → Form → Prop
  | scalar {f} : f.isScalar = true → Level f f
  | symbol {s p q} : Level (.symbol s p) (.symbol s q)
  | tuple {d d' xs ys p q} :
    List.Forall₂ Same xs ys → Level (.tuple d xs p) (.tuple d' ys q)
  | table {ds es p q} :
    ds.length = es.length →
    (∀ d ∈ ds, ∃ e, es.find? (fun e => d.1.same e.1) = some e ∧ Same d.2 e.2) →
    Level (.table ds p) (.table es q)
  | set {xs ys p q} :
    xs.length = ys.length → (∀ x ∈ xs, ∃ y ∈ ys, Same x y) → Level (.set xs p) (.set ys q)
  | array {xs ys p q} :
    List.Forall₂ Same xs ys → Level (.array xs p) (.array ys q)

theorem sameAll_iff {xs ys : List Form} :
    sameAll xs ys = true ↔ List.Forall₂ Same xs ys := by
  induction xs generalizing ys with
  | nil => cases ys <;> simp [sameAll]
  | cons x xs ih =>
    cases ys with
    | nil => simp [sameAll]
    | cons y ys => simp [sameAll, ih]

theorem allIn_iff {xs ys : List Form} :
    allIn xs ys = true ↔ ∀ x ∈ xs, ∃ y ∈ ys, Same x y := by
  induction xs with
  | nil => simp [allIn]
  | cons x xs ih => simp [allIn, ih]

theorem entriesIn_iff {ds es : List (Form × Form)} :
    entriesIn ds es = true ↔
      ∀ d ∈ ds, ∃ e, es.find? (fun e => d.1.same e.1) = some e ∧ Same d.2 e.2 := by
  induction ds with
  | nil => simp [entriesIn]
  | cons d ds ih =>
    obtain ⟨k, v⟩ := d
    rw [entriesIn, Bool.and_eq_true, ih, List.forall_mem_cons]
    refine and_congr ?_ Iff.rfl
    cases es.find? (fun e => k.same e.1) with
    | none => simp
    | some e => simp

theorem same_iff_level {a b : Form} : a.same b = true ↔ Level a b := by
  constructor
  · intro h
    unfold same at h
    split at h
    · exact .scalar rfl
    · cases eq_of_beq h
      exact .scalar rfl
    · cases eq_of_beq h
      exact .scalar rfl
    · cases eq_of_beq h
      exact .scalar rfl
    · cases eq_of_beq h
      exact .scalar rfl
    · cases eq_of_beq h
      exact .scalar rfl
    · cases eq_of_beq h
      exact .symbol
    · exact .tuple (sameAll_iff.1 h)
    · obtain ⟨hlen, hin⟩ := Bool.and_eq_true_iff.1 h
      exact .table (eq_of_beq hlen) (entriesIn_iff.1 hin)
    · obtain ⟨hlen, hin⟩ := Bool.and_eq_true_iff.1 h
      exact .set (eq_of_beq hlen) (allIn_iff.1 hin)
    · exact .array (sameAll_iff.1 h)
    · cases h
  · intro h
    cases h with
    | scalar h => cases a <;> simp_all [same, isScalar]
    | symbol => simp [same]
    | tuple h | array h => rwa [same, sameAll_iff]
    | table hlen h => simp [same, hlen, entriesIn_iff.2 h]
    | set hlen h => simp [same, hlen, allIn_iff.2 h]

/-! ### Forms without repeats -/

/-- No set in the form holds two equal elements, and no table two equal keys. -/
inductive Proper : Form → Prop
  | scalar {f} : f.isScalar = true → Proper f
  | symbol {s p} : Proper (.symbol s p)
  | tuple {d xs p} : (∀ x ∈ xs, Proper x) → Proper (.tuple d xs p)
  | table {es p} :
    (∀ e ∈ es, Proper e.1) → (∀ e ∈ es, Proper e.2) →
    es.Pairwise (fun d e => ¬ Same d.1 e.1) → Proper (.table es p)
  | set {xs p} : (∀ x ∈ xs, Proper x) → xs.Pairwise (fun x y => ¬ Same x y) → Proper (.set xs p)
  | array {xs p} : (∀ x ∈ xs, Proper x) → Proper (.array xs p)

/-- Proper forms of at most the given height. -/
def ProperTo (n : Nat) (f : Form) : Prop := f.Proper ∧ f.height ≤ n

/-- Entries of proper forms of at most the given height. -/
def ProperEntryTo (n : Nat) (e : Form × Form) : Prop := ProperTo n e.1 ∧ ProperTo n e.2

section Parts
variable {n : Nat} {xs : List Form} {es : List (Form × Form)}

theorem ProperTo.all (hx : ∀ x ∈ xs, Proper x) (hn : heightAll xs + 1 ≤ n + 1) :
    ∀ x ∈ xs, ProperTo n x := by
  intro x hmem
  have := height_le_heightAll hmem
  exact ⟨hx x hmem, by omega⟩

theorem ProperTo.tuple {d : Delimiter} {p : Option Span} (h : ProperTo (n + 1) (.tuple d xs p)) :
    ∀ x ∈ xs, ProperTo n x := by
  obtain ⟨hp, hn⟩ := h
  cases hp with
  | scalar h => cases h
  | tuple hx => exact ProperTo.all hx hn

theorem ProperTo.array {p : Option Span} (h : ProperTo (n + 1) (.array xs p)) :
    ∀ x ∈ xs, ProperTo n x := by
  obtain ⟨hp, hn⟩ := h
  cases hp with
  | scalar h => cases h
  | array hx => exact ProperTo.all hx hn

theorem ProperTo.set {p : Option Span} (h : ProperTo (n + 1) (.set xs p)) :
    (∀ x ∈ xs, ProperTo n x) ∧ xs.Pairwise fun x y => ¬ Same x y := by
  obtain ⟨hp, hn⟩ := h
  cases hp with
  | scalar h => cases h
  | set hx hdistinct => exact ⟨ProperTo.all hx hn, hdistinct⟩

theorem ProperTo.table {p : Option Span} (h : ProperTo (n + 1) (.table es p)) :
    (∀ e ∈ es, ProperEntryTo n e) ∧ es.Pairwise fun d e => ¬ Same d.1 e.1 := by
  obtain ⟨hp, hn⟩ := h
  cases hp with
  | scalar h => cases h
  | table hk hv hdistinct =>
    refine ⟨fun e he => ?_, hdistinct⟩
    have hle : heightEntries es + 1 ≤ n + 1 := hn
    have := height_le_heightEntries he
    exact ⟨⟨hk e he, by omega⟩, ⟨hv e he, by omega⟩⟩

end Parts

/-! ### Entries of tables -/

section Entries
variable {P : Form → Prop} (h : Lawful Same P)
variable {ds es : List (Form × Form)}
include h

theorem lawful_entries : Lawful SameEntry fun e => P e.1 ∧ P e.2 where
  refl ha := ⟨h.refl ha.1, h.refl ha.2⟩
  symm ha hb hab := ⟨h.symm ha.1 hb.1 hab.1, h.symm ha.2 hb.2 hab.2⟩
  trans ha hb hc hab hbc :=
    ⟨h.trans ha.1 hb.1 hc.1 hab.1 hbc.1, h.trans ha.2 hb.2 hc.2 hab.2 hbc.2⟩

/-- Among different keys, the first one that equals `k` is the only one. -/
theorem find?_eq_some_of_same {k : Form} {e : Form × Form} (hk : P k) (hes : ∀ e ∈ es, P e.1)
    (hdistinct : es.Pairwise fun d e => ¬ Same d.1 e.1) (he : e ∈ es) (hke : Same k e.1) :
    es.find? (fun e => k.same e.1) = some e := by
  induction es with
  | nil => cases he
  | cons d es ih =>
    obtain ⟨hd, hes⟩ := List.forall_mem_cons.1 hes
    obtain ⟨hfirst, hdistinct⟩ := List.pairwise_cons.1 hdistinct
    rcases List.mem_cons.1 he with rfl | he
    · exact List.find?_cons_of_pos (p := fun e : Form × Form => k.same e.1) hke
    · have hkd : ¬ Same k d.1 := by
        intro hkd
        have hdk : Same d.1 k := h.symm hk hd hkd
        exact hfirst e he (h.trans hd hk (hes e he) hdk hke)
      rw [List.find?_cons_of_neg (p := fun e : Form × Form => k.same e.1) hkd]
      exact ih hes hdistinct he

/-- In a table without repeats, the value under a key is that of any entry with an equal key. -/
theorem lookups_iff (hds : ∀ d ∈ ds, P d.1) (hes : ∀ e ∈ es, P e.1)
    (hdistinct : es.Pairwise fun d e => ¬ Same d.1 e.1) :
    (∀ d ∈ ds, ∃ e, es.find? (fun e => d.1.same e.1) = some e ∧ Same d.2 e.2) ↔
      ∀ d ∈ ds, ∃ e ∈ es, SameEntry d e := by
  refine forall₂_congr fun d hd => ⟨?_, ?_⟩
  · rintro ⟨e, hfind, hv⟩
    have hk := List.find?_some (p := fun e : Form × Form => d.1.same e.1) hfind
    exact ⟨e, List.mem_of_find?_eq_some hfind, hk, hv⟩
  · rintro ⟨e, he, hk, hv⟩
    exact ⟨e, find?_eq_some_of_same h (hds d hd) hes hdistinct he hk, hv⟩

end Entries

/-! ### From the parts to the whole -/

section Laws
variable {n : Nat} (h : Lawful Same (ProperTo n))
include h

theorem lookups_iff_of_properTo {ds es : List (Form × Form)} (hds : ∀ d ∈ ds, ProperEntryTo n d)
    (hes : ∀ e ∈ es, ProperEntryTo n e) (hdistinct : es.Pairwise fun d e => ¬ Same d.1 e.1) :
    (∀ d ∈ ds, ∃ e, es.find? (fun e => d.1.same e.1) = some e ∧ Same d.2 e.2) ↔
      ∀ d ∈ ds, ∃ e ∈ es, SameEntry d e :=
  lookups_iff h (fun d hd => (hds d hd).1) (fun e he => (hes e he).1) hdistinct

theorem same_refl_of_parts {a : Form} (ha : ProperTo (n + 1) a) : Same a a := by
  refine same_iff_level.2 ?_
  cases a with
  | symbol s p => exact .symbol
  | tuple d xs p => exact .tuple (h.forall₂_refl ha.tuple)
  | array xs p => exact .array (h.forall₂_refl ha.array)
  | set xs p => exact .set rfl (exists_mem_of_forall₂ (h.forall₂_refl ha.set.1))
  | table es p =>
    obtain ⟨hes, hdistinct⟩ := ha.table
    refine .table rfl ((lookups_iff_of_properTo h hes hes hdistinct).2 ?_)
    exact exists_mem_of_forall₂ ((lawful_entries h).forall₂_refl hes)
  | _ => exact .scalar rfl

theorem same_symm_of_parts {a b : Form} (ha : ProperTo (n + 1) a) (hb : ProperTo (n + 1) b)
    (hab : Same a b) : Same b a := by
  refine same_iff_level.2 ?_
  cases same_iff_level.1 hab with
  | scalar hs => exact .scalar hs
  | symbol => exact .symbol
  | tuple hxy => exact .tuple (h.forall₂_symm ha.tuple hb.tuple hxy)
  | array hxy => exact .array (h.forall₂_symm ha.array hb.array hxy)
  | set hlen hxy =>
    obtain ⟨hxs, hdistinct⟩ := ha.set
    exact .set hlen.symm (h.partners_symm hxs hb.set.1 hlen hxy hdistinct)
  | table hlen hde =>
    obtain ⟨hds, hdistinct⟩ := ha.table
    obtain ⟨hes, hdistinct'⟩ := hb.table
    have hapart := hdistinct.imp fun hk (hde : SameEntry _ _) => hk hde.1
    have hpartners := (lookups_iff_of_properTo h hds hes hdistinct').1 hde
    refine .table hlen.symm ((lookups_iff_of_properTo h hes hds hdistinct).2 ?_)
    exact (lawful_entries h).partners_symm hds hes hlen hpartners hapart

theorem same_trans_of_parts {a b c : Form} (ha : ProperTo (n + 1) a) (hb : ProperTo (n + 1) b)
    (hc : ProperTo (n + 1) c) (hab : Same a b) (hbc : Same b c) : Same a c := by
  refine same_iff_level.2 ?_
  cases same_iff_level.1 hab with
  | scalar => exact same_iff_level.1 hbc
  | symbol =>
    cases same_iff_level.1 hbc with
    | scalar hs => cases hs
    | symbol => exact .symbol
  | tuple hxy =>
    cases same_iff_level.1 hbc with
    | scalar hs => cases hs
    | tuple hyz => exact .tuple (h.forall₂_trans ha.tuple hb.tuple hc.tuple hxy hyz)
  | array hxy =>
    cases same_iff_level.1 hbc with
    | scalar hs => cases hs
    | array hyz => exact .array (h.forall₂_trans ha.array hb.array hc.array hxy hyz)
  | set hlen hxy =>
    cases same_iff_level.1 hbc with
    | scalar hs => cases hs
    | set hlen' hyz =>
      exact .set (hlen.trans hlen') (h.partners_trans ha.set.1 hb.set.1 hc.set.1 hxy hyz)
  | table hlen hde =>
    cases same_iff_level.1 hbc with
    | scalar hs => cases hs
    | table hlen' hef =>
      obtain ⟨hds, -⟩ := ha.table
      obtain ⟨hes, hdistinct⟩ := hb.table
      obtain ⟨hfs, hdistinct'⟩ := hc.table
      have hleft := (lookups_iff_of_properTo h hds hes hdistinct).1 hde
      have hright := (lookups_iff_of_properTo h hes hfs hdistinct').1 hef
      refine .table (hlen.trans hlen') ((lookups_iff_of_properTo h hds hfs hdistinct').2 ?_)
      exact (lawful_entries h).partners_trans hds hes hfs hleft hright

end Laws

/-! ### The laws -/

/-- Equality is an equivalence among proper forms of every height. -/
theorem lawful_properTo (n : Nat) : Lawful Same (ProperTo n) := by
  induction n with
  | zero =>
    have hnone : ∀ f, ¬ ProperTo 0 f := by
      intro f hf
      have := f.height_pos
      have := hf.2
      omega
    exact ⟨fun ha => (hnone _ ha).elim, fun ha => (hnone _ ha).elim, fun ha => (hnone _ ha).elim⟩
  | succ n ih => exact ⟨same_refl_of_parts ih, same_symm_of_parts ih, same_trans_of_parts ih⟩

/-- **Equality is an equivalence among proper forms.** -/
theorem lawful_proper : Lawful Same Proper where
  refl {a} ha := (lawful_properTo a.height).refl ⟨ha, Nat.le_refl _⟩
  symm {a b} ha hb :=
    (lawful_properTo (max a.height b.height)).symm ⟨ha, Nat.le_max_left _ _⟩
      ⟨hb, Nat.le_max_right _ _⟩
  trans {a b c} ha hb hc :=
    (lawful_properTo (max a.height (max b.height c.height))).trans ⟨ha, by omega⟩ ⟨hb, by omega⟩
      ⟨hc, by omega⟩

end Form

end LarkPhp
