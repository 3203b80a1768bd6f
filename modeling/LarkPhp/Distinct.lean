/-!
Lists without repeats, kept in the order of first occurrence.

`add` appends a value unless an equal one is there, `ofList` keeps the first of equal values.
Locals of a scope, elements of a set and queued diagnostics are all kept this way.
-/

namespace LarkPhp.Distinct

variable {α : Type} [BEq α]

/-- `xs` with `x` at the end, unless it holds `x` already. -/
def add (xs : List α) (x : α) : List α := if xs.contains x then xs else xs ++ [x]

/-- `xs` followed by the values of `ys` that are new, in their order. -/
def addAll (xs ys : List α) : List α := ys.foldl add xs

/-- The first occurrences of the values of `xs`. -/
def ofList (xs : List α) : List α := addAll [] xs

/-! ### Equations -/

theorem add_of_contains {xs : List α} {x : α} (h : xs.contains x = true) : add xs x = xs := by
  simp only [add, h, if_true]

theorem add_of_not_contains {xs : List α} {x : α} (h : xs.contains x = false) :
    add xs x = xs ++ [x] := by
  simp [add, h]

@[simp] theorem addAll_nil (xs : List α) : addAll xs [] = xs := rfl

@[simp] theorem addAll_cons (xs : List α) (y : α) (ys : List α) :
    addAll xs (y :: ys) = addAll (add xs y) ys := rfl

theorem addAll_append (xs ys zs : List α) :
    addAll xs (ys ++ zs) = addAll (addAll xs ys) zs :=
  List.foldl_append

/-- What is new is appended as it is first met. -/
theorem addAll_eq (xs ys : List α) :
    addAll xs ys = xs ++ (ys.filter fun y => !xs.contains y).eraseDups := by
  induction ys generalizing xs with
  | nil => simp
  | cons y ys ih =>
    rw [addAll_cons, ih]
    by_cases h : xs.contains y = true
    · rw [add_of_contains h, List.filter_cons_of_neg (by simpa using h)]
    · have h : xs.contains y = false := by simpa using h
      -- what differs from `xs` and from `y` is what differs from `xs ++ [y]`
      have hboth : ∀ z, (!(xs ++ [y]).contains z) = (!(z == y) && !xs.contains z) := by
        intro z
        simp [List.contains_eq_any_beq, Bool.and_comm]
      rw [add_of_not_contains h, List.filter_cons_of_pos (by simp [h]), List.eraseDups_cons,
        List.filter_filter, List.append_assoc, List.singleton_append]
      simp only [hboth]

theorem ofList_eq (xs : List α) : ofList xs = xs.eraseDups := by
  have hnew : (xs.filter fun x => !([] : List α).contains x) = xs :=
    List.filter_eq_self.2 fun _ _ => rfl
  rw [ofList, addAll_eq, hnew, List.nil_append]

/-! ### Members -/

section Members
variable [LawfulBEq α]

theorem mem_add {xs : List α} {x y : α} : y ∈ add xs x ↔ y ∈ xs ∨ y = x := by
  unfold add
  split
  · next h =>
    refine ⟨Or.inl, ?_⟩
    rintro (h' | rfl)
    · exact h'
    · simpa using h
  · simp

theorem mem_addAll {xs ys : List α} {y : α} : y ∈ addAll xs ys ↔ y ∈ xs ∨ y ∈ ys := by
  induction ys generalizing xs with
  | nil => simp
  | cons z zs ih => simp [ih, mem_add, or_assoc]

theorem mem_ofList {xs : List α} {y : α} : y ∈ ofList xs ↔ y ∈ xs := by
  simp [ofList, mem_addAll]

theorem nodup_add {xs : List α} (h : xs.Nodup) (x : α) : (add xs x).Nodup := by
  unfold add
  split
  · exact h
  · next hx =>
    rw [List.nodup_append]
    refine ⟨h, by simp, ?_⟩
    rintro a ha b hb rfl
    exact hx (by simpa [List.mem_singleton.1 hb] using ha)

theorem nodup_addAll {xs : List α} (h : xs.Nodup) (ys : List α) : (addAll xs ys).Nodup := by
  induction ys generalizing xs with
  | nil => exact h
  | cons y ys ih => exact ih (nodup_add h y)

theorem nodup_ofList (xs : List α) : (ofList xs).Nodup := nodup_addAll List.nodup_nil xs

end Members

end LarkPhp.Distinct
