import LarkPhp.Form.Basic

/-!
Equality of forms.

Tuples and arrays are compared element by element.  Sets and tables are compared by size and by
what they hold, in any order.  Doubles are compared by their bits.  Delimiters and spans do not
count.
-/

namespace LarkPhp.Form

mutual
/-- Whether two forms are equal. -/
def same : Form → Form → Bool
  | .nil, .nil => true
  | .bool a, .bool b => a == b
  | .int a, .int b => a == b
  | .float a, .float b => a == b
  | .str a, .str b => a == b
  | .keyword a, .keyword b => a == b
  | .symbol a _, .symbol b _ => a == b
  | .tuple _ xs _, .tuple _ ys _ => sameAll xs ys
  | .table ds _, .table es _ => ds.length == es.length && entriesIn ds es
  | .set xs _, .set ys _ => xs.length == ys.length && allIn xs ys
  | .array xs _, .array ys _ => sameAll xs ys
  | _, _ => false
termination_by structural f => f

/-- Whether two lists are equal element by element. -/
def sameAll : List Form → List Form → Bool
  | [], [] => true
  | x :: xs, y :: ys => x.same y && sameAll xs ys
  | _, _ => false
termination_by structural xs => xs

/-- Whether every form of the first list equals one of the second. -/
def allIn : List Form → List Form → Bool
  | [], _ => true
  | x :: xs, ys => ys.any (fun y => x.same y) && allIn xs ys
termination_by structural xs => xs

/-- Whether every key of the first list has an equal value in the second. -/
def entriesIn : List (Form × Form) → List (Form × Form) → Bool
  | [], _ => true
  | (k, v) :: ds, es =>
    (match es.find? (fun e => k.same e.1) with
      | some e => v.same e.2
      | none => false) && entriesIn ds es
termination_by structural ds => ds
end

instance : BEq Form := ⟨same⟩

theorem beq_def (a b : Form) : (a == b) = a.same b := rfl

theorem allIn_eq (xs ys : List Form) : allIn xs ys = xs.all (fun x => ys.contains x) := by
  induction xs with
  | nil => rfl
  | cons x xs ih => simp [allIn, ih, List.contains_eq_any_beq, beq_def]

end LarkPhp.Form
