import LarkPhp.Diagnostic.Basic
import LarkPhp.Distinct

/-!
Queued diagnostics.  Work goes on after a warning, and the same one can be reached again, so the
queue drops exact repeats and keeps the order in which its entries were first seen.
-/

namespace LarkPhp.Diagnostic

/-- Diagnostics that wait to be shown, without repeats.  What was seen is kept apart from the order
that it is shown in, and errors are counted as they come. -/
structure Queue where
  entries : List Diagnostic
  /-- What is waiting, in any order. -/
  seen : List Diagnostic
  errors : Nat
  mem_seen : ∀ d, d ∈ seen ↔ d ∈ entries
  errors_eq : errors = entries.countP isError

namespace Queue

def empty : Queue := ⟨[], [], 0, fun _ => Iff.rfl, rfl⟩

instance : Inhabited Queue := ⟨empty⟩

/-- Whether a diagnostic is waiting. -/
def contains (q : Queue) (d : Diagnostic) : Bool := q.seen.contains d

/-- The queue with a diagnostic at its end. -/
def push (q : Queue) (d : Diagnostic) : Queue where
  entries := q.entries ++ [d]
  seen := d :: q.seen
  errors := if d.isError then q.errors + 1 else q.errors
  mem_seen e := by simp [q.mem_seen, or_comm]
  errors_eq := by
    rw [List.countP_append, List.countP_singleton, q.errors_eq]
    split <;> rfl

/-- Queues a diagnostic unless it is waiting already, and tells whether it was not. -/
def enqueue (q : Queue) (d : Diagnostic) : Bool × Queue :=
  if q.contains d then (false, q) else (true, q.push d)

/-- Queues a diagnostic unless it is waiting already. -/
def add (q : Queue) (d : Diagnostic) : Queue := (q.enqueue d).2

def size (q : Queue) : Nat := q.entries.length

def errorCount (q : Queue) : Nat := q.errors

def warningCount (q : Queue) : Nat := q.size - q.errors

/-- All that is waiting, and the queue after it was taken. -/
def flush (q : Queue) : List Diagnostic × Queue := (q.entries, empty)

theorem contains_iff (q : Queue) (d : Diagnostic) : q.contains d = true ↔ d ∈ q.entries := by
  rw [contains, List.contains_iff_mem, q.mem_seen]

theorem entries_add (q : Queue) (d : Diagnostic) :
    (q.add d).entries = Distinct.add q.entries d := by
  have hseen : q.contains d = q.entries.contains d := by
    rw [Bool.eq_iff_iff, q.contains_iff, List.contains_iff_mem]
  unfold add enqueue Distinct.add
  rw [hseen]
  split <;> rfl

end Queue

end LarkPhp.Diagnostic
