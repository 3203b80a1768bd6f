import Mathlib.Data.List.DropRight
import LarkPhp.Diagnostic.Queue

/-!
Queues of diagnostics against their log.

The log of a queue is all that was added to it since it was last flushed, repeats and all.  After any
sequence of events the entries of the queue are the log with later repeats dropped, a diagnostic is
refused exactly if it is in the log, and errors and warnings are counted right.
-/

namespace LarkPhp.Diagnostic

/-- What can happen to a queue. -/
inductive Event where
  | add (d : Diagnostic)
  | flush

/-- The diagnostic that an event adds. -/
def Event.added? : Event → Option Diagnostic
  | add d => some d
  | flush => none

/-- What was added since the last flush, in order. -/
def log (events : List Event) : List Diagnostic :=
  (events.rtakeWhile (·.added?.isSome)).filterMap Event.added?

namespace Queue

/-- The queue after an event. -/
def step (q : Queue) : Event → Queue
  | .add d => (q.enqueue d).2
  | .flush => q.flush.2

/-- A new queue after some events. -/
def run (events : List Event) : Queue := events.foldl step empty

/-! ### One event -/

section Step
variable (events : List Event) (d : Diagnostic)

theorem run_concat (e : Event) : run (events ++ [e]) = (run events).step e :=
  List.foldl_concat _ _ _ _

theorem log_add : log (events ++ [.add d]) = log events ++ [d] := by
  unfold log
  rw [List.rtakeWhile_concat_pos _ _ _ rfl, List.filterMap_append]
  rfl

theorem log_flush : log (events ++ [.flush]) = [] := by
  unfold log
  rw [List.rtakeWhile_concat_neg _ _ _ Bool.false_ne_true]
  rfl

/-- A repeat leaves the first occurrences as they are, and what is new comes last. -/
theorem eraseDups_concat (ds : List Diagnostic) :
    (ds ++ [d]).eraseDups = Distinct.add ds.eraseDups d := by
  rw [← Distinct.ofList_eq, ← Distinct.ofList_eq]
  exact Distinct.addAll_append [] ds [d]

end Step

/-! ### Any events -/

/-- **The entries of a queue are its log without later repeats.** -/
theorem entries_run (events : List Event) : (run events).entries = (log events).eraseDups := by
  induction events using List.reverseRecOn with
  | nil => rfl
  | append_singleton events e ih =>
    rw [run_concat]
    cases e with
    | add d =>
      show ((run events).add d).entries = _
      rw [entries_add, ih, log_add, eraseDups_concat]
    | flush =>
      rw [log_flush]
      rfl

theorem errors_le_size (q : Queue) : q.errorCount ≤ q.size := by
  unfold errorCount
  rw [q.errors_eq]
  exact List.countP_le_length

/-- What is no error is a warning. -/
theorem warningCount_eq (q : Queue) : q.warningCount = q.entries.countP (!·.isError) := by
  have hsplit : q.size = q.errors + q.entries.countP (!·.isError) := by
    rw [size, q.errors_eq]
    simpa using q.entries.length_eq_countP_add_countP isError
  unfold warningCount
  omega

theorem enqueue_fst (q : Queue) (d : Diagnostic) : (q.enqueue d).1 = true ↔ d ∉ q.entries := by
  rw [← q.contains_iff]
  unfold enqueue
  split
  · next h => simp [h]
  · next h => simp [h]

/-- **A queue is its log without later repeats,** whatever was added to it and whenever it was
flushed.  That is what it holds and what a flush hands out; a diagnostic is new to it exactly if the
log does not have it.  The counts are those of the errors and of the other entries, of which there are
never less than none. -/
theorem queue_eq_log (events : List Event) :
    (run events).entries = (log events).eraseDups ∧
    (run events).flush.1 = (log events).eraseDups ∧
    (∀ d, ((run events).enqueue d).1 = true ↔ d ∉ log events) ∧
    (∀ d, d ∈ (run events).seen ↔ d ∈ log events) ∧
    (run events).size = (log events).eraseDups.length ∧
    (run events).errorCount = (log events).eraseDups.countP isError ∧
    (run events).warningCount = (log events).eraseDups.countP (!·.isError) ∧
    (run events).errorCount ≤ (run events).size := by
  have hentries := entries_run events
  have hmem : ∀ d, d ∈ (run events).entries ↔ d ∈ log events := by
    intro d
    rw [hentries, ← Distinct.ofList_eq, Distinct.mem_ofList]
  refine ⟨hentries, hentries, fun d => ?_, fun d => ?_, ?_, ?_, ?_, errors_le_size _⟩
  · rw [enqueue_fst, hmem]
  · rw [(run events).mem_seen, hmem]
  · rw [size, hentries]
  · rw [errorCount, (run events).errors_eq, hentries]
  · rw [warningCount_eq, hentries]

end Queue

end LarkPhp.Diagnostic
