/-
JobPool.Proofs.Queue.Driver — a driver is a list of waiting jobs and a tally.

Whatever kind a driver is of, each operation does to the list of waiting jobs and to
the counts what its name says. For a driver over a ring that takes the layout of the
ring (`Driver.WellFormed`), which every operation keeps.
-/
import JobPool.Queue.Driver
import JobPool.Queue.Ring.Lemmas

namespace JobPool
namespace Driver

variable {α : Type}

/-- The layout of the ring, if the driver has one. -/
def WellFormed : Driver α → Prop
  | memory _ => True
  | queue d => d.ring.WellFormed
  | plain _ => True

theorem enqueue_refused {d : Driver α} {a : α} (h : (d.enqueue a).1 = false) :
    (d.enqueue a).2 = d := by
  cases d with
  | memory d => cases h
  | queue d =>
    simp only [enqueue, QueueDriver.enqueue] at h ⊢
    split at h
    · rename_i full
      rw [if_pos full]
    · cases h
  | plain d => cases h

theorem enqueue_accepted {d : Driver α} {a : α} (wf : d.WellFormed)
    (h : (d.enqueue a).1 = true) :
    (d.enqueue a).2.WellFormed ∧ (d.enqueue a).2.waiting = d.waiting ++ [a] ∧
      (d.enqueue a).2.progress = d.progress.enqueued := by
  cases d with
  | memory d => exact ⟨trivial, rfl, rfl⟩
  | queue d =>
    simp only [enqueue, QueueDriver.enqueue] at h ⊢
    split at h
    · cases h
    · rename_i room
      have room' : d.ring.len < d.ring.capacity := by
        have le := Ring.WellFormed.len_le wf
        have ne : d.ring.len ≠ d.ring.capacity := by simpa [Ring.isFull] using room
        omega
      rw [if_neg room]
      exact ⟨Ring.wellFormed_push wf room' a, Ring.toList_push wf room' a, rfl⟩
  | plain d => exact ⟨trivial, rfl, rfl⟩

theorem dequeue_none {d : Driver α} (wf : d.WellFormed) (h : d.dequeue.1 = none) :
    d.dequeue.2 = d := by
  cases d with
  | memory d =>
    obtain ⟨items, tally⟩ := d
    cases items with
    | nil => rfl
    | cons a rest => cases h
  | queue d =>
    rcases Ring.pop_cases wf with ⟨-, pop⟩ | ⟨a, r, pop, -⟩
    · simp only [dequeue, QueueDriver.dequeue, pop]
    · simp [dequeue, QueueDriver.dequeue, pop] at h
  | plain d =>
    obtain ⟨items, progress⟩ := d
    cases items with
    | nil => rfl
    | cons a rest => cases h

theorem dequeue_some {d : Driver α} {a : α} (wf : d.WellFormed) (h : d.dequeue.1 = some a) :
    d.dequeue.2.WellFormed ∧ d.waiting = a :: d.dequeue.2.waiting ∧
      d.dequeue.2.progress = d.progress.dequeued := by
  cases d with
  | memory d =>
    obtain ⟨items, tally⟩ := d
    cases items with
    | nil => cases h
    | cons b rest =>
      cases h
      exact ⟨trivial, rfl, rfl⟩
  | queue d =>
    rcases Ring.pop_cases wf with ⟨-, pop⟩ | ⟨b, r, pop, layout, -, items⟩
    · simp [dequeue, QueueDriver.dequeue, pop] at h
    · simp only [dequeue, QueueDriver.dequeue, pop, Option.some.injEq] at h ⊢
      subst h
      exact ⟨layout, items, rfl⟩
  | plain d =>
    obtain ⟨items, progress⟩ := d
    cases items with
    | nil => cases h
    | cons b rest =>
      cases h
      exact ⟨trivial, rfl, rfl⟩

theorem waiting_of_dequeue_none {d : Driver α} (wf : d.WellFormed) (h : d.dequeue.1 = none) :
    d.waiting = [] := by
  cases d with
  | memory d =>
    obtain ⟨items, tally⟩ := d
    cases items with
    | nil => rfl
    | cons a rest => cases h
  | queue d =>
    rcases Ring.pop_cases wf with ⟨none_waits, -⟩ | ⟨a, r, pop, -⟩
    · exact none_waits
    · simp [dequeue, QueueDriver.dequeue, pop] at h
  | plain d =>
    obtain ⟨items, progress⟩ := d
    cases items with
    | nil => rfl
    | cons a rest => cases h

/-- The job that waits longest is the one that is handed out. -/
theorem dequeue_of_waiting {d : Driver α} (wf : d.WellFormed) {a : α} {rest : List α}
    (h : d.waiting = a :: rest) : d.dequeue.1 = some a := by
  cases oldest : d.dequeue.1 with
  | none =>
    rw [waiting_of_dequeue_none wf oldest] at h
    cases h
  | some b =>
    rw [(dequeue_some wf oldest).2.1] at h
    rw [(List.cons.inj h).1]

/-- Where nothing waits, asking for a job changes nothing. -/
theorem dequeue_of_waiting_nil {d : Driver α} (wf : d.WellFormed) (h : d.waiting = []) :
    d.dequeue = (none, d) := by
  cases oldest : d.dequeue.1 with
  | none => exact Prod.ext oldest (dequeue_none wf oldest)
  | some a =>
    rw [(dequeue_some wf oldest).2.1] at h
    cases h

theorem progress_discarded (t : Tally) (n : Nat) :
    (t.discarded n).progress = t.progress.discarded n := by
  unfold Tally.discarded
  split
  · rename_i none
    simp [none, Progress.discarded]
  · rfl

theorem clear_spec {d : Driver α} (wf : d.WellFormed) :
    d.clear.WellFormed ∧ d.clear.waiting = [] ∧
      d.clear.progress = d.progress.discarded d.waiting.length := by
  cases d with
  | memory d => exact ⟨trivial, rfl, progress_discarded ..⟩
  | queue d =>
    refine ⟨Ring.wellFormed_clear wf, Ring.toList_clear wf, ?_⟩
    show (d.tally.discarded d.ring.len).progress = _
    rw [progress_discarded, ← Ring.length_toList wf]
    rfl
  | plain d => exact ⟨trivial, rfl, rfl⟩

theorem waiting_complete (success : Bool) (d : Driver α) :
    (d.complete success).waiting = d.waiting := by
  cases d <;> rfl

theorem complete_spec {d : Driver α} (wf : d.WellFormed) (success : Bool) :
    (d.complete success).WellFormed ∧ (d.complete success).waiting = d.waiting ∧
      (d.complete success).progress = d.progress.done success := by
  cases d with
  | memory d => exact ⟨trivial, rfl, rfl⟩
  | queue d => exact ⟨wf, rfl, rfl⟩
  | plain d => exact ⟨trivial, rfl, rfl⟩

end Driver
end JobPool
