/-
JobPool.Proofs.Queue.Audience — the two bundled drivers differ in the jobs that are refused.

A driver over a ring is compared with the same driver without its bound. One use either is a
job that finds the ring full, and then nothing changes, or it has the answer that it has
without the bound, and leads to the same driver without the bound (`Meets`,
`QueueDriver.Bounded.meets`). Along a sequence of uses the driver without bound that is asked
for the granted ones only stays the one over the ring without its bound (`follow_granted`).
Where in the ring the jobs lie does not matter, since the list of waiting jobs is all that is
compared.
-/
import JobPool.Proofs.Queue.Driver
import JobPool.Queue.Audience

namespace JobPool

variable {α : Type}

/-! ## The operations of a driver over a ring -/

namespace QueueDriver

/-- The ring has the right layout and room for `bound` jobs, and the counts know how many of
them wait. -/
structure Bounded (bound : Nat) (d : QueueDriver α) : Prop where
  wellFormed : d.ring.WellFormed
  capacity : d.ring.capacity = bound
  pending : d.tally.progress.pending = d.ring.len

variable {bound : Nat} {d : QueueDriver α}

theorem bounded_ofCapacity (capacity : Nat) :
    (ofCapacity capacity : QueueDriver α).Bounded (max capacity 1) :=
  ⟨Ring.wellFormed_empty capacity, Ring.capacity_empty capacity, rfl⟩

theorem Bounded.isFull_iff (h : d.Bounded bound) :
    d.ring.isFull = true ↔ d.tally.progress.pending = bound := by
  rw [h.pending, ← h.capacity]
  simp [Ring.isFull]

theorem Bounded.enqueue_full (h : d.Bounded bound) (full : d.tally.progress.pending = bound)
    (job : α) : d.enqueue job = (false, d) := by
  simp only [enqueue, h.isFull_iff.mpr full, ↓reduceIte]

theorem Bounded.enqueue_room (h : d.Bounded bound) (room : d.tally.progress.pending ≠ bound)
    (job : α) : ∃ d', d.enqueue job = (true, d') ∧ d'.Bounded bound ∧
      d.unbounded.enqueue job = (true, d'.unbounded) := by
  have vacant : ¬ d.ring.isFull = true := mt h.isFull_iff.mp room
  have fits : d.ring.len < d.ring.capacity := by
    have le := h.wellFormed.len_le
    have pending := h.pending
    have capacity := h.capacity
    omega
  refine ⟨_, if_neg vacant, ?_, ?_⟩
  · constructor
    case wellFormed => exact Ring.wellFormed_push h.wellFormed fits job
    case capacity => exact (Ring.capacity_push ..).trans h.capacity
    case pending => exact congrArg (· + 1) h.pending
  · simp only [MemoryDriver.enqueue, unbounded, Ring.toList_push h.wellFormed fits]

theorem Bounded.dequeue (h : d.Bounded bound) : ∃ job d', d.dequeue = (job, d') ∧
    d'.Bounded bound ∧ d.unbounded.dequeue = (job, d'.unbounded) := by
  rcases Ring.pop_cases h.wellFormed with ⟨empty, pop⟩ | ⟨job, r, pop, layout, capacity, items⟩
  · refine ⟨none, d, ?_, h, ?_⟩
    · simp only [QueueDriver.dequeue, pop]
    · simp only [MemoryDriver.dequeue, unbounded, empty]
  · have length := congrArg List.length items
    rw [List.length_cons, Ring.length_toList h.wellFormed, Ring.length_toList layout] at length
    refine ⟨some job, ⟨r, d.tally.dequeued⟩, ?_, ?_, ?_⟩
    · simp only [QueueDriver.dequeue, pop]
    · constructor
      case wellFormed => exact layout
      case capacity => exact capacity.trans h.capacity
      case pending =>
        show d.tally.progress.pending - 1 = r.len
        rw [h.pending, length, Nat.add_sub_cancel]
    · simp only [MemoryDriver.dequeue, unbounded, items]

theorem Bounded.clear (h : d.Bounded bound) :
    d.clear.Bounded bound ∧ d.unbounded.clear = d.clear.unbounded := by
  constructor
  · constructor
    case wellFormed => exact Ring.wellFormed_clear h.wellFormed
    case capacity => exact (Ring.capacity_clear h.wellFormed).trans h.capacity
    case pending =>
      show (d.tally.discarded d.ring.len).progress.pending = d.ring.clear.2.len
      have none_left : d.ring.clear.2.len = 0 := Ring.len_drain h.wellFormed
      rw [Driver.progress_discarded, none_left, Progress.discarded, h.pending, Nat.sub_self]
  · simp only [MemoryDriver.clear, QueueDriver.clear, unbounded, Ring.length_toList h.wellFormed,
      Ring.toList_clear h.wellFormed]
    rfl

theorem Bounded.complete (h : d.Bounded bound) (success : Bool) :
    (d.complete success).Bounded bound := by
  refine ⟨h.wellFormed, h.capacity, ?_⟩
  cases success <;> exact h.pending

end QueueDriver

/-! ## One use -/

namespace WatchedDriver

theorem answer_enqueue (w : WatchedDriver α) (job : α) :
    w.answer (.enqueue job) =
      (.driver (.ofAccepted (w.driver.enqueue job).1),
        { w with driver := (w.driver.enqueue job).2 }) := rfl

theorem answer_dequeue (w : WatchedDriver α) :
    w.answer .dequeue =
      (.driver (w.driver.dequeue.1.elim .nothing .took),
        { w with driver := w.driver.dequeue.2 }) := by
  cases taken : w.driver.dequeue with
  | mk job d => cases job <;> simp only [answer, call, Driver.answer, taken] <;> rfl

/-- What a use can come to at a driver over a ring with room for `bound` jobs: it is a job for
which there is no room, and nothing changes; or the driver without the bound answers and does
the same. -/
inductive Meets (bound : Nat) (d : QueueDriver α) (rs : List Receiver) :
    DriverUse α → UseAnswer α × WatchedDriver α → Prop where
  | refused {job : α} (full : d.tally.progress.pending = bound) :
      Meets bound d rs (.enqueue job) (.driver .refused, ⟨.queue d, rs⟩)
  | granted {use : DriverUse α} {a : UseAnswer α} {d' : QueueDriver α} {rs' : List Receiver}
      (room : (∃ job, use = .enqueue job) → d.tally.progress.pending ≠ bound)
      (answered : a.isRefused = false) (bounded : d'.Bounded bound)
      (alike : (⟨.memory d.unbounded, rs⟩ : WatchedDriver α).answer use =
        (a, ⟨.memory d'.unbounded, rs'⟩)) :
      Meets bound d rs use (a, ⟨.queue d', rs'⟩)

variable {bound : Nat} {d : QueueDriver α} {rs : List Receiver} {use : DriverUse α}
  {out : UseAnswer α × WatchedDriver α}

theorem Meets.isRefused_iff (meets : Meets bound d rs use out) :
    out.1.isRefused = true ↔
      (∃ job, use = .enqueue job) ∧ d.tally.progress.pending = bound := by
  cases meets with
  | refused full => simp [UseAnswer.isRefused, full]
  | granted room answered bounded alike =>
    simp only [answered, Bool.false_eq_true, false_iff, not_and]
    exact room

theorem Meets.of_isRefused (meets : Meets bound d rs use out) (refused : out.1.isRefused = true) :
    out.2 = ⟨.queue d, rs⟩ := by
  cases meets with
  | refused full => rfl
  | granted room answered bounded alike =>
    rw [answered] at refused
    cases refused

end WatchedDriver

open WatchedDriver (Meets)

theorem QueueDriver.Bounded.meets {bound : Nat} {d : QueueDriver α} (h : d.Bounded bound)
    (rs : List Receiver) (use : DriverUse α) :
    Meets bound d rs use ((⟨.queue d, rs⟩ : WatchedDriver α).answer use) := by
  cases use with
  | enqueue job =>
    rw [WatchedDriver.answer_enqueue]
    by_cases full : d.tally.progress.pending = bound
    · simp only [Driver.enqueue, h.enqueue_full full]
      exact .refused full
    · obtain ⟨d', accepted, bounded, alike⟩ := h.enqueue_room full job
      simp only [Driver.enqueue, accepted]
      refine .granted (fun _ => full) rfl bounded ?_
      simp only [WatchedDriver.answer_enqueue, Driver.enqueue, alike]
  | dequeue =>
    obtain ⟨job, d', taken, bounded, alike⟩ := h.dequeue
    rw [WatchedDriver.answer_dequeue]
    simp only [Driver.dequeue, taken]
    refine .granted (by simp) ?_ bounded ?_
    · cases job <;> rfl
    · simp only [WatchedDriver.answer_dequeue, Driver.dequeue, alike]
  | clear =>
    obtain ⟨bounded, alike⟩ := h.clear
    refine .granted (by simp) rfl bounded ?_
    simp only [WatchedDriver.answer, WatchedDriver.call, Driver.answer, Driver.clear, alike]
  | complete success => exact .granted (by simp) rfl (h.complete success) rfl
  | look l => exact .granted (by simp) rfl h rfl

/-! ## A sequence of uses -/

namespace WatchedDriver

theorem after_cons (w : WatchedDriver α) (use : DriverUse α) (uses : List (DriverUse α)) :
    w.after (use :: uses) = (w.answer use).2.after uses := rfl

/-- A driver over a ring stays one, and the bound stays. -/
theorem bounded_after {bound : Nat} : ∀ (uses : List (DriverUse α)) {d : QueueDriver α}
    (rs : List Receiver), d.Bounded bound →
    ∃ d' rs', (⟨.queue d, rs⟩ : WatchedDriver α).after uses = ⟨.queue d', rs'⟩ ∧ d'.Bounded bound
  | [], d, rs, h => ⟨d, rs, rfl, h⟩
  | use :: uses, d, rs, h => by
    have step := h.meets rs use
    rw [after_cons]
    generalize (⟨.queue d, rs⟩ : WatchedDriver α).answer use = out at step
    cases step with
    | refused full => exact bounded_after uses rs h
    | granted room answered bounded alike => exact bounded_after uses _ bounded

/-- What is seen without the bound when only the granted uses are carried out is what is seen
with it, refusals apart; and so is the driver in the end. -/
theorem follow_granted {bound : Nat} : ∀ (uses : List (DriverUse α)) {d : QueueDriver α}
    (rs : List Receiver), d.Bounded bound →
    let q : WatchedDriver α := ⟨.queue d, rs⟩
    q.unbounded.follow (q.granted uses) = (q.follow uses).filter (!·.answer.isRefused) ∧
      q.unbounded.after (q.granted uses) = (q.after uses).unbounded
  | [], d, rs, h => ⟨rfl, rfl⟩
  | use :: uses, d, rs, h => by
    have step := h.meets rs use
    simp only [follow, granted, after_cons]
    generalize (⟨.queue d, rs⟩ : WatchedDriver α).answer use = out at step ⊢
    cases step with
    | refused full =>
      -- left out on the one side and filtered on the other; both drivers are where they were
      have later := follow_granted uses rs h
      simpa [UseAnswer.isRefused, see] using later
    | @granted _ a d' rs' room answered bounded alike =>
      obtain ⟨seen, ends⟩ := follow_granted uses rs' bounded
      have first : (unbounded ⟨.queue d, rs⟩).answer use = (a, unbounded ⟨.queue d', rs'⟩) := alike
      have view : (unbounded ⟨.queue d', rs'⟩).see a = see ⟨.queue d', rs'⟩ a := rfl
      have kept : (!(see ⟨.queue d', rs'⟩ a).answer.isRefused) = true := by
        rw [see, answered]
        rfl
      simp only [answered, Bool.false_eq_true, ↓reduceIte, follow, after_cons, first]
      refine ⟨?_, ends⟩
      rw [view, seen, List.filter_cons, if_pos kept]

end WatchedDriver

/-- A driver over a ring, whatever its capacity, and a driver without bound agree. After any
uses by those who work with it and those who watch it, the first refuses a job just if as many
wait as it has room for, and then nothing changes, for the receivers neither. The second, asked
for the same without the jobs that the first refuses, gives the same answers and the same counts
to the same receivers at every step, and ends up with the same jobs waiting. -/
theorem drivers_agree (capacity : Nat) (uses : List (DriverUse α)) :
    let queue : WatchedDriver α := ⟨.queue (.ofCapacity capacity), []⟩
    let memory : WatchedDriver α := ⟨.memory {}, []⟩
    (∀ use, ((queue.after uses).answer use).1.isRefused = true ↔
        (∃ job, use = .enqueue job) ∧ (queue.after uses).driver.pending = max capacity 1) ∧
      (∀ use, ((queue.after uses).answer use).1.isRefused = true →
        ((queue.after uses).answer use).2 = queue.after uses) ∧
      memory.follow (queue.granted uses) = (queue.follow uses).filter (!·.answer.isRefused) ∧
      memory.after (queue.granted uses) = (queue.after uses).unbounded := by
  intro queue memory
  have start : (QueueDriver.ofCapacity capacity : QueueDriver α).Bounded (max capacity 1) :=
    QueueDriver.bounded_ofCapacity capacity
  obtain ⟨d, rs, reached, bounded⟩ := WatchedDriver.bounded_after uses [] start
  obtain ⟨seen, ends⟩ := WatchedDriver.follow_granted uses [] start
  have now : queue.after uses = ⟨.queue d, rs⟩ := reached
  refine ⟨?_, ?_, seen, ends⟩
  · intro use
    rw [now]
    exact (bounded.meets rs use).isRefused_iff
  · intro use
    rw [now]
    exact (bounded.meets rs use).of_isRefused

/-- With room for one job two are refused, the second of them between two looks of a receiver,
which it does not notice. -/
theorem drivers_agree_narrow :
    let queue : WatchedDriver Nat := ⟨.queue (.ofCapacity 0), []⟩
    let memory : WatchedDriver Nat := ⟨.memory {}, []⟩
    let uses : List (DriverUse Nat) :=
      [.look .watch, .enqueue 1, .enqueue 2, .look (.update 0), .enqueue 3, .look (.changed 0),
        .dequeue, .enqueue 4]
    (memory.follow (queue.granted uses)).map (·.answer) =
        [.sight (.receiver 0), .driver .accepted, .sight (.value { total := 1, pending := 1 }),
          .sight (.changed false), .driver (.took 1), .driver .accepted] ∧
      (memory.after (queue.granted uses)).driver.waiting = [4] ∧
      ((queue.after uses).answer (.enqueue 5)).2 = queue.after uses := by
  intro queue memory uses
  obtain ⟨full, same, seen, ends⟩ := drivers_agree 0 uses
  refine ⟨?_, ?_, ?_⟩
  · rw [seen]
    rfl
  · rw [ends]
    rfl
  · exact same (.enqueue 5) ((full (.enqueue 5)).mpr ⟨⟨5, rfl⟩, rfl⟩)

end JobPool
