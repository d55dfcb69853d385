/-
JobPool.Proofs.Queue.Ledger — the counts of a driver agree with what became of its jobs.

Queue and counts are two things that change side by side, and the counts are cut off at
zero, which would hide a mismatch. `Ledger.Keeps` says that there is none: every count is
the length of a list of the ledger, jobs leave in the order in which they were accepted, and
the channel holds the counts. Each call keeps it (`Keeps.answer`), so every sequence of
calls does (`keeps_workAll`). What the counts have too many are outcomes that nobody had a
job for.
-/
import JobPool.Proofs.Queue.Driver
import JobPool.Proofs.Queue.Refinement
import JobPool.Queue.Ledger
import Mathlib.Data.Bool.Count
import Mathlib.Data.List.Induction
import Mathlib.Data.List.Perm.Basic

namespace JobPool

variable {α : Type}

/-! ## A wait for room by the only caller -/

/-- With nobody else at the queue a limited wait for room is no better than none. Where there is
no room, and the clock cannot tell how long to wait, the call panics. -/
theorem QueueDriver.enqueueWithin_eq (d : QueueDriver α) (job : α) (since : Nat)
    (timeout : Duration) :
    d.enqueueWithin job since timeout =
      (if d.ring.isFull && !Instant.canTell since timeout then none else some (d.enqueue job).1,
        (d.enqueue job).2) := by
  have out_of {q : HandOff.Request α} {a : HandOff.Answer α}
      (out : (HandOff.attempt d.ring q).2.outcome = some a) :
      d.ring.serve q = (some a, (HandOff.attempt d.ring q).1) := by
    unfold Ring.serve
    rw [HandOff.meet_of_outcome out, HandOff.expireAll_finished]
    rfl
  let q : HandOff.Request α := .enqueue job (.limited since timeout)
  cases full : d.ring.isFull with
  | false =>
    have entered : HandOff.attempt d.ring q = (d.ring.push job, .signalling .item .accepted) := by
      simp [HandOff.attempt, q, full]
    have served : d.ring.serve q = (some .accepted, d.ring.push job) := by
      rw [out_of (a := .accepted) (by rw [entered]; rfl), entered]
    simp [enqueueWithin, enqueue, q, served, full]
  | true =>
    cases tells : Instant.canTell since timeout with
    | false =>
      have panics : HandOff.attempt d.ring q = (d.ring, .finished .panicked) := by
        simp [HandOff.attempt, q, full, Patience.overflows, tells]
      have served : d.ring.serve q = (some .panicked, d.ring) := by
        rw [out_of (a := .panicked) (by rw [panics]; rfl), panics]
      simp [enqueueWithin, enqueue, q, served, full]
    | true =>
      have waits : HandOff.attempt d.ring q = (d.ring, .waiting q false) := by
        simp [HandOff.attempt, q, full, Patience.overflows, tells]
      have last : HandOff.lastAttempt d.ring q = (d.ring, .finished (.refused job)) := by
        simp [HandOff.lastAttempt, HandOff.attempt, q, full]
      have limited : q.isLimited = true := tells
      have served : d.ring.serve q = (some (.refused job), d.ring) := by
        unfold Ring.serve
        rw [HandOff.meet_of_waits waits, HandOff.expireAll_waiting, last, if_pos limited]
        rfl
      simp [enqueueWithin, enqueue, q, served, full]

namespace Driver

/-! ## The channel holds the counts -/

/-- What was sent last is what the counts are now. -/
def Published (d : Driver α) : Prop := d.channel?.map (·.value) = some d.progress

theorem published_tally_discarded {t : Tally} (h : t.channel.value = t.progress) (n : Nat) :
    (t.discarded n).channel.value = (t.discarded n).progress := by
  unfold Tally.discarded
  split
  · exact h
  · rfl

theorem Published.enqueue {d : Driver α} (h : d.Published) (job : α) :
    (d.enqueue job).2.Published := by
  cases d with
  | memory d => rfl
  | queue d =>
    simp only [Driver.enqueue, QueueDriver.enqueue]
    split
    · exact h
    · rfl
  | plain d => cases h

theorem Published.dequeue {d : Driver α} (h : d.Published) : d.dequeue.2.Published := by
  cases d with
  | memory d =>
    simp only [Driver.dequeue, MemoryDriver.dequeue]
    split
    · exact h
    · rfl
  | queue d =>
    simp only [Driver.dequeue, QueueDriver.dequeue]
    split
    · rfl
    · exact h
  | plain d => cases h

theorem Published.clear {d : Driver α} (h : d.Published) : d.clear.Published := by
  cases d with
  | memory d => exact congrArg some (published_tally_discarded (Option.some.inj h) _)
  | queue d => exact congrArg some (published_tally_discarded (Option.some.inj h) _)
  | plain d => cases h

theorem Published.complete {d : Driver α} (h : d.Published) (success : Bool) :
    (d.complete success).Published := by
  cases d with
  | memory d => rfl
  | queue d => rfl
  | plain d => cases h

/-- Dropping none of the waiting jobs is no news. -/
theorem clear_of_waiting_nil {d : Driver α} (wf : d.WellFormed) (published : d.Published)
    (empty : d.waiting = []) :
    d.clear.progress = d.progress ∧ d.clear.channel? = d.channel? := by
  cases d with
  | memory d =>
    have empty : d.items = [] := empty
    simp [clear, MemoryDriver.clear, empty, progress, channel?, Tally.discarded]
  | queue d =>
    have none : d.ring.clear.1 = 0 := by
      have length := Ring.length_toList wf
      have empty : d.ring.toList = [] := empty
      rw [empty] at length
      exact length.symm
    have tally : d.clear.tally = d.tally := by
      show d.tally.discarded d.ring.clear.1 = d.tally
      rw [none]
      rfl
    simp [clear, progress, channel?, tally]
  | plain d => cases published

/-! ## One call -/

theorem answer_took {d d' : Driver α} {job : α} (took : d.answer .dequeue = (.took job, d')) :
    d.dequeue = (some job, d') := by
  simp only [answer] at took
  split at took <;> cases took
  assumption

/-- Who waits for room gets what others get, or panics where they are refused. -/
theorem answer_enqueueWithin (d : QueueDriver α) (job : α) (since : Nat) (timeout : Duration) :
    let a := (queue d).answer (.enqueueWithin job since timeout)
    let a' := (queue d).answer (.enqueue job)
    a.2 = a'.2 ∧ (a.1 = a'.1 ∨ a.1 = .panicked ∧ a'.1 = .refused) := by
  have limited : (queue d).answer (.enqueueWithin job since timeout) =
      ((d.enqueueWithin job since timeout).1.elim .panicked .ofAccepted,
        queue (d.enqueueWithin job since timeout).2) := rfl
  have atOnce : (queue d).answer (.enqueue job) =
      (.ofAccepted (d.enqueue job).1, queue (d.enqueue job).2) := rfl
  simp only [limited, atOnce, d.enqueueWithin_eq, true_and]
  split
  · rename_i late
    have full : d.ring.isFull = true := (Bool.and_eq_true_iff.1 late).1
    exact .inr ⟨rfl, by simp [QueueDriver.enqueue, full, DriverAnswer.ofAccepted]⟩
  · exact .inl rfl

/-- A job that is refused changes nothing at all, nor does a call that panics. -/
theorem answer_refused {d : Driver α} {call : DriverCall α}
    (refused : (d.answer call).1 = .refused ∨ (d.answer call).1 = .panicked) :
    (d.answer call).2 = d := by
  have of_enqueue (job : α) (refused : (d.answer (.enqueue job)).1 = .refused ∨
      (d.answer (.enqueue job)).1 = .panicked) : (d.answer (.enqueue job)).2 = d := by
    cases ok : (d.enqueue job).1 with
    | false => exact enqueue_refused ok
    | true => simp [answer, ok, DriverAnswer.ofAccepted] at refused
  cases call with
  | enqueue job => exact of_enqueue job refused
  | enqueueWithin job since timeout =>
    cases d with
    | memory d => rfl
    | queue d =>
      obtain ⟨same, answers⟩ := answer_enqueueWithin d job since timeout
      rw [same]
      rcases answers with answers | ⟨-, refused⟩
      · exact of_enqueue job (answers ▸ refused)
      · exact of_enqueue job (.inl refused)
    | plain d => rfl
  | dequeue =>
    simp only [answer] at refused
    split at refused <;> simp at refused
  | clear => simp [answer] at refused
  | complete success => simp [answer] at refused

/-- A job wanted when there is none changes nothing at all. -/
theorem answer_dequeue_of_waiting_nil {d : Driver α} (wf : d.WellFormed) (empty : d.waiting = []) :
    d.answer .dequeue = (.nothing, d) := by
  cases oldest : d.dequeue.1 with
  | none =>
    have same := dequeue_none wf oldest
    cases asked : d.dequeue with
    | mk job d' =>
      rw [asked] at oldest same
      cases oldest
      simp only [answer, asked]
      exact congrArg (Prod.mk DriverAnswer.nothing) same
  | some job =>
    obtain ⟨-, waiting, -⟩ := dequeue_some wf oldest
    rw [empty] at waiting
    cases waiting

end Driver

/-- The ledger agrees with the driver, count by count. -/
structure Ledger.Keeps (l : Ledger α) (d : Driver α) : Prop where
  wellFormed : d.WellFormed
  published : d.Published
  /-- The waiting jobs came last; those before them left, taken ones in their order. -/
  order : ∃ gone, l.accepted = gone ++ d.waiting ∧ l.taken.Sublist gone ∧
    gone.Perm (l.taken ++ l.dropped)
  pending : d.pending = d.waiting.length
  total : d.total + l.dropped.length = l.accepted.length
  outstanding : d.executing + l.outcomes.length = l.taken.length + l.unmatched
  completed : d.completed = l.outcomes.length
  success : d.success = l.outcomes.count true
  failed : d.failed = l.outcomes.count false

namespace Ledger

open Driver (enqueue_refused enqueue_accepted dequeue_none dequeue_some clear_spec complete_spec)

theorem Keeps.enqueue {l : Ledger α} {d : Driver α} (h : l.Keeps d) (job : α) :
    (l.enter d (.enqueue job)).Keeps (d.answer (.enqueue job)).2 := by
  cases ok : (d.enqueue job).1 with
  | false =>
    have entered : l.enter d (.enqueue job) = l := by
      simp [enter, Driver.answer, ok, DriverAnswer.ofAccepted]
    have same : (d.answer (.enqueue job)).2 = d := enqueue_refused ok
    rw [entered, same]
    exact h
  | true =>
    have entered : l.enter d (.enqueue job) = { l with accepted := l.accepted ++ [job] } := by
      simp [enter, Driver.answer, ok, DriverAnswer.ofAccepted]
    obtain ⟨wellFormed, waiting, progress⟩ := enqueue_accepted h.wellFormed ok
    rw [entered]
    show Keeps _ (d.enqueue job).2
    obtain ⟨gone, accepted, sub, perm⟩ := h.order
    have pending := h.pending
    have total := h.total
    refine ⟨wellFormed, h.published.enqueue job, ⟨gone, ?_, sub, perm⟩, ?_, ?_, ?_, ?_, ?_, ?_⟩
    · rw [waiting, accepted, List.append_assoc]
    · rw [Driver.pending, progress, waiting, List.length_append, ← pending]
      rfl
    · rw [Driver.total, progress, List.length_append, ← total]
      simp only [Progress.enqueued, Driver.total, List.length_singleton]
      omega
    all_goals
      simp only [Driver.executing, Driver.completed, Driver.success, Driver.failed, progress]
    · exact h.outstanding
    · exact h.completed
    · exact h.success
    · exact h.failed

theorem Keeps.dequeue {l : Ledger α} {d : Driver α} (h : l.Keeps d) :
    (l.enter d .dequeue).Keeps (d.answer .dequeue).2 := by
  cases oldest : d.dequeue with
  | mk job d' =>
    cases job with
    | none =>
      have same : d.dequeue.2 = d := dequeue_none h.wellFormed (by rw [oldest])
      rw [oldest] at same
      obtain rfl : d' = d := same
      have entered : l.enter d' .dequeue = l := by simp [enter, Driver.answer, oldest]
      simp only [entered, Driver.answer, oldest]
      exact h
    | some job =>
      obtain ⟨wellFormed, waiting, progress⟩ :=
        dequeue_some h.wellFormed (a := job) (by rw [oldest])
      have published := h.published.dequeue
      rw [oldest] at wellFormed waiting progress published
      have entered : l.enter d .dequeue = { l with taken := l.taken ++ [job] } := by
        simp [enter, Driver.answer, oldest]
      simp only [entered, Driver.answer, oldest]
      -- the job that is taken is the last of those gone
      obtain ⟨gone, accepted, sub, perm⟩ := h.order
      have pending := h.pending
      have outstanding := h.outstanding
      refine ⟨wellFormed, published, ⟨gone ++ [job], ?_, ?_, ?_⟩, ?_, ?_, ?_, ?_, ?_, ?_⟩
      · rw [accepted, waiting, List.append_assoc]
        rfl
      · exact sub.append_right [job]
      · calc (gone ++ [job]).Perm (l.taken ++ l.dropped ++ [job]) := perm.append_right [job]
          _ |>.Perm (l.taken ++ [job] ++ l.dropped) := by
            rw [List.append_assoc, List.append_assoc]
            exact List.perm_append_comm.append_left l.taken
      · rw [waiting, List.length_cons, Driver.pending] at pending
        simp only [Driver.pending, progress, Progress.dequeued]
        rw [pending, Nat.add_sub_cancel]
      · simp only [Driver.total, progress, Progress.dequeued]
        exact h.total
      · simp only [Driver.executing, progress, Progress.dequeued, List.length_append,
          List.length_singleton] at outstanding ⊢
        omega
      all_goals simp only [Driver.completed, Driver.success, Driver.failed, progress]
      · exact h.completed
      · exact h.success
      · exact h.failed

theorem Keeps.clear {l : Ledger α} {d : Driver α} (h : l.Keeps d) :
    (l.enter d .clear).Keeps (d.answer .clear).2 := by
  show Keeps { l with dropped := l.dropped ++ d.waiting } d.clear
  obtain ⟨wellFormed, waiting, progress⟩ := clear_spec h.wellFormed
  obtain ⟨gone, accepted, sub, perm⟩ := h.order
  have pending := h.pending
  have total := h.total
  -- after a clearing all jobs are gone
  have length := congrArg List.length accepted
  rw [List.length_append] at length
  have dropped_le := perm.length_eq
  rw [List.length_append] at dropped_le
  refine ⟨wellFormed, h.published.clear, ⟨l.accepted, ?_, ?_, ?_⟩, ?_, ?_, ?_, ?_, ?_, ?_⟩
  · rw [waiting, List.append_nil]
  · rw [accepted]
    exact sub.trans (List.sublist_append_left gone d.waiting)
  · rw [accepted, ← List.append_assoc]
    exact perm.append_right d.waiting
  · simp only [Driver.pending, progress, Progress.discarded, waiting] at pending ⊢
    rw [pending, Nat.sub_self]
    rfl
  · simp only [Driver.total, progress, Progress.discarded, List.length_append] at total ⊢
    omega
  all_goals
    simp only [Driver.executing, Driver.completed, Driver.success, Driver.failed, progress]
  · exact h.outstanding
  · exact h.completed
  · exact h.success
  · exact h.failed

theorem Keeps.complete {l : Ledger α} {d : Driver α} (h : l.Keeps d) (success : Bool) :
    (l.enter d (.complete success)).Keeps (d.answer (.complete success)).2 := by
  show Keeps { l with
    outcomes := l.outcomes ++ [success]
    unmatched := if d.executing = 0 then l.unmatched + 1 else l.unmatched } (d.complete success)
  obtain ⟨wellFormed, waiting, progress⟩ := complete_spec h.wellFormed success
  have outstanding := h.outstanding
  refine ⟨wellFormed, h.published.complete success, ?_, ?_, ?_, ?_, ?_, ?_, ?_⟩
  · rw [waiting]
    exact h.order
  · rw [waiting, ← h.pending, Driver.pending, progress]
    cases success <;> rfl
  · rw [← h.total, Driver.total, progress]
    cases success <;> rfl
  · have executing : (d.complete success).executing = d.executing - 1 := by
      rw [Driver.executing, progress]
      cases success <;> rfl
    simp only [executing, List.length_append, List.length_singleton]
    split <;> omega
  · rw [List.length_append, ← h.completed, Driver.completed, progress]
    cases success <;> rfl
  · rw [List.count_append, ← h.success, Driver.success, progress]
    cases success <;> rfl
  · rw [List.count_append, ← h.failed, Driver.failed, progress]
    cases success <;> rfl

theorem Keeps.answer {l : Ledger α} {d : Driver α} (h : l.Keeps d) (call : DriverCall α) :
    (l.enter d call).Keeps (d.answer call).2 := by
  cases call with
  | enqueue job => exact h.enqueue job
  | enqueueWithin job since timeout =>
    cases d with
    | memory d => exact h
    | queue d =>
      obtain ⟨same, answers⟩ := Driver.answer_enqueueWithin d job since timeout
      have entered : l.enter (.queue d) (.enqueueWithin job since timeout) =
          l.enter (.queue d) (.enqueue job) := by
        rcases answers with answers | ⟨panicked, refused⟩
        · simp only [enter, answers]
          split <;> simp_all
        · simp only [enter, panicked, refused]
      rw [entered, same]
      exact h.enqueue job
    | plain d => exact h
  | dequeue => exact h.dequeue
  | clear => exact h.clear
  | complete success => exact h.complete success

/-- Only an outcome recorded while no job runs is without a job. -/
theorem unmatched_enter {l : Ledger α} {d : Driver α} {call : DriverCall α}
    (busy : ∀ success, call = .complete success → d.executing ≠ 0) :
    (l.enter d call).unmatched = l.unmatched := by
  cases call with
  | complete success => exact if_neg (busy success rfl)
  | enqueue job | enqueueWithin job | dequeue | clear =>
    unfold enter
    split <;> first | rfl | contradiction

/-! ## What the accounts come to -/

theorem Keeps.outcomes {l : Ledger α} {d : Driver α} (h : l.Keeps d) :
    d.completed = d.success + d.failed := by
  rw [h.completed, h.success, h.failed, List.count_true_add_count_false]

theorem Keeps.balance {l : Ledger α} {d : Driver α} (h : l.Keeps d) :
    d.pending + d.executing + d.completed = d.total + l.unmatched := by
  have accepted : l.accepted.length = l.taken.length + l.dropped.length + d.waiting.length := by
    obtain ⟨gone, split, -, perm⟩ := h.order
    rw [split, List.length_append, perm.length_eq, List.length_append]
  have pending := h.pending
  have total := h.total
  have outstanding := h.outstanding
  have completed := h.completed
  omega

/-- A job that is taken was the oldest, and the count of waiting jobs goes down by one. -/
theorem Keeps.took {l : Ledger α} {d d' : Driver α} {job : α} (h : l.Keeps d)
    (took : d.answer .dequeue = (.took job, d')) :
    d.waiting = job :: d'.waiting ∧ d'.pending + 1 = d.pending := by
  have oldest := Driver.answer_took took
  obtain ⟨-, waiting, -⟩ := dequeue_some h.wellFormed (a := job) (by rw [oldest])
  rw [oldest] at waiting
  have after := h.dequeue
  rw [took] at after
  refine ⟨waiting, ?_⟩
  rw [h.pending, after.pending, waiting, List.length_cons]

/-- No more jobs are dropped than were counted. -/
theorem Keeps.cleared {l : Ledger α} {d : Driver α} (h : l.Keeps d) :
    d.clear.pending + d.waiting.length = d.pending ∧
      d.clear.total + d.waiting.length = d.total := by
  obtain ⟨-, -, progress⟩ := clear_spec h.wellFormed
  have pending : d.clear.pending = d.pending - d.waiting.length := by
    rw [Driver.pending, progress]
    rfl
  have total : d.clear.total = d.total - d.waiting.length := by
    rw [Driver.total, progress]
    rfl
  have balance := h.balance
  have outstanding := h.outstanding
  have completed := h.completed
  have counted := h.pending
  omega

/-- A call that comes to nothing changes neither the counts nor the channel. -/
theorem Keeps.quiet {l : Ledger α} {d : Driver α} (h : l.Keeps d) {call : DriverCall α}
    (quiet : ((d.answer call).1 = .refused ∨ (d.answer call).1 = .panicked) ∨
      (d.waiting = [] ∧ (call = .dequeue ∨ call = .clear))) :
    (d.answer call).2.progress = d.progress ∧ (d.answer call).2.channel? = d.channel? := by
  rcases quiet with refused | ⟨empty, rfl | rfl⟩
  · rw [Driver.answer_refused refused]
    exact ⟨rfl, rfl⟩
  · rw [Driver.answer_dequeue_of_waiting_nil h.wellFormed empty]
    exact ⟨rfl, rfl⟩
  · exact Driver.clear_of_waiting_nil h.wellFormed h.published empty

end Ledger

namespace Driver

/-! ## Any sequence of calls -/

theorem workAll_concat (start : Driver α) (calls : List (DriverCall α)) (call : DriverCall α) :
    start.workAll (calls ++ [call]) =
      (((start.workAll calls).1.answer call).2,
        (start.workAll calls).2.enter (start.workAll calls).1 call) := by
  simp [workAll, List.foldl_append]

theorem keeps_of_fresh {d : Driver α}
    (fresh : d = .memory {} ∨ ∃ capacity, d = .queue (.ofCapacity capacity)) :
    Ledger.Keeps {} d := by
  rcases fresh with rfl | ⟨capacity, rfl⟩
  · exact ⟨trivial, rfl, ⟨[], rfl, .slnil, .nil⟩, rfl, rfl, rfl, rfl, rfl, rfl⟩
  · have layout : (Ring.empty capacity : Ring α).WellFormed := Ring.wellFormed_empty capacity
    exact ⟨layout, rfl, ⟨[], rfl, .slnil, .nil⟩, rfl, rfl, rfl, rfl, rfl, rfl⟩

theorem keeps_workAll {start : Driver α} (kept : Ledger.Keeps {} start)
    (calls : List (DriverCall α)) : (start.workAll calls).2.Keeps (start.workAll calls).1 := by
  induction calls using List.reverseRecOn with
  | nil => exact kept
  | append_singleton calls call ih =>
    rw [workAll_concat]
    exact ih.answer call

/-- At no point of the calls were there more outcomes than jobs taken. -/
def Matched (start : Driver α) (calls : List (DriverCall α)) : Prop :=
  ∀ before, before <+: calls →
    (start.workAll before).2.outcomes.length ≤ (start.workAll before).2.taken.length

theorem unmatched_workAll {start : Driver α} (kept : Ledger.Keeps {} start)
    {calls : List (DriverCall α)} (matched : start.Matched calls) :
    (start.workAll calls).2.unmatched = 0 := by
  induction calls using List.reverseRecOn with
  | nil => rfl
  | append_singleton calls call ih =>
    have none := ih fun before h => matched before (h.trans (List.prefix_append calls [call]))
    have outstanding := (keeps_workAll kept calls).outstanding
    have enough := matched _ List.prefix_rfl
    rw [workAll_concat] at enough ⊢
    rw [Ledger.unmatched_enter, none]
    rintro success rfl idle
    simp only [Ledger.enter, List.length_append, List.length_singleton] at enough
    omega

end Driver

/-- A new driver after any sequence of calls. The counts are the lengths of what they count,
and account for each job accepted; an outcome recorded while no job ran, and nothing else,
makes one job too many done. No subtraction from the counts of accepted and of waiting jobs
is cut off. What the channel holds are the counts. A job refused, a call that panics, a job
wanted when none waits and a clearing of nothing leave counts and channel alone, so that no
receiver is told of news. Jobs come out oldest first, in the order in which they were accepted. -/
theorem driver_counts_exact {start : Driver α} (calls : List (DriverCall α))
    (fresh : start = .memory {} ∨ ∃ capacity, start = .queue (.ofCapacity capacity)) :
    let d := (start.workAll calls).1
    let l := (start.workAll calls).2
    d.pending = d.waiting.length ∧
    d.completed = d.success + d.failed ∧
    d.pending + d.executing + d.completed = d.total + l.unmatched ∧
    (start.Matched calls → d.total = d.pending + d.executing + d.completed) ∧
    (∀ job d', d.answer .dequeue = (.took job, d') →
      d.waiting = job :: d'.waiting ∧ d'.pending + 1 = d.pending) ∧
    (d.clear.pending + d.waiting.length = d.pending ∧
      d.clear.total + d.waiting.length = d.total) ∧
    d.progress = ⟨d.total, d.pending, d.executing, d.completed, d.success, d.failed⟩ ∧
    d.channel?.map (·.value) = some d.progress ∧
    (∀ call, ((d.answer call).1 = .refused ∨ (d.answer call).1 = .panicked) ∨
        (d.waiting = [] ∧ (call = .dequeue ∨ call = .clear)) →
      (d.answer call).2.progress = d.progress ∧ (d.answer call).2.channel? = d.channel?) ∧
    ∃ gone, l.accepted = gone ++ d.waiting ∧ l.taken.Sublist gone ∧
      gone.Perm (l.taken ++ l.dropped) := by
  intro d l
  have start_kept := Driver.keeps_of_fresh fresh
  have kept : l.Keeps d := Driver.keeps_workAll start_kept calls
  refine ⟨kept.pending, kept.outcomes, kept.balance, fun matched => ?_, fun job d' => kept.took,
    kept.cleared, rfl, kept.published, fun call => kept.quiet, kept.order⟩
  have none : l.unmatched = 0 := Driver.unmatched_workAll start_kept matched
  have balance := kept.balance
  omega

/-- A driver with room for one job. A second one is refused, though it waits for room; then
two outcomes are recorded for the one job that was taken. -/
theorem driver_counts_exact_unmatched :
    let start : Driver Nat := .queue (.ofCapacity 0)
    let (d, l) := start.workAll
      [.enqueue 1, .enqueueWithin 2 0 (.ofMillis 5), .dequeue, .complete true, .complete false,
        .enqueue 3]
    l.taken = [1] ∧ l.unmatched = 1 ∧
      d.pending + d.executing + d.completed = d.total + l.unmatched ∧
      (d.answer (.enqueueWithin 4 0 (.ofMillis 5))).1 = .refused ∧
      (d.answer (.enqueueWithin 4 0 (.ofMillis 5))).2.channel? = d.channel? := by
  intro start
  have fresh : start = .memory {} ∨ ∃ capacity, start = .queue (.ofCapacity capacity) :=
    .inr ⟨0, rfl⟩
  obtain ⟨-, -, balance, -, -, -, -, -, quiet, -⟩ := driver_counts_exact
    [.enqueue 1, .enqueueWithin 2 0 (.ofMillis 5), .dequeue, .complete true, .complete false,
      .enqueue 3] fresh
  exact ⟨rfl, rfl, balance, rfl, (quiet (.enqueueWithin 4 0 (.ofMillis 5)) (.inl (.inl rfl))).2⟩

end JobPool
