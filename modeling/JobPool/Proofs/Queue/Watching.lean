/-
JobPool.Proofs.Queue.Watching — what the receivers of a tally are told.

A receiver is told that something changed just if a call that publishes came after it was made
or last looked, whatever the counts are now and whatever the other receivers did. The reason is
that the channel numbers the sends by the mutations (`version_after`), and that a receiver
keeps the number it has seen until it looks itself (`receiver_after`). What it reads is the
last of the snapshots (`progress_after`), which are only added to, so that readings never go
back.
-/
import JobPool.Queue.Watching
import Mathlib.Data.List.Induction

namespace JobPool

/-! ## One call -/

theorem Tally.carry_of_isMutation (t : Tally) {c : TallyCall} (mutation : c.isMutation = true) :
    t.carry c = t.update (TallyCall.apply · c) := by
  cases c with
  | discarded n =>
    have dropped : n ≠ 0 := by simpa [TallyCall.isMutation] using mutation
    exact if_neg dropped
  | enqueued | dequeued | completed => rfl

theorem Tally.carry_of_not_isMutation (t : Tally) {c : TallyCall} (silent : c.isMutation = false) :
    t.carry c = t := by
  cases c with
  | discarded n =>
    have none_dropped : n = 0 := by simpa [TallyCall.isMutation] using silent
    exact if_pos none_dropped
  | enqueued | dequeued | completed => cases silent

theorem TallyCall.completed_apply {p : Progress} (sum : p.completed = p.success + p.failed)
    (c : TallyCall) : (c.apply p).completed = (c.apply p).success + (c.apply p).failed := by
  cases c with
  | completed success => cases success <;> simp [TallyCall.apply, Progress.done, sum] <;> omega
  | enqueued | dequeued | discarded => exact sum

/-! ## Sequences of uses -/

namespace TallyUse

theorem mutations_append (uses more : List TallyUse) :
    mutations (uses ++ more) = mutations uses + mutations more := List.countP_append

theorem mutations_eq_length (uses : List TallyUse) :
    mutations uses = (uses.filterMap mutation?).length :=
  (List.length_filterMap_eq_countP ..).symm

theorem any_isMutation (uses : List TallyUse) :
    uses.any isMutation = decide (mutations uses ≠ 0) := by
  simp [mutations, List.any_eq, List.countP_eq_zero]

/-- What was published before is published also if more follows. -/
theorem snapshot_append (uses more : List TallyUse) :
    snapshot (uses ++ more) (mutations uses) = snapshot uses (mutations uses) := by
  simp [snapshot, mutations_eq_length]

theorem snapshot_call (uses : List TallyUse) {c : TallyCall} (mutation : c.isMutation = true) :
    snapshot (uses ++ [.call c]) (mutations uses + 1) =
      c.apply (snapshot uses (mutations uses)) := by
  simp [snapshot, mutations_eq_length, mutation?, mutation, List.take_of_length_le]

theorem Attends.isMutation_eq_false {before : List TallyUse} {i : Nat} {use : TallyUse}
    (attends : Attends before i use) : use.isMutation = false := by
  rcases attends with ⟨rfl, -⟩ | ⟨rfl, -⟩ <;> rfl

/-- A receiver that there is was made by one use, or looked last in one. -/
theorem exists_attends {i : Nat} (uses : List TallyUse) (made : i < watchers uses) :
    ∃ before use later, uses = before ++ use :: later ∧ Attends before i use ∧
      .look (.update i) ∉ later := by
  induction uses using List.reverseRecOn with
  | nil => cases made
  | append_singleton uses use ih =>
    by_cases attends : Attends uses i use
    · exact ⟨uses, use, [], by simp, attends, by simp⟩
    · have still : i < watchers uses := by
        by_contra none
        refine attends (.inl ?_)
        by_cases watch : use = .look .watch
        · refine ⟨watch, ?_⟩
          rw [watchers, watch, List.count_append, List.count_singleton_self] at made
          rw [watchers] at none ⊢
          omega
        · rw [watchers, List.count_append, List.count_singleton, beq_eq_false_iff_ne.mpr] at made
          · exact absurd made none
          · exact watch
      obtain ⟨before, first, later, rfl, attended, idle⟩ := ih still
      refine ⟨before, first, later ++ [use], by simp, attended, ?_⟩
      have other : use ≠ .look (.update i) := fun eq => attends (.inr ⟨eq, still⟩)
      simp [idle, other.symm]

end TallyUse

/-! ## One use after the others -/

namespace WatchedTally

open TallyUse

variable {w : WatchedTally}

theorem after_append (w : WatchedTally) (uses more : List TallyUse) :
    w.after (uses ++ more) = (w.after uses).after more := List.foldl_append

theorem after_singleton (w : WatchedTally) (use : TallyUse) :
    w.after [use] = (w.answer use).2 := rfl

/-- The channel holds the counts, and what is done is done with or without success. -/
structure Sound (w : WatchedTally) : Prop where
  published : w.tally.channel.value = w.tally.progress
  completed : w.tally.progress.completed = w.tally.progress.success + w.tally.progress.failed

theorem Sound.answer (h : w.Sound) (use : TallyUse) : (w.answer use).2.Sound := by
  cases use with
  | look l => exact ⟨h.published, h.completed⟩
  | call c =>
    cases mutation : c.isMutation with
    | false =>
      have same : (w.answer (.call c)).2 = w := by
        simp only [WatchedTally.answer, w.tally.carry_of_not_isMutation mutation]
      rw [same]
      exact h
    | true =>
      have updated : (w.answer (.call c)).2.tally = w.tally.update (TallyCall.apply · c) :=
        w.tally.carry_of_isMutation mutation
      constructor <;> rw [updated]
      case published => rfl
      case completed => exact TallyCall.completed_apply h.completed c

theorem sound_after (uses : List TallyUse) : (after {} uses).Sound := by
  induction uses using List.reverseRecOn with
  | nil => exact ⟨rfl, rfl⟩
  | append_singleton uses use ih =>
    rw [after_append, after_singleton]
    exact ih.answer use

/-- The channel numbers the sends by the mutations. -/
theorem version_after (w : WatchedTally) (uses : List TallyUse) :
    (w.after uses).tally.channel.version = w.tally.channel.version + mutations uses := by
  induction uses using List.reverseRecOn with
  | nil => rfl
  | append_singleton uses use ih =>
    rw [after_append, after_singleton, mutations_append, ← Nat.add_assoc, ← ih]
    cases use with
    | look l => rfl
    | call c =>
      show ((w.after uses).tally.carry c).channel.version = _
      cases mutation : c.isMutation with
      | false =>
        rw [Tally.carry_of_not_isMutation _ mutation]
        simp [mutations, isMutation, mutation?, mutation]
      | true =>
        rw [Tally.carry_of_isMutation _ mutation]
        simp [mutations, isMutation, mutation?, mutation, Tally.update, Channel.send]

/-- The counts are the snapshot published last. -/
theorem progress_after (uses : List TallyUse) :
    (after {} uses).tally.progress = snapshot uses (mutations uses) := by
  induction uses using List.reverseRecOn with
  | nil => rfl
  | append_singleton uses use ih =>
    rw [after_append, after_singleton, mutations_append]
    cases use with
    | look l => exact ih.trans (snapshot_append uses _).symm
    | call c =>
      show ((after {} uses).tally.carry c).progress = _
      cases mutation : c.isMutation with
      | false =>
        rw [Tally.carry_of_not_isMutation _ mutation, ih, ← snapshot_append uses [.call c]]
        simp [mutations, isMutation, mutation?, mutation]
      | true =>
        have one : mutations [.call c] = 1 := by simp [mutations, isMutation, mutation?, mutation]
        rw [Tally.carry_of_isMutation _ mutation, one, snapshot_call uses mutation, ← ih]
        rfl

/-! ## Receivers -/

theorem length_receivers_after (uses : List TallyUse) :
    (after {} uses).receivers.length = watchers uses := by
  induction uses using List.reverseRecOn with
  | nil => rfl
  | append_singleton uses use ih =>
    rw [after_append, after_singleton, watchers, List.count_append, ← watchers, ← ih]
    generalize after {} uses = w
    cases use with
    | call c => simp [answer]
    | look l =>
      cases l with
      | watch => simp [answer, Channel.look]
      | changed i | update i | peek i =>
        cases found : w.receivers[i]? <;> simp [answer, Channel.look, found]

/-- A receiver keeps what it has seen while only the others look. -/
theorem receiver_answer {i : Nat} {r : Receiver} (at_i : w.receivers[i]? = some r) {use : TallyUse}
    (other : use ≠ .look (.update i)) : (w.answer use).2.receivers[i]? = some r := by
  have lt : i < w.receivers.length := (List.getElem?_eq_some_iff.mp at_i).1
  cases use with
  | call c => exact at_i
  | look l =>
    cases l with
    | watch => exact (List.getElem?_append_left lt).trans at_i
    | changed j | peek j =>
      cases found : w.receivers[j]? <;> simp only [answer, Channel.look, found] <;> exact at_i
    | update j =>
      have ne : j ≠ i := fun eq => other (by rw [eq])
      cases found : w.receivers[j]? with
      | none => simp only [answer, Channel.look, found]; exact at_i
      | some s =>
        simp only [answer, Channel.look, found]
        exact (List.getElem?_set_ne ne).trans at_i

theorem receiver_keeps {i : Nat} {r : Receiver} (at_i : w.receivers[i]? = some r)
    {later : List TallyUse} (idle : .look (.update i) ∉ later) :
    (w.after later).receivers[i]? = some r := by
  induction later generalizing w with
  | nil => exact at_i
  | cons use later ih =>
    rw [List.mem_cons, not_or] at idle
    exact ih (receiver_answer at_i (Ne.symm idle.1)) idle.2

/-- Who was made or has just looked has seen everything. -/
theorem receiver_of_attends {before : List TallyUse} {i : Nat} {use : TallyUse}
    (attends : Attends before i use) :
    (after {} (before ++ [use])).receivers[i]? = some ⟨mutations before⟩ := by
  have version : (after {} before).tally.channel.version = mutations before := by
    rw [version_after]
    exact Nat.zero_add _
  have length := length_receivers_after before
  rw [after_append, after_singleton, ← version]
  generalize after {} before = w at length
  rcases attends with ⟨rfl, rfl⟩ | ⟨rfl, made⟩
  · rw [← length]
    exact List.getElem?_concat_length
  · rw [← length] at made
    simp only [answer, Channel.look, List.getElem?_eq_getElem made]
    exact List.getElem?_set_self made

/-- What a receiver has seen is how often was published before it was made or looked last. -/
theorem receiver_after {before later : List TallyUse} {i : Nat} {use : TallyUse}
    (attends : Attends before i use) (idle : .look (.update i) ∉ later) :
    (after {} (before ++ use :: later)).receivers[i]? = some ⟨mutations before⟩ := by
  rw [List.append_cons, after_append]
  exact receiver_keeps (receiver_of_attends attends) idle

/-- A receiver is told of a change just if something was published since. -/
theorem sight_changed {before later : List TallyUse} {i : Nat} {use : TallyUse}
    (attends : Attends before i use) (idle : .look (.update i) ∉ later) :
    (after {} (before ++ use :: later)).sight (.changed i) = .changed (later.any isMutation) := by
  have version : (after {} (before ++ use :: later)).tally.channel.version =
      mutations before + mutations later := by
    rw [version_after, mutations_append, mutations, mutations, List.countP_cons_of_neg, ← mutations]
    · exact Nat.zero_add _
    · simp [Attends.isMutation_eq_false attends]
  simp only [sight, Channel.look, receiver_after attends idle, Channel.hasChanged, version,
    any_isMutation]
  congr 1
  by_cases h : mutations later = 0 <;> simp [h]

theorem sight_watch (uses : List TallyUse) :
    (after {} uses).sight .watch = .receiver (watchers uses) := by
  rw [← length_receivers_after]
  rfl

/-- Every receiver that there is reads the counts as they are. -/
theorem sight_reading {uses : List TallyUse} {i : Nat} (made : i < watchers uses) :
    (after {} uses).sight (.update i) = .value (after {} uses).tally.progress ∧
      (after {} uses).sight (.peek i) = .value (after {} uses).tally.progress := by
  rw [← length_receivers_after] at made
  simp only [sight, Channel.look, List.getElem?_eq_getElem made, Channel.update,
    (sound_after uses).published, and_self]

/-- A tally publishes its counts with every call that is a mutation. After any calls and looks
what is done adds up and the channel holds the counts. A receiver is told of a change just if
there was a mutation since it was made or since it last marked the counts as seen. It reads the
counts as they are; those of an earlier moment are a snapshot that was published no later. -/
theorem receivers_told (uses : List TallyUse) :
    ((after {} uses).tally.progress.completed =
        (after {} uses).tally.progress.success + (after {} uses).tally.progress.failed ∧
      (after {} uses).tally.channel.value = (after {} uses).tally.progress) ∧
    (after {} uses).sight .watch = .receiver (watchers uses) ∧
    (∀ i < watchers uses,
      ((∃ before use later, uses = before ++ use :: later ∧ Attends before i use ∧
          .look (.update i) ∉ later) ∧
        ∀ before use later, uses = before ++ use :: later → Attends before i use →
          .look (.update i) ∉ later →
          (after {} uses).sight (.changed i) = .changed (later.any isMutation)) ∧
      (after {} uses).sight (.update i) = .value (after {} uses).tally.progress ∧
      (after {} uses).sight (.peek i) = .value (after {} uses).tally.progress) ∧
    ∀ earlier later, uses = earlier ++ later → mutations earlier ≤ mutations uses ∧
      (after {} earlier).tally.progress = snapshot uses (mutations earlier) := by
  refine ⟨⟨(sound_after uses).completed, (sound_after uses).published⟩, sight_watch uses,
    fun i made => ⟨⟨exists_attends uses made, ?changes⟩, sight_reading made⟩, ?snapshots⟩
  case changes =>
    rintro before use later rfl attends idle
    exact sight_changed attends idle
  case snapshots =>
    rintro earlier later rfl
    rw [mutations_append, snapshot_append, progress_after]
    exact ⟨Nat.le_add_right .., rfl⟩

-- Dropping a job that is not there publishes counts equal to the old ones, and that is a change.
example : (after {} [.look .watch, .call (.discarded 1)]).sight (.changed 0) = .changed true ∧
    (after {} [.look .watch, .call (.discarded 1)]).tally.progress = {} := by decide

end WatchedTally
end JobPool
