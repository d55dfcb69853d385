/-
JobPool.Proofs.Pool.Staff — what becomes of a worker.

Seven things can happen to a worker in one change (`Fate`), and a worker that is new or
started again is the only exception (`Hired`). From this follows what holds of the staff
of a pool at any time (`Manned`): every worker has a current loop, a worker whose current
loop has ended is stopped, the pool can wait for the current loop of each registered
worker, and a worker that left the registry is not idle.

  §1 Fates
  §2 Loops
  §3 The staff
-/
import JobPool.Proofs.Pool.Bound

namespace JobPool

open Pool (Change Changes Deed Aside Asked Sound)

namespace Worker

theorem isIdle_stop (k : Worker) (wall : Nat) : (k.stop wall).isIdle = false := by
  cases status : k.status <;> simp [stop, isIdle, status]

theorem isIdle_of_isStopped {k : Worker} (h : k.isStopped = true) : k.isIdle = false := by
  cases status : k.status <;> simp [isIdle, isStopped, status] at h ⊢

theorem isStopped_or_isWorking {k : Worker} (h : k.isIdle = false) :
    k.isStopped = true ∨ k.isWorking = true := by
  cases status : k.status <;> simp [isIdle, isStopped, isWorking, status] at h ⊢

@[simp] theorem loop_stop (k : Worker) (wall : Nat) : (k.stop wall).loop = k.loop := by
  unfold stop
  split <;> rfl

@[simp] theorem loop_markStopped (k : Worker) (generation wall : Nat) :
    (k.markStopped generation wall).loop = k.loop := by
  unfold markStopped
  split <;> rfl

theorem isStopped_markStopped_of_isStopped {k : Worker} (generation wall : Nat)
    (h : k.isStopped = true) : (k.markStopped generation wall).isStopped = true := by
  unfold markStopped
  split
  · rfl
  · exact h

theorem isIdle_markStopped {k : Worker} (generation wall : Nat) (h : k.isIdle = false) :
    (k.markStopped generation wall).isIdle = false := by
  unfold markStopped
  split
  · rfl
  · exact h

end Worker

namespace Pool

/-! ## §1 Fates -/

/-- What becomes of worker `w`, which is `k` in `p`, when the pool is `q`. -/
inductive Fate (p q : Pool) (w : WorkerId) (k : Worker) : Worker → Prop where
  | same : Fate p q w k k
  | stopped (wall : Nat) : Fate p q w k (k.stop wall)
  /-- It was stopped and is no longer registered. -/
  | left (gone : w ∉ q.registry) (stopped : k.isStopped = true) :
      Fate p q w k { k with loop := none }
  | retired (wall : Nat) (gone : w ∉ q.registry) : Fate p q w k (retired wall k)
  | took (live : p.tokens.isCancelled k.token = false) (idle : k.isIdle = true) :
      Fate p q w k k.take
  /-- It finished a job, and stops if it was asked to. -/
  | finished (wall : Nat) (working : k.isWorking = true) :
      Fate p q w k (k.finish (p.tokens.isCancelled k.token) wall)
  /-- A loop of it has ended. -/
  | marked (generation wall : Nat) : Fate p q w k (k.markStopped generation wall)

/-- Worker `w` is new or was started again, and has a new loop. -/
structure Hired (p q : Pool) (w : WorkerId) (k : Worker) : Prop where
  running : p.status = .running
  registered : w ∈ q.registry
  loops : q.loops = p.loops ++ [⟨w, k.generation, k.token, .looking⟩]
  handle : k.loop = some p.loops.length
  older : ∀ l ∈ p.loops, l.worker = w → l.generation ≠ k.generation

namespace Fate

variable {p q : Pool} {w : WorkerId} {k k' : Worker}

theorem generation (h : Fate p q w k k') : k'.generation = k.generation := by
  cases h with
  | stopped wall => exact k.generation_stop wall
  | retired wall _ => exact k.generation_stop wall
  | finished wall _ => exact k.generation_finish ..
  | marked generation wall => exact k.generation_markStopped ..
  | _ => rfl

theorem token (h : Fate p q w k k') : k'.token = k.token := by
  cases h with
  | stopped wall => exact k.token_stop wall
  | retired wall _ => exact k.token_stop wall
  | finished wall _ =>
    unfold Worker.finish
    split <;> rfl
  | marked generation wall => exact k.token_markStopped ..
  | _ => rfl

/-- A stopped worker stays stopped. -/
theorem isStopped (h : Fate p q w k k') (stopped : k.isStopped = true) : k'.isStopped = true := by
  cases h with
  | same => exact stopped
  | stopped wall => exact isStopped_stop_of_isStopped wall stopped
  | left _ _ => exact stopped
  | retired wall _ => exact isStopped_stop_of_isStopped wall stopped
  | took _ idle =>
    rw [Worker.isIdle_of_isStopped stopped] at idle
    cases idle
  | finished wall working =>
    rw [Worker.isWorking_of_isStopped stopped] at working
    cases working
  | marked generation wall => exact k.isStopped_markStopped_of_isStopped generation wall stopped

/-- A worker that was asked to stop, and is not idle, does not get idle. -/
theorem isIdle (h : Fate p q w k k') (idle : k.isIdle = false)
    (cancelled : p.tokens.isCancelled k.token = true) : k'.isIdle = false := by
  cases h with
  | same => exact idle
  | stopped wall => exact k.isIdle_stop wall
  | left _ _ => exact idle
  | retired wall _ => exact k.isIdle_stop wall
  | took _ idle' =>
    rw [idle] at idle'
    cases idle'
  | finished wall _ =>
    rw [cancelled]
    rfl
  | marked generation wall => exact k.isIdle_markStopped generation wall idle

/-- The pool can wait for the loop of a registered worker as before. -/
theorem loop (h : Fate p q w k k') (registered : w ∈ q.registry) : k'.loop = k.loop := by
  cases h with
  | same => rfl
  | stopped wall => exact k.loop_stop wall
  | left gone _ => exact absurd registered gone
  | retired wall gone => exact absurd registered gone
  | took _ _ => rfl
  | finished wall _ =>
    unfold Worker.finish
    split <;> rfl
  | marked generation wall => exact k.loop_markStopped ..

end Fate

/-- One worker changes by `f`, and the others stay. -/
theorem fate_modifyWorker {p q : Pool} {w : WorkerId} {f : Worker → Worker}
    (workers : q.workers = (p.modifyWorker w f).workers)
    (own : ∀ k, p.workers[w]? = some k → Fate p q w k (f k)) {v : WorkerId} {k' : Worker}
    (found' : q.workers[v]? = some k') : ∃ k, p.workers[v]? = some k ∧ Fate p q v k k' := by
  rw [workers, workers_modifyWorker] at found'
  obtain ⟨k, found, rfl⟩ := Option.map_eq_some_iff.1 found'
  refine ⟨k, found, ?_⟩
  split
  · rename_i same
    subst same
    exact own k found
  · exact .same

theorem fate_of_asked {p q r : Pool} {f : Worker → Worker} {ws : List WorkerId}
    (asked : Asked f p ws r) (workers : q.workers = r.workers)
    (own : ∀ w ∈ ws, ∀ k, Fate p q w k (f k)) {v : WorkerId} {k' : Worker}
    (found' : q.workers[v]? = some k') : ∃ k, p.workers[v]? = some k ∧ Fate p q v k k' := by
  rw [workers, asked.workers] at found'
  obtain ⟨k, found, rfl⟩ := Option.map_eq_some_iff.1 found'
  refine ⟨k, found, ?_⟩
  split
  · exact own v (by assumption) k
  · exact .same

theorem Sound.fate_of_change {p q : Pool} {d : Option Deed} (h : p.Sound) (change : Change p d q)
    {w : WorkerId} {k' : Worker} (found' : q.workers[w]? = some k') :
    (∃ k, p.workers[w]? = some k ∧ Fate p q w k k') ∨ Hired p q w k' := by
  have same : ∀ {q : Pool}, q.workers = p.workers → q.workers[w]? = some k' →
      ∃ k, p.workers[w]? = some k ∧ Fate p q w k k' :=
    fun workers found => ⟨k', workers ▸ found, .same⟩
  cases change with
  | aside aside => exact .inl (same aside.beside.workers found')
  | add wall running _ =>
    rw [workers_addWorker] at found'
    split at found'
    · rename_i new
      obtain rfl := Option.some.inj found'
      refine .inr ⟨running, ?_, ?_, rfl, fun l hl carried => ?_⟩
      · simp [Pool.addWorker, new]
      · rw [new]
        rfl
      · obtain ⟨k, carrier, -⟩ := h.fits l hl
        simp [carried, new] at carrier
    · exact .inl ⟨k', found', .same⟩
  | restart wall running registered found _ _ =>
    simp only [workers_set found] at found'
    split at found'
    · rename_i same
      subst same
      obtain rfl := Option.some.inj found'
      refine .inr ⟨running, registered, rfl, rfl, fun l hl carried => ?_⟩
      obtain ⟨k, carrier, fits⟩ := h.fits l hl
      rw [carried, found] at carrier
      obtain rfl := Option.some.inj carrier
      exact Nat.ne_of_lt (Nat.lt_succ_of_le fits.generation_le)
    · exact .inl ⟨k', found', .same⟩
  | stop wall v =>
    exact .inl (fate_of_asked (p.asked_stopWorker wall v) rfl (fun _ _ k => .stopped wall) found')
  | @leave v stopped =>
    refine .inl (fate_modifyWorker (p := p) (w := v) (f := fun k => { k with loop := none }) ?_
      (fun k found => ?_) found')
    · rfl
    · refine .left (fun kept => ?_) (stopped k found).1
      exact (h.nodup.mem_erase_iff.1 kept).1 rfl
  | halt wall _ _ asked =>
    refine .inl (fate_of_asked asked ?_ (fun _ _ k => .stopped wall) found')
    rfl
  | drain wall _ _ asked _ =>
    refine .inl (fate_of_asked asked ?_ (fun _ _ k => .retired wall List.not_mem_nil) found')
    rfl
  | notify => exact .inl (same rfl found')
  | park wake _ _ => exact .inl (same rfl found')
  | wake _ _ => exact .inl (same rfl found')
  | @endLoop i l wall _ _ _ =>
    refine .inl (fate_modifyWorker (p := p) (w := l.worker) ?_
      (fun k _ => .marked l.generation wall) found')
    rfl
  | @take i l job now found looking mayTake =>
    refine .inl (fate_modifyWorker (p := p) (w := l.worker) (f := (·.take)) ?_
      (fun k carrier => ?_) found')
    · rfl
    · have free := Loop.free_of_looking looking
      obtain ⟨goes, idle, -⟩ := h.room_of_mayTake found carrier free mayTake
      obtain ⟨current, live⟩ := (mayTake_iff carrier).1 mayTake
      obtain ⟨k', carrier', fits⟩ := h.fitting found
      obtain rfl := Option.some.inj (carrier.symm.trans carrier')
      refine .took (fits.token_eq current.symm ▸ live) ?_
      rw [← Bool.not_eq_false]
      intro busy
      rcases Worker.isStopped_or_isWorking busy with stopped | working
      · rw [goes] at stopped
        cases stopped
      · rw [idle] at working
        cases working
  | run _ _ _ => exact .inl (same rfl found')
  | cutShort _ _ _ => exact .inl (same rfl found')
  | crash _ _ _ => exact .inl (same rfl found')
  | @finish i l r success wall found running _ current =>
    refine .inl (fate_modifyWorker (p := p) (w := l.worker)
      (f := (·.finish (p.tokens.isCancelled l.token) wall)) ?_ (fun k carrier => ?_) found')
    · rfl
    · obtain ⟨k', carrier', fits⟩ := h.fitting found
      obtain rfl := Option.some.inj (carrier.symm.trans carrier')
      have busy := Loop.busy_of_running running
      have generation := fits.current_of_busy busy
      rw [fits.token_eq generation]
      exact .finished wall ((fits.working_eq generation).trans busy)
  | @finishLate i l r success wall _ _ _ _ =>
    refine .inl (fate_modifyWorker (p := p) (w := l.worker) ?_
      (fun k _ => .marked l.generation wall) found')
    rfl

/-! ## §2 Loops -/

/-- What becomes of a loop that was there. If it ends now, its worker is stopped, unless that has
another loop meanwhile; and a loop that takes no further step stays as it is. -/
structure Goes (q : Pool) (l l' : Loop) : Prop where
  worker : l'.worker = l.worker
  generation : l'.generation = l.generation
  ends : l'.phase = .ended → l.phase = .ended ∨
    ∀ k', q.workers[l.worker]? = some k' → k'.generation = l.generation → k'.isStopped = true
  stays : l.isOver = true → l'.phase = l.phase

theorem Goes.refl (q : Pool) (l : Loop) : Goes q l l := ⟨rfl, rfl, .inl, fun _ => rfl⟩

/-- One loop changes its phase. -/
theorem goes_of_setPhase {p q : Pool} {i : LoopId} {l : Loop} (phase : Loop.Phase)
    (found : p.loops[i]? = some l) (loops : q.loops = p.loops.modify i fun l => { l with phase })
    (ends : phase = .ended → ∀ k', q.workers[l.worker]? = some k' →
      k'.generation = l.generation → k'.isStopped = true)
    (stays : l.isOver = true → phase = l.phase) {j : LoopId} {l' : Loop}
    (found' : q.loops[j]? = some l') : ∃ l, p.loops[j]? = some l ∧ Goes q l l' := by
  rw [loops, List.getElem?_modify] at found'
  obtain ⟨l₀, found₀, rfl⟩ := Option.map_eq_some_iff.1 found'
  refine ⟨l₀, found₀, ?_⟩
  split
  · rename_i same
    subst same
    obtain rfl := Option.some.inj (found.symm.trans found₀)
    exact ⟨rfl, rfl, fun ended => .inr (ends ended), stays⟩
  · exact .refl q l₀

/-- A worker whose loop of that generation ends is stopped. -/
theorem isStopped_of_marked {p : Pool} {w : WorkerId} {generation wall : Nat} {k' : Worker}
    (found' : (p.modifyWorker w (·.markStopped generation wall)).workers[w]? = some k')
    (current : k'.generation = generation) : k'.isStopped = true := by
  rw [workers_modifyWorker] at found'
  obtain ⟨k, -, rfl⟩ := Option.map_eq_some_iff.1 found'
  rw [if_pos rfl] at current ⊢
  rw [k.generation_markStopped] at current
  rw [← current]
  exact k.isStopped_markStopped wall

theorem goes_of_change {p q : Pool} {d : Option Deed} (change : Change p d q) {i : LoopId}
    {l' : Loop} (found' : q.loops[i]? = some l') :
    (∃ l, p.loops[i]? = some l ∧ Goes q l l') ∨ (p.loops[i]? = none ∧ l'.phase = .looking) := by
  have same : ∀ {q : Pool}, q.loops = p.loops → q.loops[i]? = some l' →
      ∃ l, p.loops[i]? = some l ∧ Goes q l l' :=
    fun loops found => ⟨l', loops ▸ found, .refl _ l'⟩
  have added : ∀ {l₀ : Loop}, l₀.phase = .looking → (p.loops ++ [l₀])[i]? = some l' →
      (∃ l, p.loops[i]? = some l ∧ Goes q l l') ∨ (p.loops[i]? = none ∧ l'.phase = .looking) := by
    intro l₀ looking found
    rw [List.getElem?_append] at found
    split at found
    · exact .inl ⟨l', found, .refl q l'⟩
    · rename_i beyond
      rw [List.mem_singleton.1 (List.mem_of_getElem? found)]
      exact .inr ⟨List.getElem?_eq_none (Nat.le_of_not_lt beyond), looking⟩
  have moved : ∀ {i₀ : LoopId} {l₀ : Loop} {phase : Loop.Phase} {q : Pool},
      p.loops[i₀]? = some l₀ → q.loops = (p.loops.modify i₀ fun l => { l with phase }) →
      phase ≠ .ended → l₀.isOver = false → q.loops[i]? = some l' →
        (∃ l, p.loops[i]? = some l ∧ Goes q l l') ∨ (p.loops[i]? = none ∧ l'.phase = .looking) := by
    intro i₀ l₀ phase q found loops lively goes found'
    refine .inl (goes_of_setPhase phase found loops (fun ended => absurd ended lively) ?_ found')
    simp [goes]
  have going : ∀ {l : Loop} {r : Run}, l.phase = .running r → l.isOver = false :=
    fun running => by simp [Loop.isOver, running]
  cases change with
  | aside aside => exact .inl (same aside.beside.loops found')
  | add wall _ _ => exact added rfl found'
  | restart wall _ _ _ _ _ => exact added rfl found'
  | stop wall w =>
    exact .inl (same (congrArg Pool.loops (p.asked_stopWorker wall w).rest :) found')
  | leave _ => exact .inl (same rfl found')
  | halt wall _ _ asked => exact .inl (same (congrArg Pool.loops asked.rest :) found')
  | drain wall _ _ asked _ => exact .inl (same (congrArg Pool.loops asked.rest :) found')
  | notify =>
    simp only [notifyAll, List.getElem?_map] at found'
    obtain ⟨l, found, rfl⟩ := Option.map_eq_some_iff.1 found'
    refine .inl ⟨l, found, (alike_notify l).worker, (alike_notify l).generation, ?_, ?_⟩
    · cases phase : l.phase <;> simp [Loop.notify, phase]
    · cases phase : l.phase <;> simp [Loop.notify, Loop.isOver, phase]
  | park wake found looking =>
    exact moved found rfl (by simp) (by simp [Loop.isOver, looking]) found'
  | wake found parked => exact moved found rfl (by simp) (by simp [Loop.isOver, parked]) found'
  | @endLoop _ l wall found free _ =>
    refine .inl (goes_of_setPhase .ended found ?_ (fun _ k' carrier' => ?_) ?_ found')
    · rfl
    · exact isStopped_of_marked (p := p) carrier'
    · cases phase : l.phase <;> simp [Loop.isOver, Loop.isBusy, phase] at free ⊢
  | take job now found looking _ =>
    exact moved found rfl (by simp) (by simp [Loop.isOver, looking]) found'
  | run found running _ => exact moved found rfl (by simp) (going running) found'
  | cutShort found running _ => exact moved found rfl (by simp) (going running) found'
  | crash found running _ => exact moved found rfl (by simp) (going running) found'
  | @finish i₀ l _ _ wall found running _ _ =>
    cases cancelled : p.tokens.isCancelled l.token with
    | false =>
      simp only [cancelled, Bool.false_eq_true, if_false] at found' ⊢
      exact moved found rfl (by simp) (going running) found'
    | true =>
      simp only [cancelled, if_true] at found' ⊢
      refine .inl (goes_of_setPhase .ended found ?_ (fun _ k' carrier' _ => ?_) ?_ found')
      · rfl
      · have changed := p.workers_modifyWorker l.worker (·.finish true wall) l.worker
        rw [show (p.modifyWorker l.worker (·.finish true wall)).workers[l.worker]? = some k'
          from carrier'] at changed
        obtain ⟨k, -, rfl⟩ := Option.map_eq_some_iff.1 changed.symm
        rw [if_pos rfl]
        rfl
      · simp [going running]
  | @finishLate _ l _ _ wall found running _ _ =>
    refine .inl (goes_of_setPhase .ended found ?_ (fun _ k' carrier' => ?_)
      (by simp [going running]) found')
    · rfl
    · exact isStopped_of_marked (p := p) carrier'

/-! ## §3 The staff -/

/-- The loop is the current one of worker `w`. -/
def Carries (p : Pool) (l : Loop) (w : WorkerId) : Prop :=
  l.worker = w ∧ p.check (·.generation == l.generation) w = true

theorem carries_iff {p : Pool} {l : Loop} {w : WorkerId} {k : Worker}
    (found : p.workers[w]? = some k) :
    p.Carries l w ↔ l.worker = w ∧ l.generation = k.generation := by
  rw [Carries, check, found]
  exact and_congr_right fun _ => beq_iff_eq.trans eq_comm

/-- What holds of the staff of a pool at any time. -/
structure Manned (p : Pool) : Prop where
  current : ∀ (w : WorkerId) (k : Worker), p.workers[w]? = some k → ∃ l ∈ p.loops, p.Carries l w
  ended : ∀ (w : WorkerId) (k : Worker), p.workers[w]? = some k →
    ∀ l ∈ p.loops, p.Carries l w → l.phase = .ended → k.isStopped = true
  handle : ∀ w ∈ p.registry, ∀ k, p.workers[w]? = some k →
    ∃ i l, k.loop = some i ∧ p.loops[i]? = some l ∧ p.Carries l w
  dismissed : ∀ (w : WorkerId) (k : Worker), p.workers[w]? = some k → w ∉ p.registry →
    k.isIdle = false

/-- A worker leaves the registry stopped, or in a release, and then it is not idle. -/
theorem gone_of_change {p q : Pool} {d : Option Deed} (change : Change p d q) {w : WorkerId}
    {k' : Worker} (registered : w ∈ p.registry) (gone : w ∉ q.registry)
    (found' : q.workers[w]? = some k') :
    k'.isIdle = false ∧
      (k'.isStopped = true ∨ ∃ (c : CallId) (u : Option UpkeepId) (ls : List LoopId),
        p.calls[c]? = some (.releasing u) ∧ q.calls[c]? = some (.draining ls)) := by
  cases change with
  | aside aside => exact absurd (aside.beside.registry ▸ registered) gone
  | add wall _ _ => exact absurd (List.mem_append_left _ registered) gone
  | stop wall v =>
    exact absurd ((congrArg Pool.registry (p.asked_stopWorker wall v).rest :) ▸ registered) gone
  | halt wall _ _ asked =>
    exact absurd ((congrArg Pool.registry asked.rest :) ▸ registered) gone
  | @leave v stopped =>
    obtain rfl : w = v := by
      by_contra differ
      exact gone ((List.mem_erase_of_ne differ).2 registered)
    have changed := p.workers_modifyWorker w (fun k => { k with loop := none }) w
    rw [show (p.modifyWorker w fun k => { k with loop := none }).workers[w]? = some k' from found']
      at changed
    obtain ⟨k, found, rfl⟩ := Option.map_eq_some_iff.1 changed.symm
    rw [if_pos rfl]
    exact ⟨Worker.isIdle_of_isStopped (stopped k found).1, .inl (stopped k found).1⟩
  | @drain c u wall found _ ls q asked _ =>
    have changed := asked.workers w
    rw [show q.workers[w]? = some k' from found'] at changed
    obtain ⟨k, -, rfl⟩ := Option.map_eq_some_iff.1 changed.symm
    rw [if_pos registered]
    refine ⟨k.isIdle_stop wall, .inr ⟨c, u, ls, found, ?_⟩⟩
    exact List.getElem?_set_self (List.getElem?_eq_some_iff.1 found).1
  | _ => exact absurd registered gone

theorem registered_of_change {p q : Pool} {d : Option Deed} (change : Change p d q) {w : WorkerId}
    {k : Worker} (found : p.workers[w]? = some k) (registered : w ∈ q.registry) :
    w ∈ p.registry := by
  rcases (later_of_change change).registry w registered with old | beyond
  · exact old
  · exact absurd (List.getElem?_eq_some_iff.1 found).1 (Nat.not_lt_of_le beyond)

/-- The current loop of a worker that was there stays its current loop. -/
theorem Fate.carries {p q : Pool} {d : Option Deed} {w : WorkerId} {k k' : Worker} {i : LoopId}
    {l : Loop} (fate : Fate p q w k k') (change : Change p d q) (found : p.workers[w]? = some k)
    (found' : q.workers[w]? = some k') (at_i : p.loops[i]? = some l) (carried : p.Carries l w) :
    ∃ l', q.loops[i]? = some l' ∧ q.Carries l' w := by
  obtain ⟨l', at_i', worker, generation⟩ := (later_of_change change).loops i l at_i
  rw [carries_iff found] at carried
  refine ⟨l', at_i', (carries_iff found').2 ⟨worker.trans carried.1, ?_⟩⟩
  rw [generation, fate.generation, carried.2]

theorem Manned.of_change {p q : Pool} {d : Option Deed} (h : p.Manned) (sound : p.Sound)
    (change : Change p d q) : q.Manned := by
  have hired : ∀ {w : WorkerId} {k' : Worker}, q.workers[w]? = some k' → Hired p q w k' →
      q.loops[p.loops.length]? = some ⟨w, k'.generation, k'.token, .looking⟩ ∧
        q.Carries ⟨w, k'.generation, k'.token, .looking⟩ w := by
    intro w k' found' hired
    refine ⟨?_, (carries_iff found').2 ⟨rfl, rfl⟩⟩
    rw [hired.loops, List.getElem?_append_right (Nat.le_refl _), Nat.sub_self]
    rfl
  refine ⟨fun w k' found' => ?_, fun w k' found' l' hl' carried ended => ?_,
    fun w registered k' found' => ?_, fun w k' found' gone => ?_⟩
  · rcases sound.fate_of_change change found' with ⟨k, found, fate⟩ | new
    · obtain ⟨l, hl, carried⟩ := h.current w k found
      obtain ⟨i, at_i⟩ := List.mem_iff_getElem?.1 hl
      obtain ⟨l', at_i', carried'⟩ := fate.carries change found found' at_i carried
      exact ⟨l', List.mem_of_getElem? at_i', carried'⟩
    · obtain ⟨at_new, carried⟩ := hired found' new
      exact ⟨_, List.mem_of_getElem? at_new, carried⟩
  · obtain ⟨i, at_i'⟩ := List.mem_iff_getElem?.1 hl'
    obtain ⟨worker', current'⟩ := (carries_iff found').1 carried
    rcases goes_of_change change at_i' with ⟨l, at_i, goes⟩ | ⟨-, looking⟩
    · rcases goes.ends ended with was | now
      · rcases sound.fate_of_change change found' with ⟨k, found, fate⟩ | new
        · refine fate.isStopped (h.ended w k found l (List.mem_of_getElem? at_i) ?_ was)
          refine (carries_iff found).2 ⟨goes.worker ▸ worker', ?_⟩
          rw [← goes.generation, current', fate.generation]
        · refine absurd (goes.generation ▸ current') ?_
          exact new.older l (List.mem_of_getElem? at_i) (goes.worker ▸ worker')
      · exact now k' (by rw [← goes.worker, worker']; exact found')
          (by rw [← goes.generation, current'])
    · rw [looking] at ended
      cases ended
  · rcases sound.fate_of_change change found' with ⟨k, found, fate⟩ | new
    · obtain ⟨i, l, handle, at_i, carried⟩ :=
        h.handle w (registered_of_change change found registered) k found
      obtain ⟨l', at_i', carried'⟩ := fate.carries change found found' at_i carried
      exact ⟨i, l', (fate.loop registered).trans handle, at_i', carried'⟩
    · obtain ⟨at_new, carried⟩ := hired found' new
      exact ⟨_, _, new.handle, at_new, carried⟩
  · rcases sound.fate_of_change change found' with ⟨k, found, fate⟩ | new
    · by_cases registered : w ∈ p.registry
      · exact (gone_of_change change registered gone found').1
      · exact fate.isIdle (h.dismissed w k found registered)
          (sound.cancelled w k found (.inr registered))
    · exact absurd new.registered gone

theorem manned_create (name : String) (settings : Settings) : (create name settings).Manned := by
  have none_found : ∀ (w : WorkerId) (k : Worker), (create name settings).workers[w]? ≠ some k :=
    fun w k => by simp [create]
  exact ⟨fun w k found => absurd found (none_found w k),
    fun w k found => absurd found (none_found w k), List.forall_mem_nil _,
    fun w k found => absurd found (none_found w k)⟩

end Pool
end JobPool
