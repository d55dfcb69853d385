/-
JobPool.Proofs.Pool.Returning — a stop returns, and so does a release once the attempts in flight
have ended.

A loop that has no job and may take none ends in its next step, and with the root cancelled a
loop that has a job ends when the job is done. Upkeep whose token is cancelled ends too, for
its tasks have ever fewer steps left and the only thing that a watcher waits for is the end of
a loop: that of a worker that has stopped. So on a strand on which all tasks have their turns
a stop finds its upkeep over and returns, whatever the jobs do and whatever is done to the bus
and the driver from elsewhere. A release finds upkeep over, then waits for the loops, and
returns if all attempts end.

  §1 Loops
  §2 Upkeep
  §3 Calls
-/
import JobPool.Proofs.Pool.Stopping
import JobPool.Proofs.Pool.Upkeep
import JobPool.Proofs.Pool.Winding

namespace JobPool

open Pool (Change Changes Deed)

/-- What is true of each from some point on is true of all from some point on. -/
theorem late_of_forall {α : Type} {P : α → Nat → Prop} : ∀ {xs : List α},
    (∀ x ∈ xs, ∃ late, ∀ n, late ≤ n → P x n) → ∃ late, ∀ n, late ≤ n → ∀ x ∈ xs, P x n
  | [], _ => ⟨0, fun _ _ => List.forall_mem_nil _⟩
  | x :: xs, each => by
    obtain ⟨first, here⟩ := each x List.mem_cons_self
    obtain ⟨rest, there⟩ := late_of_forall fun y hy => each y (List.mem_cons_of_mem x hy)
    refine ⟨max first rest, fun n le => ?_⟩
    obtain ⟨le₁, le₂⟩ := Nat.max_le.1 le
    exact List.forall_mem_cons.2 ⟨here n le₁, there n le₂⟩

/-! ## §1 Loops -/

/-- The loop is there and takes no further step. -/
def Pool.Ended (p : Pool) (i : LoopId) : Prop := ∃ l : Loop, p.loops[i]? = some l ∧ l.isOver = true

theorem Pool.Ended.loopIsOver {p : Pool} {i : LoopId} (h : p.Ended i) : p.loopIsOver i = true := by
  obtain ⟨l, found, ended⟩ := h
  simp [Pool.loopIsOver, found, ended]

theorem Pool.Ended.of_change {p q : Pool} {d : Option Deed} {i : LoopId} (h : p.Ended i)
    (change : Change p d q) : q.Ended i := by
  obtain ⟨l, found, ended⟩ := h
  obtain ⟨l', found', -⟩ := (Pool.later_of_change change).loops i l found
  refine ⟨l', found', ?_⟩
  rcases Pool.goes_of_change change found' with ⟨l₀, found₀, goes⟩ | ⟨beyond, -⟩
  · obtain rfl := Option.some.inj (found.symm.trans found₀)
    rw [Loop.isOver, goes.stays ended]
    exact ended
  · rw [found] at beyond
    cases beyond

/-- The loop has no job, and it is to end. -/
def Pool.Leaving (p : Pool) (i : LoopId) : Prop :=
  ∃ l : Loop, p.loops[i]? = some l ∧ l.isBusy = false ∧ p.tokens.isCancelled l.token = true

/-- A loop that is to end takes no job. -/
theorem Pool.Leaving.of_change {p q : Pool} {d : Option Deed} {i : LoopId} (h : p.Leaving i)
    (change : Change p d q) : q.Leaving i := by
  obtain ⟨l, found, free, cancelled⟩ := h
  have cancelled' := (Pool.before_of_change change).cancelled_of_cancelled _ cancelled
  have same : q.loops = p.loops → q.Leaving i := fun loops =>
    ⟨l, loops ▸ found, free, cancelled'⟩
  have longer : ∀ {new : Loop}, q.loops = p.loops ++ [new] → q.Leaving i := fun loops =>
    ⟨l, loops ▸ (List.getElem?_append_left (List.getElem?_eq_some_iff.1 found).1).trans found,
      free, cancelled'⟩
  have moved : ∀ {j : LoopId} {l₀ : Loop} {phase : Loop.Phase}, p.loops[j]? = some l₀ →
      q.loops = (p.loops.modify j fun l => { l with phase }) →
      (l₀.isBusy = false → p.tokens.isCancelled l₀.token = true →
        ({ l₀ with phase } : Loop).isBusy = false) → q.Leaving i := by
    intro j l₀ phase found₀ loops stays
    refine ⟨if j = i then { l with phase } else l, ?_, ?_, ?_⟩
    · rw [loops, List.getElem?_modify, found]
      rfl
    · split
      · rename_i own
        subst own
        obtain rfl := Option.some.inj (found.symm.trans found₀)
        exact stays free cancelled
      · exact free
    · split <;> exact cancelled'
  have busy : ∀ {l : Loop} {r : Run} {P : Prop}, l.phase = .running r → l.isBusy = false → P := by
    intro l r P running idle
    simp [Loop.isBusy, running] at idle
  cases change with
  | aside aside => exact same aside.beside.loops
  | add wall _ _ => exact longer rfl
  | restart wall _ _ _ _ _ => exact longer rfl
  | stop wall w => exact same (congrArg Pool.loops (p.asked_stopWorker wall w).rest :)
  | leave _ => exact same rfl
  | halt wall _ _ asked => exact same (congrArg Pool.loops asked.rest :)
  | drain wall _ _ asked _ => exact same (congrArg Pool.loops asked.rest :)
  | notify =>
    have alike := Pool.alike_notify l
    refine ⟨l.notify, ?_, alike.busy.trans free, alike.token ▸ cancelled'⟩
    rw [Pool.notifyAll, List.getElem?_map, found]
    rfl
  | park wake found₀ _ => exact moved found₀ rfl fun _ _ => rfl
  | wake found₀ _ => exact moved found₀ rfl fun _ _ => rfl
  | endLoop wall found₀ _ _ => exact moved found₀ rfl fun _ _ => rfl
  | take job now found₀ _ mayTake =>
    refine moved found₀ rfl fun _ ends => ?_
    simp [Pool.mayTake, ends] at mayTake
  | run found₀ running _ => exact moved found₀ rfl fun idle _ => busy running idle
  | cutShort found₀ running _ => exact moved found₀ rfl fun idle _ => busy running idle
  | crash found₀ running _ => exact moved found₀ rfl fun idle _ => busy running idle
  | finish wall found₀ running _ _ => exact moved found₀ rfl fun idle _ => busy running idle
  | finishLate wall found₀ running _ _ => exact moved found₀ rfl fun idle _ => busy running idle

/-- The loop that a registered worker leaves behind when it has stopped is to end. -/
theorem Pool.Regular.leaving {p : Pool} (h : p.Regular) {w : WorkerId} {k : Worker} {i : LoopId}
    (registered : w ∈ p.registry) (found : p.workers[w]? = some k) (stopped : k.isStopped = true)
    (handle : k.loop = some i) : p.Leaving i := by
  obtain ⟨j, l, handle', at_j, carried⟩ := h.manned.handle w registered k found
  obtain rfl := Option.some.inj (handle.symm.trans handle')
  obtain ⟨worker, current⟩ := (Pool.carries_iff found).1 carried
  obtain ⟨k', carrier, fits⟩ := h.sound.matched.fitting at_j
  rw [worker, found] at carrier
  obtain rfl := Option.some.inj carrier
  refine ⟨l, at_j, ?_, ?_⟩
  · rw [← fits.working_eq current]
    exact Worker.isWorking_of_isStopped stopped
  · rw [fits.token_eq current]
    exact h.sound.cancelled w k found (.inl stopped)

namespace Site

variable {s s' : Site} {i : LoopId} {l : Loop}

theorem ended_endLoop (found : s.pool.loops[i]? = some l) : (s.endLoop i l).pool.Ended i := by
  refine ⟨{ l with phase := .ended }, ?_, rfl⟩
  simp [endLoop, withPool, Pool.setPhase, Pool.modifyWorker, found]

/-- With its token cancelled, a loop without a job is over or ends in its next step. -/
theorem ends_of_free (cancelled : s.pool.tokens.isCancelled l.token = true)
    (found : s.pool.loops[i]? = some l) (free : l.isBusy = false) :
    s.pool.Ended i ∨ ∃ s', s.step (.loop i) = some s' ∧ s'.pool.Ended i := by
  have barred : s.pool.mayTake l = false := by simp [Pool.mayTake, cancelled]
  cases phase : l.phase with
  | looking =>
    refine .inr ⟨s.endLoop i l, ?_, ended_endLoop found⟩
    simp [step, stepLoop, found, phase, look, barred]
  | parked notified wake =>
    refine .inr ⟨s.endLoop i l, ?_, ended_endLoop found⟩
    simp [step, stepLoop, found, phase, cancelled]
  | running run => simp [Loop.isBusy, phase] at free
  | ended => exact .inl ⟨l, found, by simp [Loop.isOver, phase]⟩
  | crashed => exact .inl ⟨l, found, by simp [Loop.isOver, phase]⟩

/-- With the root cancelled, a loop that records an outcome ends. -/
theorem ends_of_finishes {x : Job × Bool} (root : s.pool.tokens.root = true)
    (finishes : s.finishes (.loop i) = some x) (moved : s.step (.loop i) = some s') :
    s'.pool.Ended i := by
  cases found : s.pool.loops[i]? with
  | none => simp [Site.finishes, found] at finishes
  | some l =>
    cases phase : l.phase with
    | running run =>
      cases ending : run.phase with
      | finished success =>
        have cancelled := s.pool.tokens.isCancelled_of_root root l.token
        simp only [step, stepLoop, found, phase, ending, Option.bind_eq_bind, Option.bind_some,
          finishJob, cancelled] at moved
        obtain rfl := Option.some.inj moved
        split
        · exact ended_endLoop found
        · exact ended_endLoop found
      | _ => simp [Site.finishes, found, phase, ending] at finishes
    | _ => simp [Site.finishes, found, phase] at finishes

/-- A loop whose run was cut short ends in its next step. -/
theorem ends_of_unwound {r : Run} (runs : s.pool.runAt i = some r) (unwound : r.phase = .unwound) :
    ∃ s', s.step (.loop i) = some s' ∧ s'.pool.Ended i := by
  obtain ⟨l, found, running⟩ := Pool.runAt_eq_some.1 runs
  refine ⟨s.withPool (s.pool.setPhase i .crashed), ?_, { l with phase := .crashed }, ?_, rfl⟩
  · simp [step, stepLoop, found, running, unwound]
  · simp [withPool, Pool.setPhase, found]

end Site

/-- A run is one by the policy of its job, unless it was cut short. -/
def Pool.Faithful (p : Pool) : Prop :=
  ∀ i r, p.runAt i = some r → r.phase = .unwound ∨ ∃ evs, Run.Tells r.job p.settings.job r evs

theorem Pool.faithful_create (name : String) (settings : Settings) :
    (create name settings).Faithful := fun _ _ runs => by cases runs

theorem Pool.Faithful.of_change {p q : Pool} {d : Option Deed} (h : p.Faithful)
    (change : Change p d q) : q.Faithful := by
  intro i r' runs'
  rw [(Pool.later_of_change change).settings]
  have follows := Pool.follows_of_change change i
  rw [runs'] at follows
  generalize runs : p.runAt i = run at follows
  cases follows with
  | other _ => exact h i r' runs
  | takes job now =>
    cases onClock : Run.onClock job p.settings.job now with
    | false => exact .inl (Run.phase_start_of_offClock onClock)
    | true => exact .inr ⟨[], .start now onClock⟩
  | @turns r picks now tokens t turn =>
    rcases h i r runs with unwound | ⟨evs, tells⟩
    · simp [Run.turn, unwound] at turn
    · exact .inr ⟨_, (Run.turned_of_turn turn).next.1 ▸ tells.turn turn⟩
  | breaks =>
    obtain ⟨r₀, runs₀, unwound⟩ := Pool.runAt_of_broke change
    exact .inl (Option.some.inj (runs'.symm.trans runs₀) ▸ unwound)

namespace Strand

variable {ς : Strand} {i : LoopId}

/-- A loop that ends in its next step, and until then stays so, ends. -/
theorem IsFair.ended (fair : ς.IsFair (.loop i)) {P : Pool → Prop} {n : Nat}
    (holds : P (ς.state n).pool)
    (stays : ∀ m, n ≤ m → P (ς.state m).pool → ∀ move s, ς.move m = some move →
      move ≠ .task (.loop i) → (ς.state m).move move = some s → P s.pool)
    (ends : ∀ m, P (ς.state m).pool → (ς.state m).pool.Ended i ∨
      ∃ s', (ς.state m).step (.loop i) = some s' ∧ s'.pool.Ended i) :
    ∃ m, (ς.state m).pool.Ended i := by
  by_contra never
  have steps : ∀ m, P (ς.state m).pool →
      ∃ s', (ς.state m).step (.loop i) = some s' ∧ s'.pool.Ended i := fun m holds =>
    (ends m holds).resolve_left fun ended => never ⟨m, ended⟩
  obtain ⟨m, -, own, holds⟩ := fair.acts holds stays ⟨n, fun m _ _ holds => by
    obtain ⟨s', steps, -⟩ := steps m holds
    rw [steps]
    rfl⟩
  obtain ⟨s', steps, ended⟩ := steps m holds
  obtain ⟨s, moved, same⟩ := ς.moved own
  obtain rfl := Option.some.inj (steps.symm.trans moved)
  exact never ⟨m + 1, same ▸ ended⟩

/-- A loop without a job ends, for it takes none. -/
theorem IsFair.ended_of_leaving (fair : ς.IsFair (.loop i)) {n : Nat}
    (leaving : (ς.state n).pool.Leaving i) : ∃ m, (ς.state m).pool.Ended i :=
  fair.ended (P := fun p => p.Leaving i) leaving
    (fun _ _ leaving _ _ _ _ moved => Site.keeps_of_move (P := fun p => p.Leaving i) moved leaving
      fun change h => h.of_change change)
    fun _ ⟨_, found, free, cancelled⟩ => Site.ends_of_free cancelled found free

/-- A loop whose run was cut short ends. -/
theorem IsFair.ended_of_unwound (fair : ς.IsFair (.loop i)) {n : Nat} {r : Run}
    (runs : (ς.state n).pool.runAt i = some r) (unwound : r.phase = .unwound) :
    ∃ m, (ς.state m).pool.Ended i :=
  fair.ended (P := fun p => p.runAt i = some r) runs
    (fun _ _ same _ _ _ other moved => (Site.runAt_of_move moved
      (Bool.eq_false_iff.2 fun own => other (Path.isStepOf_iff.1 own))).trans same)
    fun _ runs => .inr (Site.ends_of_unwound runs unwound)

/-- A loop that has ended is over ever after. -/
theorem over_of_ended (ς : Strand) {late : Nat} (ended : (ς.state late).pool.Ended i) (m : Nat)
    (le : late ≤ m) : (ς.state m).pool.loopIsOver i = true :=
  (ς.stays (P := fun p => p.Ended i) le ended fun change h => h.of_change change).loopIsOver

/-- With the root cancelled, a loop that is there ends. -/
theorem Favours.ended (h : ς.Favours i) (root : ∀ n, (ς.state n).pool.tokens.root = true)
    (faithful : ∀ n, (ς.state n).pool.Faithful) {n : Nat} {l : Loop}
    (found : (ς.state n).pool.loops[i]? = some l) : ∃ m, (ς.state m).pool.Ended i := by
  cases phase : l.phase with
  | running r =>
    have runs : (ς.state n).pool.runAt i = some r := Pool.runAt_eq_some.2 ⟨l, found, phase⟩
    rcases faithful n i r runs with unwound | ⟨evs, tells⟩
    · exact h.fair.ended_of_unwound runs unwound
    · obtain ⟨m, -, own, ⟨success, finishes⟩ | ⟨-, r', cut, unwound⟩⟩ := h.concludes runs tells
      · obtain ⟨s, moved, same⟩ := ς.moved own
        exact ⟨m + 1, same ▸ Site.ends_of_finishes (root m) finishes moved⟩
      · exact h.fair.ended_of_unwound cut unwound
  | ended | crashed => exact ⟨n, l, found, by simp [Loop.isOver, phase]⟩
  | looking | parked =>
    exact h.fair.ended_of_leaving ⟨l, found, by simp [Loop.isBusy, phase],
      Tokens.isCancelled_of_root _ (root n) l.token⟩

/-- With the root cancelled, the loop is over from some point on. -/
theorem Favours.over_at_last (h : ς.Favours i) (root : ∀ n, (ς.state n).pool.tokens.root = true)
    (faithful : ∀ n, (ς.state n).pool.Faithful) :
    ∃ late, ∀ m, late ≤ m → (ς.state m).pool.loopIsOver i = true := by
  by_cases there : ∃ n, ∃ l : Loop, (ς.state n).pool.loops[i]? = some l
  · obtain ⟨n, l, found⟩ := there
    obtain ⟨late, ended⟩ := h.ended root faithful found
    exact ⟨late, ς.over_of_ended ended⟩
  · refine ⟨0, fun m _ => ?_⟩
    have missing : (ς.state m).pool.loops[i]? = none :=
      Option.eq_none_iff_forall_ne_some.2 fun l found => there ⟨m, l, found⟩
    rw [Pool.loopIsOver, missing]
    rfl

end Strand

/-! ## §2 Upkeep -/

/-- The token of an upkeep is fixed. -/
theorem Pool.upkeep_of_change {p q : Pool} {d : Option Deed} (change : Change p d q)
    {u : UpkeepId} {k : Upkeep} (found : p.upkeeps[u]? = some k) :
    ∃ k', q.upkeeps[u]? = some k' ∧ k'.token = k.token := by
  have same : q.upkeeps = p.upkeeps → ∃ k', q.upkeeps[u]? = some k' ∧ k'.token = k.token :=
    fun upkeeps => ⟨k, upkeeps ▸ found, rfl⟩
  cases change with
  | aside aside =>
    cases aside with
    | @upkeep v f token =>
      refine ⟨if v = u then f k else k, ?_, ?_⟩
      · rw [Pool.modifyUpkeep, List.getElem?_modify, found]
        rfl
      · split
        · exact token k
        · rfl
    | start wall ready =>
      have inRange := (List.getElem?_eq_some_iff.1 found).1
      exact ⟨k, (List.getElem?_append_left inRange).trans found, rfl⟩
    | _ => exact same rfl
  | stop wall w => exact same (congrArg Pool.upkeeps (p.asked_stopWorker wall w).rest :)
  | halt wall _ _ asked => exact same (congrArg Pool.upkeeps asked.rest :)
  | drain wall _ _ asked _ => exact same (congrArg Pool.upkeeps asked.rest :)
  | _ => exact same rfl

/-- Upkeep that is to end is there with a cancelled token. -/
def Pool.Dismisses (p : Pool) (u : UpkeepId) : Prop :=
  ∃ k, p.upkeeps[u]? = some k ∧ p.tokens.isCancelled k.token = true

theorem Pool.Dismisses.of_change {p q : Pool} {d : Option Deed} {u : UpkeepId} (h : p.Dismisses u)
    (change : Change p d q) : q.Dismisses u := by
  obtain ⟨k, found, cancelled⟩ := h
  obtain ⟨k', found', token⟩ := Pool.upkeep_of_change change found
  refine ⟨k', found', ?_⟩
  rw [token]
  exact (Pool.before_of_change change).cancelled_of_cancelled _ cancelled

/-- A watcher waits only for loops that are to end, and the upkeep that the next stop ends is
there. -/
structure Pool.Patient (p : Pool) : Prop where
  current : ∀ u, p.current = some u → ∃ k, p.upkeeps[u]? = some k
  waits : ∀ (u : UpkeepId) (k : Upkeep) (i : LoopId), p.upkeeps[u]? = some k →
    k.watcher.loop? = some i → p.Leaving i

theorem Pool.patient_create (name : String) (settings : Settings) :
    (create name settings).Patient where
  current _ current := by cases current
  waits _ _ _ found := by cases found

namespace Site

variable {s s' : Site} {m : Move}

theorem patient_of_move (h : s.pool.Patient) (regular : s.pool.Regular)
    (moved : s.move m = some s') : s'.pool.Patient := by
  have leaving : ∀ {i : LoopId}, s.pool.Leaving i → s'.pool.Leaving i := fun leaving =>
    keeps_of_move (P := fun p => p.Leaving _) moved leaving fun change h => h.of_change change
  have modified : ∀ {v : UpkeepId} {f : Upkeep → Upkeep},
      s'.pool.frame = (s.pool.modifyUpkeep v f).frame →
      (∀ k i, s.pool.upkeeps[v]? = some k → (f k).watcher.loop? = some i → s'.pool.Leaving i) →
      s'.pool.Patient := by
    intro v f frame waits
    have upkeeps : s'.pool.upkeeps = s.pool.upkeeps.modify v f := (congrArg Pool.upkeeps frame :)
    have current : s'.pool.current = s.pool.current := (congrArg Pool.current frame :)
    refine ⟨fun u is_current => ?_, fun u k' i found' waits' => ?_⟩
    · obtain ⟨k, found⟩ := h.current u (current ▸ is_current)
      rw [upkeeps, List.getElem?_modify, found]
      exact ⟨_, rfl⟩
    · rw [upkeeps, List.getElem?_modify] at found'
      obtain ⟨k, found, rfl⟩ := Option.map_eq_some_iff.1 found'
      split at waits'
      · rename_i own
        subst own
        exact waits k i found waits'
      · exact leaving (h.waits u k i found waits')
  have same : ∀ {p : Pool}, s'.pool.frame = p.frame → p.upkeeps = s.pool.upkeeps →
      (∀ u, p.current = some u → s.pool.current = some u) → s'.pool.Patient := by
    intro p frame upkeeps current
    have upkeeps : s'.pool.upkeeps = s.pool.upkeeps :=
      (congrArg Pool.upkeeps frame :).trans upkeeps
    refine ⟨fun u is_current => ?_, fun u k i found waits => ?_⟩
    · rw [upkeeps]
      exact h.current u (current u ((congrArg Pool.current frame :).symm.trans is_current))
    · exact leaving (h.waits u k i (upkeeps ▸ found) waits)
  cases tends_of_move moved with
  | spares _ frame => exact same frame rfl fun _ => id
  | refuses _ _ => exact h
  | @watches t s' v k watcher _ found watches frame =>
    refine modified frame fun k₀ i found₀ waits => ?_
    obtain rfl := Option.some.inj (found.symm.trans found₀)
    rcases watches.waits i waits with before | ⟨w, registered, k', worker, stopped, handle⟩
    · exact leaving (h.waits v k i found before)
    · exact leaving (regular.leaving registered worker stopped handle)
  | @forwards s' v k forwarder found _ frame =>
    exact modified frame fun k₀ i found₀ waits => leaving (h.waits v k₀ i found₀ waits)
  | goesOn _ _ frame => exact same frame rfl fun _ => id
  | starts _ frame _ =>
    have upkeeps : s'.pool.upkeeps = s.pool.upkeeps ++ [{ token := s.pool.tokens.child.1 }] :=
      (congrArg Pool.upkeeps frame :)
    have current : s'.pool.current = some s.pool.upkeeps.length := (congrArg Pool.current frame :)
    refine ⟨fun u is_current => ?_, fun u k i found waits => ?_⟩
    · obtain rfl := Option.some.inj (current.symm.trans is_current)
      rw [upkeeps]
      exact ⟨_, List.getElem?_concat_length⟩
    · rw [upkeeps, List.getElem?_append] at found
      split at found
      · exact leaving (h.waits u k i found waits)
      · rw [List.mem_singleton.1 (List.mem_of_getElem? found)] at waits
        cases waits
  | stops _ frame => exact same frame rfl fun _ none_now => by cases none_now
  | releases _ frame => exact same frame rfl fun _ none_now => by cases none_now
  | abandons frame => exact same frame rfl fun _ => id

end Site

namespace Strand

/-- Nothing on the strand keeps an upkeep from ending: all tasks have their turns, its token is
cancelled, and the loops that its watcher comes to wait for end. -/
structure EndsUpkeep (ς : Strand) (u : UpkeepId) : Prop where
  fair : ∀ t, ς.IsFair t
  cancelled : ∀ n k, (ς.state n).pool.upkeeps[u]? = some k →
    (ς.state n).pool.tokens.isCancelled k.token = true
  waits : ∀ n k i, (ς.state n).pool.upkeeps[u]? = some k → k.watcher.loop? = some i →
    ∃ late, ∀ m, late ≤ m → (ς.state m).pool.loopIsOver i = true

variable {ς : Strand} {u : UpkeepId}

/-- In a turn the upkeep stays as it is, or it is the turn of one of its tasks. -/
theorem EndsUpkeep.turns (h : ς.EndsUpkeep u) {k : Upkeep} {n : Nat}
    (found : (ς.state n).pool.upkeeps[u]? = some k) :
    (ς.state (n + 1)).pool.upkeeps[u]? = some k ∧
        (∀ m, ς.move n = some m → m.isUpkeepOf u = false) ∨
      ∃ k', (ς.state (n + 1)).pool.upkeeps[u]? = some k' ∧ k'.stepsLeft < k.stepsLeft := by
  cases own : ς.move n with
  | none =>
    rw [ς.rested own]
    exact .inl ⟨found, fun m its => by cases its⟩
  | some m =>
    obtain ⟨s, moved, same⟩ := ς.moved own
    rw [same]
    refine ((Site.tends_of_move moved).upkeep found (h.cancelled n k found)).imp_left
      fun stays => ⟨stays.1, fun m' its => ?_⟩
    obtain rfl := Option.some.inj its
    exact stays.2

/-- An upkeep that is not over takes a step. -/
theorem EndsUpkeep.advances (h : ς.EndsUpkeep u) {k : Upkeep} {n : Nat}
    (found : (ς.state n).pool.upkeeps[u]? = some k) (left : k.stepsLeft ≠ 0) :
    ∃ m k', n ≤ m ∧ (ς.state m).pool.upkeeps[u]? = some k' ∧ k'.stepsLeft < k.stepsLeft := by
  by_contra never
  have idle : ∀ m, n ≤ m → (ς.state m).pool.upkeeps[u]? = some k →
      (ς.state (m + 1)).pool.upkeeps[u]? = some k ∧
        ∀ move, ς.move m = some move → move.isUpkeepOf u = false := fun m le same =>
    (h.turns same).resolve_right fun ⟨k', found', less⟩ =>
      never ⟨m + 1, k', Nat.le_succ_of_le le, found', less⟩
  obtain ⟨late, ended⟩ : ∃ late, ∀ m, late ≤ m → ∀ i, k.watcher.loop? = some i →
      (ς.state m).pool.loopIsOver i = true := by
    cases loop : k.watcher.loop? with
    | none => exact ⟨0, fun _ _ _ waits => by cases waits⟩
    | some i =>
      obtain ⟨late, done⟩ := h.waits n k i found loop
      exact ⟨late, fun m le j waits => Option.some.inj waits ▸ done m le⟩
  obtain ⟨m, le, own, same⟩ := (h.fair (k.nextTask u)).acts
    (P := fun p => p.upkeeps[u]? = some k) found
    (fun m le same move s its _ moved => by
      obtain ⟨s₀, moved₀, state⟩ := ς.moved its
      obtain rfl := Option.some.inj (moved.symm.trans moved₀)
      exact state ▸ (idle m le same).1)
    ⟨late, fun m _ later same =>
      Site.step_nextTask same (h.cancelled m k same) left (ended m later)⟩
  have other := (idle m le same).2 _ own
  rw [k.isUpkeepOf_nextTask u] at other
  cases other

theorem EndsUpkeep.ends (h : ς.EndsUpkeep u) {k : Upkeep} {n : Nat}
    (found : (ς.state n).pool.upkeeps[u]? = some k) :
    ∃ m k', (ς.state m).pool.upkeeps[u]? = some k' ∧ k'.isOver = true := by
  by_cases left : k.stepsLeft = 0
  · exact ⟨n, k, found, Upkeep.isOver_iff.2 left⟩
  · obtain ⟨m, k', -, found', less⟩ := h.advances found left
    exact h.ends found'
termination_by k.stepsLeft

/-- The upkeep is over from some point on, for then it takes no more steps. -/
theorem EndsUpkeep.is_over (h : ς.EndsUpkeep u) :
    ∃ late, ∀ m, late ≤ m → (ς.state m).pool.upkeepIsOver (some u) = true := by
  by_cases there : ∃ n k, (ς.state n).pool.upkeeps[u]? = some k
  · obtain ⟨n, k, found⟩ := there
    obtain ⟨late, k', found', ended⟩ := h.ends found
    have lasts : ∀ d, (ς.state (late + d)).pool.upkeeps[u]? = some k' := by
      intro d
      induction d with
      | zero => exact found'
      | succ d ih =>
        rcases h.turns ih with stays | ⟨k'', -, less⟩
        · exact stays.1
        · rw [Upkeep.isOver_iff.1 ended] at less
          cases less
    refine ⟨late, fun m le => ?_⟩
    obtain ⟨d, rfl⟩ := Nat.exists_eq_add_of_le le
    rw [Pool.upkeepIsOver, Option.bind_some, lasts d]
    exact ended
  · refine ⟨0, fun m _ => ?_⟩
    have missing : (ς.state m).pool.upkeeps[u]? = none :=
      Option.eq_none_iff_forall_ne_some.2 fun k found => there ⟨m, k, found⟩
    rw [Pool.upkeepIsOver, Option.bind_some, missing]
    rfl

/-- What a stop or a release waits for first is over from some point on. -/
theorem is_over_of_endsUpkeep {u : Option UpkeepId} (ends : ∀ v, u = some v → ς.EndsUpkeep v) :
    ∃ late, ∀ m, late ≤ m → (ς.state m).pool.upkeepIsOver u = true := by
  cases u with
  | none => exact ⟨0, fun _ _ => rfl⟩
  | some v => exact (ends v rfl).is_over

/-- Upkeep that a stop has told to end comes to its end, whatever the jobs do. -/
theorem endsUpkeep_of_dismissed (fair : ∀ t, ς.IsFair t)
    (patient : ∀ n, (ς.state n).pool.Patient) (dismissed : (ς.state 0).pool.Dismisses u) :
    ς.EndsUpkeep u where
  fair := fair
  cancelled n k found := by
    obtain ⟨k', found', cancelled⟩ := ς.stays (P := fun p => p.Dismisses u) (Nat.zero_le n)
      dismissed fun change h => h.of_change change
    obtain rfl := Option.some.inj (found.symm.trans found')
    exact cancelled
  waits n k i found waits := by
    obtain ⟨late, ended⟩ := (fair (.loop i)).ended_of_leaving ((patient n).waits u k i found waits)
    exact ⟨late, ς.over_of_ended ended⟩

/-- A release is under way on the strand, which favours all loops, and all tasks have their
turns. -/
structure WindsDown (ς : Strand) (c : CallId) : Prop where
  winding : ∀ n, (ς.state n).pool.Winding c
  faithful : ∀ n, (ς.state n).pool.Faithful
  favours : ∀ i, ς.Favours i
  fair : ∀ t, ς.IsFair t

variable {c : CallId}

theorem WindsDown.root (h : ς.WindsDown c) (n : Nat) : (ς.state n).pool.tokens.root = true :=
  (h.winding n).root

/-- Every loop is over from some point on. -/
theorem WindsDown.loop_over (h : ς.WindsDown c) (i : LoopId) :
    ∃ late, ∀ m, late ≤ m → (ς.state m).pool.loopIsOver i = true :=
  (h.favours i).over_at_last h.root h.faithful

theorem WindsDown.endsUpkeep (h : ς.WindsDown c) (u : UpkeepId) : ς.EndsUpkeep u where
  fair := h.fair
  cancelled n k _ := Tokens.isCancelled_of_root _ (h.root n) k.token
  waits _ _ i _ _ := h.loop_over i

end Strand

/-! ## §3 Calls -/

namespace Site

variable {s s' : Site} {c : CallId} {call : Call}

/-- A call stays where it is until it takes a step. -/
theorem call_of_move {m : Move} (found : s.pool.calls[c]? = some call) (moved : s.move m = some s')
    (other : m ≠ .task (.call c)) : s'.pool.calls[c]? = some call := by
  obtain ⟨ds, does⟩ := changes_of_move moved
  refine does.changes.keeps (P := fun p => p.calls[c]? = some call) found
    fun change among same => ?_
  refine Pool.call_of_change change same ?_
  rintro rfl
  have may := does.may _ (among _ rfl)
  cases m with
  | task t =>
    cases t with
    | call c' =>
      obtain rfl : c = c' := Deed.called.inj may
      exact other rfl
    | loop i => cases may.1
    | _ => exact may
  | start => cases may
  | beginStop => cases may
  | beginRelease => cases may
  | _ => exact may

/-- A stop tells the current upkeep to end. -/
theorem dismisses_of_beginStop {c : CallId} {u : UpkeepId} {k : Upkeep}
    (begins : s.beginStop.1 = some c) (handedOut : k.token < s.pool.tokens.children.length)
    (current : s.pool.current = some u) (found : s.pool.upkeeps[u]? = some k) :
    s.beginStop.2.pool.Dismisses u := by
  unfold beginStop at begins ⊢
  split at begins
  · rw [if_pos (by assumption)]
    refine ⟨k, found, ?_⟩
    simp only [endUpkeep, withPool, current, Option.bind_some, found]
    exact s.pool.tokens.isCancelled_cancel handedOut
  · cases begins

/-- A call that takes a step goes on. -/
theorem goes_of_step (found : s.pool.calls[c]? = some call)
    (moved : s.step (.call c) = some s') :
    ∃ call', Call.Goes s.pool call call' ∧ s'.pool.calls[c]? = some call' := by
  obtain ⟨call₀, call', found₀, goes, frame⟩ := goes_of_stepCall moved
  obtain rfl := Option.some.inj (found.symm.trans found₀)
  refine ⟨call', goes, ?_⟩
  have calls : s'.pool.calls = s.pool.calls.set c call' := (congrArg Pool.calls frame :)
  rw [calls]
  exact List.getElem?_set_self (List.getElem?_eq_some_iff.1 found).1

end Site

namespace Strand

variable {ς : Strand} {c : CallId}

/-- A call takes a step if what it waits for is over from some point on. -/
theorem IsFair.call_steps (fair : ς.IsFair (.call c)) {call : Call} {n : Nat}
    (found : (ς.state n).pool.calls[c]? = some call)
    (able : ∃ late, ∀ m, late ≤ m → (ς.state m).pool.calls[c]? = some call →
      ((ς.state m).step (.call c)).isSome = true) :
    ∃ m call', Call.Goes (ς.state m).pool call call' ∧
      (ς.state (m + 1)).pool.calls[c]? = some call' := by
  obtain ⟨late, able⟩ := able
  obtain ⟨m, -, own, same⟩ := fair.acts (P := fun p => p.calls[c]? = some call) found
    (fun m _ same move s _ other moved => Site.call_of_move same moved other)
    ⟨late, fun m _ later same => able m later same⟩
  obtain ⟨s, moved, state⟩ := ς.moved own
  refine ⟨m, ?_⟩
  rw [state]
  exact Site.goes_of_step same moved

/-- The release returns. -/
theorem WindsDown.returns (h : ς.WindsDown c) :
    ∃ n, (ς.state n).pool.calls[c]? = some .returned := by
  have fair := h.fair (.call c)
  have drained : ∀ {n : Nat} {loops : List LoopId},
      (ς.state n).pool.calls[c]? = some (.draining loops) →
        ∃ n, (ς.state n).pool.calls[c]? = some .returned := by
    intro n loops found
    obtain ⟨late, done⟩ := late_of_forall fun i (_ : i ∈ loops) => h.loop_over i
    obtain ⟨m, call', goes, found'⟩ := fair.call_steps found ⟨late, fun m le same => by
      simpa [Site.step, Site.stepCall, same] using done m le⟩
    cases goes with
    | returns _ => exact ⟨m + 1, found'⟩
  obtain ⟨call, found, stage⟩ := (h.winding 0).stage
  cases call with
  | stopping u => exact stage.elim
  | releasing u =>
    obtain ⟨late, done⟩ := is_over_of_endsUpkeep (u := u) fun v _ => h.endsUpkeep v
    obtain ⟨m, call', goes, found'⟩ := fair.call_steps found ⟨late, fun m le same => by
      simp [Site.step, Site.stepCall, same, done m le]⟩
    cases goes with
    | drains loops _ => exact drained found'
  | draining loops => exact drained found
  | returned => exact ⟨0, found⟩

/-- A stop that is under way returns, for the upkeep that it waits for ends. -/
theorem returns_of_stopping {u : Option UpkeepId} (fair : ς.IsFair (.call c))
    (waits : (ς.state 0).pool.calls[c]? = some (.stopping u))
    (ends : ∀ v, u = some v → ς.EndsUpkeep v) :
    ∃ n, (ς.state n).pool.calls[c]? = some .returned := by
  obtain ⟨late, done⟩ := is_over_of_endsUpkeep ends
  obtain ⟨m, call', goes, found'⟩ := fair.call_steps waits ⟨late, fun m le same => by
    simp [Site.step, Site.stepCall, same, done m le]⟩
  cases goes with
  | halts _ => exact ⟨m + 1, found'⟩

end Strand
end JobPool
