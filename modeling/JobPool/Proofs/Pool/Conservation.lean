/-
JobPool.Proofs.Pool.Conservation — no job is run twice or left uncounted, and which are lost.

A pool that has its driver to itself keeps every job that it accepted in one of five
places: the driver, the hands of a worker, the jobs finished, those dropped, or those
that were lost. The counts of the driver are the sizes of these places
(`Site.Accounted`), where a job that was lost counts as executing for good. A panic makes
a loop crash, and loses the job with it. Where no listener panics every loop stays
steady, and the only panic is that of the clock: a job is lost just if its deadline is
not on the clock as a loop takes it up.

  §1 Steady loops
  §2 The books of a site
  §3 Moves keep the books
  §4 Runs
-/
import JobPool.Proofs.Pool.Bound
import JobPool.Proofs.Pool.Hearing
import JobPool.Proofs.Queue.Driver

namespace JobPool

open Pool (Change Changes Deed)

/-! ## §1 Steady loops -/

/-- What the loop runs, if anything, is a run of its job. Only runs of `strays` are cut short, and
only with one of these a loop crashes. -/
def Loop.Steady (defaults : JobDefaults) (strays : Job → Prop) (l : Loop) : Prop :=
  match l.phase with
  | .running run => run.IsOf run.job defaults ∨ (run.phase = .unwound ∧ strays run.job)
  | .crashed => ∃ job, strays job
  | _ => True

namespace Pool

/-- All loops of the pool are steady, each with strays of its own. -/
def Steady (strays : LoopId → Job → Prop) (p : Pool) : Prop :=
  ∀ (i : LoopId) (l : Loop), p.loops[i]? = some l → l.Steady p.settings.job (strays i)

/-- From `p` to `q` only strays are lost, and outcomes are those of runs of the jobs. -/
structure Steadily (strays : LoopId → Job → Prop) (p : Pool) (ds : List Deed) (q : Pool) :
    Prop where
  steady : q.Steady strays
  lost : ∀ job ∈ Deed.lostIn ds, ∃ i, strays i job
  outcomes : ∀ x ∈ Deed.finishedIn ds, Run.EndsIn x.1 p.settings.job x.2

variable {strays : LoopId → Job → Prop}

theorem steady_of_fresh {p : Pool} (fresh : p.loops = []) : p.Steady strays := by
  intro i l found
  simp [fresh] at found

theorem Steady.mono {strays' : LoopId → Job → Prop} {p : Pool} (h : p.Steady strays)
    (le : ∀ i job, strays i job → strays' i job) : p.Steady strays' := by
  intro i l found
  have steady := h i l found
  unfold Loop.Steady at steady ⊢
  split at steady
  · exact steady.imp_right fun ⟨cut, stray⟩ => ⟨cut, le i _ stray⟩
  · exact steady.imp (le i)
  · trivial

theorem steady_of_free {l : Loop} (h : l.isBusy = false) (defaults : JobDefaults)
    (strays : Job → Prop) : l.Steady defaults strays := by
  cases phase : l.phase <;> simp [Loop.isBusy, Loop.Steady, phase] at h ⊢

theorem Steady.setPhase {p q : Pool} (h : p.Steady strays) {i : LoopId} {phase : Loop.Phase}
    (settings : q.settings = p.settings)
    (loops : q.loops = p.loops.modify i fun l => { l with phase })
    (stays : ∀ l : Loop, ({ l with phase } : Loop).Steady p.settings.job (strays i)) :
    q.Steady strays := by
  intro j l' found'
  rw [settings]
  rw [loops, List.getElem?_modify] at found'
  obtain ⟨l, found, rfl⟩ := Option.map_eq_some_iff.1 found'
  split
  · rename_i own
    exact own ▸ stays l
  · exact h j l found

theorem Steady.append {p q : Pool} (h : p.Steady strays) {l : Loop}
    (settings : q.settings = p.settings) (loops : q.loops = p.loops ++ [l])
    (free : l.isBusy = false) : q.Steady strays := by
  intro i l' found'
  rw [settings]
  rw [loops, List.getElem?_append] at found'
  split at found'
  · exact h i l' found'
  · obtain rfl := List.mem_singleton.1 (List.mem_of_getElem? found')
    exact steady_of_free free _ _

theorem Steady.running {p : Pool} (h : p.Steady strays) {i : LoopId} {l : Loop} {r : Run}
    (found : p.loops[i]? = some l) (running : l.phase = .running r) :
    r.IsOf r.job p.settings.job ∨ (r.phase = .unwound ∧ strays i r.job) := by
  have steady := h i l found
  simp only [Loop.Steady, running] at steady
  exact steady

theorem Steady.isOf {p : Pool} (h : p.Steady strays) {i : LoopId} {l : Loop} {r : Run}
    (found : p.loops[i]? = some l) (running : l.phase = .running r) (uncut : r.phase ≠ .unwound) :
    r.IsOf r.job p.settings.job :=
  (h.running found running).resolve_right fun ⟨cut, _⟩ => uncut cut

/-- A run that was cut short is one of a stray. -/
theorem Steady.stray {p : Pool} (h : p.Steady strays) {i : LoopId} {l : Loop} {r : Run}
    (found : p.loops[i]? = some l) (running : l.phase = .running r) (cut : r.phase = .unwound) :
    strays i r.job :=
  ((h.running found running).resolve_left fun isOf => isOf.spec.2 cut).2

/-- An outcome that a loop records is that of the run it held. -/
theorem Steady.endsIn {p : Pool} (h : p.Steady strays) {i : LoopId} {l : Loop} {r : Run}
    {success : Bool} (found : p.loops[i]? = some l) (running : l.phase = .running r)
    (done : r.phase = .finished success) :
    ∀ x ∈ Deed.finishedIn [.finished i r.job success], Run.EndsIn x.1 p.settings.job x.2 := by
  intro x hx
  obtain rfl : x = (r.job, success) := List.mem_singleton.1 hx
  exact ⟨r, h.isOf found running (by simp [done]), done⟩

theorem Steady.silently {p q : Pool} {ds : List Deed} (h : q.Steady strays)
    (silent : Deed.finishedIn ds = [] ∧ Deed.lostIn ds = []) : p.Steadily strays ds q := by
  refine ⟨h, ?_, ?_⟩
  · rw [silent.2]
    exact List.forall_mem_nil _
  · rw [silent.1]
    exact List.forall_mem_nil _

/-- Where no listener cuts a run short, a loop crashes only with a job that was taken although its
deadline is not on the clock. -/
theorem Steady.of_change {p q : Pool} {d : Option Deed} (h : p.Steady strays)
    (change : Change p d q) (uncut : Deed.Uncut d.toList)
    (allowed : ∀ i job, .took i job false ∈ d.toList → strays i job) :
    p.Steadily strays d.toList q := by
  have silent := Deed.jobless_nil.2
  cases change with
  | aside aside =>
    refine Steady.silently ?_ aside.jobless.2
    unfold Steady
    rw [aside.beside.settings, aside.beside.loops]
    exact h
  | add wall _ _ => exact Steady.silently (h.append rfl rfl rfl) silent
  | restart wall _ _ _ _ _ => exact Steady.silently (h.append rfl rfl rfl) silent
  | stop wall w =>
    refine Steady.silently ?_ silent
    rw [(p.asked_stopWorker wall w).rest]
    exact h
  | leave _ => exact Steady.silently h silent
  | halt wall _ _ asked =>
    have settings := (congrArg Pool.settings asked.rest :)
    have loops := (congrArg Pool.loops asked.rest :)
    refine Steady.silently ?_ ⟨rfl, rfl⟩
    unfold Steady
    rw [loops, settings]
    exact h
  | drain wall _ _ asked _ =>
    have settings := (congrArg Pool.settings asked.rest :)
    have loops := (congrArg Pool.loops asked.rest :)
    refine Steady.silently ?_ ⟨rfl, rfl⟩
    unfold Steady
    rw [loops, settings]
    exact h
  | notify =>
    refine Steady.silently (fun i l' found' => ?_) silent
    rw [Pool.notifyAll, List.getElem?_map] at found'
    obtain ⟨l, found, rfl⟩ := Option.map_eq_some_iff.1 found'
    have steady := h i l found
    cases phase : l.phase <;> simp_all [Loop.notify, Loop.Steady, Pool.notifyAll]
  | park wake _ _ => exact Steady.silently (h.setPhase rfl rfl fun _ => trivial) ⟨rfl, rfl⟩
  | wake _ _ => exact Steady.silently (h.setPhase rfl rfl fun _ => trivial) silent
  | endLoop wall _ _ _ => exact Steady.silently (h.setPhase rfl rfl fun _ => trivial) silent
  | @take i _ job now _ _ _ =>
    refine Steady.silently (h.setPhase rfl rfl fun _ => ?_) ⟨rfl, rfl⟩
    cases onClock : Run.onClock job p.settings.job now with
    | true => exact .inl (.start now onClock)
    | false =>
      refine .inr ⟨Run.phase_start_of_offClock onClock, allowed i job ?_⟩
      rw [onClock]
      exact List.mem_singleton_self _
  | run found running turn =>
    refine Steady.silently (h.setPhase rfl rfl fun _ => .inl ?_) ⟨rfl, rfl⟩
    have came := (h.isOf found running (Run.uncut_of_turn turn)).turn turn
    rw [← came.spec.1] at came
    exact came
  | cutShort _ _ _ => cases uncut _ (List.mem_singleton_self _)
  | crash found running unwound =>
    have stray := h.stray found running unwound
    refine ⟨h.setPhase rfl rfl fun _ => ⟨_, stray⟩, ?_, List.forall_mem_nil _⟩
    exact List.forall_mem_singleton.2 ⟨_, stray⟩
  | finish wall found running done _ =>
    refine ⟨h.setPhase rfl rfl fun l => ?_, List.forall_mem_nil _, h.endsIn found running done⟩
    split <;> trivial
  | finishLate wall found running done _ =>
    exact ⟨h.setPhase rfl rfl fun _ => trivial, List.forall_mem_nil _, h.endsIn found running done⟩

theorem Steady.of_changes {p q : Pool} {ds : List Deed} (h : p.Steady strays)
    (changes : Changes p ds q) (uncut : Deed.Uncut ds)
    (allowed : ∀ i job, .took i job false ∈ ds → strays i job) : p.Steadily strays ds q := by
  induction changes with
  | refl p => exact h.silently Deed.jobless_nil.2
  | @head p q r d ds first _ ih =>
    obtain ⟨uncut, uncut'⟩ := List.forall_mem_append.1 uncut
    have one := h.of_change first uncut fun i job took =>
      allowed i job (List.mem_append_left _ took)
    have rest := ih one.steady uncut' fun i job took =>
      allowed i job (List.mem_append_right _ took)
    refine ⟨rest.steady, ?_, ?_⟩
    · rw [Deed.lostIn_append]
      exact List.forall_mem_append.2 ⟨one.lost, rest.lost⟩
    · have outcomes := rest.outcomes
      rw [(later_of_change first).settings] at outcomes
      rw [Deed.finishedIn_append]
      exact List.forall_mem_append.2 ⟨one.outcomes, outcomes⟩

/-- Where no run is cut short, nothing is lost. -/
theorem Steady.of_unbroken {p q : Pool} {ds : List Deed} (h : p.Steady strays)
    (changes : Changes p ds q) (unbroken : Deed.Unbroken ds) : p.Steadily strays ds q :=
  h.of_changes changes unbroken.uncut fun _ _ took => absurd took unbroken.onClock.not_took

end Pool

/-! ## §2 The books of a site -/

namespace Site

/-- The counts that a driver should have. -/
def counts (s : Site) (r : Record) : Progress where
  total := r.accepted.length - r.dropped.length
  pending := s.driver.waiting.length
  executing := s.held.length + r.lost.length
  completed := r.finished.length
  success := r.finished.countP (·.2)
  failed := r.finished.countP (!·.2)

/-- Every accepted job is in one place, every job taken is held by a loop, done or lost, and the
counts of the driver are the sizes of these places. -/
structure Accounted (s : Site) (r : Record) : Prop where
  accepted : (r.accepted : Multiset Job) =
    ↑s.driver.waiting + ↑s.held + ↑(r.finished.map Prod.fst) + ↑r.lost + ↑r.dropped
  taken : (r.taken : Multiset Job) = ↑s.held + ↑(r.finished.map Prod.fst) + ↑r.lost
  progress : s.driver.progress = s.counts r

/-- What a pool with a driver to itself keeps as long as no listener panics. Its strays are the jobs
whose deadline is not on the clock. -/
structure Orderly (s : Site) (r : Record) : Prop where
  wellFormed : s.driver.WellFormed
  steady : s.pool.Steady fun _ job => s.onClock job = false
  lost : ∀ job ∈ r.lost, s.onClock job = false
  accounted : s.Accounted r
  outcomes : ∀ x ∈ r.finished, Run.EndsIn x.1 s.pool.settings.job x.2

/-- The move does not come from somebody else at the driver, and no listener attached
to the topic of its event panics. -/
def Undisturbed (s : Site) (m : Move) : Prop :=
  m.isOwn = true ∧ ∀ t, m = .task t → ∀ ev ∈ s.publishes t, s.hub.bus.IsCalm ev.topic

/-! ## §3 Moves keep the books -/

theorem held_of_changes {s s' : Site} {ds : List Deed} (changes : Changes s.pool ds s'.pool) :
    (s.held : Multiset Job) + ↑(Deed.takenIn ds) =
      ↑s'.held + ↑((Deed.finishedIn ds).map Prod.fst) + ↑(Deed.lostIn ds) :=
  (Pool.accounts_of_changes changes).jobs

/-- A deadline that was not on the clock is not on it later. -/
theorem offClock_of_move {s s' : Site} {m : Move} (moved : s.move m = some s') {job : Job}
    (offClock : s.onClock job = false) : s'.onClock job = false := by
  obtain ⟨ds, does⟩ := changes_of_move moved
  rw [Bool.eq_false_iff] at offClock ⊢
  intro onClock
  rw [onClock_eq, (Pool.later_of_changes does.changes).settings] at onClock
  exact offClock (Run.onClock_of_le (Nat.le.intro (now_of_move moved).symm) onClock)

theorem Accounted.published {s : Site} {r : Record} (h : s.Accounted r) (published : List Event) :
    s.Accounted { r with published } := ⟨h.accepted, h.taken, h.progress⟩

/-- Nothing is done with a job. -/
theorem Accounted.untouched {s s' : Site} {r : Record} (h : s.Accounted r)
    (driver : s'.driver = s.driver) (held : (s.held : Multiset Job) = ↑s'.held) :
    s'.Accounted r := by
  have length : s.held.length = s'.held.length := by
    simpa using congrArg Multiset.card held
  constructor
  · rw [driver, ← held]
    exact h.accepted
  · rw [← held]
    exact h.taken
  · rw [driver, h.progress]
    simp only [counts, driver, length]

/-- A loop crashes with the job that it held. -/
theorem Accounted.lose {s s' : Site} {r : Record} (h : s.Accounted r) {job : Job}
    (driver : s'.driver = s.driver) (held : (s.held : Multiset Job) = ↑s'.held + ↑[job]) :
    s'.Accounted { r with lost := r.lost ++ [job] } := by
  have length : s.held.length = s'.held.length + 1 := by
    simpa using congrArg Multiset.card held
  constructor
  · rw [driver, ← Multiset.coe_add]
    refine h.accepted.trans ?_
    rw [held]
    ac_rfl
  · rw [← Multiset.coe_add, h.taken, held]
    ac_rfl
  · rw [driver, h.progress]
    simp only [counts, driver, length, List.length_append, List.length_singleton]
    congr 1
    omega

/-- A loop takes the oldest job from the driver. -/
theorem Accounted.take {s s' : Site} {r : Record} (h : s.Accounted r) {job : Job}
    (wellFormed : s.driver.WellFormed) (oldest : s.driver.dequeue.1 = some job)
    (driver : s'.driver = s.driver.dequeue.2)
    (held : (s.held : Multiset Job) + ↑[job] = ↑s'.held) :
    s'.Accounted { r with taken := r.taken ++ [job] } := by
  obtain ⟨-, waiting, progress⟩ := Driver.dequeue_some wellFormed oldest
  rw [← driver] at waiting progress
  have length : s.held.length + 1 = s'.held.length := by
    simpa using congrArg Multiset.card held
  have split : (s.driver.waiting : Multiset Job) = ↑[job] + ↑s'.driver.waiting := by
    rw [waiting]
    rfl
  constructor
  · rw [← held]
    refine h.accepted.trans ?_
    rw [split]
    ac_rfl
  · rw [← held, ← Multiset.coe_add, h.taken]
    ac_rfl
  · rw [progress, h.progress]
    simp [counts, Progress.dequeued, waiting, ← length, Nat.add_right_comm]

/-- A loop records the outcome of the job that it held. -/
theorem Accounted.finish {s s' : Site} {r : Record} (h : s.Accounted r) {job : Job}
    {success : Bool} (wellFormed : s.driver.WellFormed)
    (driver : s'.driver = s.driver.complete success)
    (held : (s.held : Multiset Job) = ↑s'.held + ↑[job]) :
    s'.Accounted { r with finished := r.finished ++ [(job, success)] } := by
  obtain ⟨-, waiting, progress⟩ := Driver.complete_spec wellFormed success
  rw [← driver] at waiting progress
  have length : s.held.length = s'.held.length + 1 := by
    simpa using congrArg Multiset.card held
  have split : ((r.finished ++ [(job, success)]).map Prod.fst : Multiset Job) =
      ↑(r.finished.map Prod.fst) + ↑[job] := by
    rw [List.map_append, ← Multiset.coe_add]
    rfl
  constructor
  · rw [waiting, split]
    refine h.accepted.trans ?_
    rw [held]
    ac_rfl
  · rw [split, h.taken, held]
    ac_rfl
  · rw [progress, h.progress]
    cases success <;> simp [counts, Progress.done, waiting, length, Nat.add_right_comm]

/-- The driver accepts a job. -/
theorem Accounted.accept {s s' : Site} {r : Record} (h : s.Accounted r) {job : Job}
    (wellFormed : s.driver.WellFormed) (accepted : (s.driver.enqueue job).1 = true)
    (driver : s'.driver = (s.driver.enqueue job).2) (held : (s.held : Multiset Job) = ↑s'.held) :
    s'.Accounted { r with accepted := r.accepted ++ [job] } := by
  obtain ⟨-, waiting, progress⟩ := Driver.enqueue_accepted wellFormed accepted
  rw [← driver] at waiting progress
  have length : s.held.length = s'.held.length := by
    simpa using congrArg Multiset.card held
  have dropped_le : r.dropped.length ≤ r.accepted.length := by
    have places : r.accepted.length = _ := congrArg Multiset.card h.accepted
    simp only [Multiset.card_add, Multiset.coe_card] at places
    omega
  constructor
  · rw [waiting, ← held, ← Multiset.coe_add, h.accepted, ← Multiset.coe_add]
    ac_rfl
  · rw [← held]
    exact h.taken
  · rw [progress, h.progress]
    simp [counts, Progress.enqueued, waiting, length, Nat.sub_add_comm dropped_le]

/-- The waiting jobs are dropped. -/
theorem Accounted.clear {s s' : Site} {r : Record} (h : s.Accounted r)
    (wellFormed : s.driver.WellFormed) (driver : s'.driver = s.driver.clear)
    (held : s'.held = s.held) :
    s'.Accounted { r with dropped := r.dropped ++ s.driver.waiting } := by
  obtain ⟨-, waiting, progress⟩ := Driver.clear_spec wellFormed
  rw [← driver] at waiting progress
  constructor
  · rw [waiting, held, ← Multiset.coe_add]
    refine h.accepted.trans ?_
    show _ = 0 + _ + _ + _ + _
    rw [zero_add]
    ac_rfl
  · rw [held]
    exact h.taken
  · rw [progress, h.progress]
    simp [counts, Progress.discarded, waiting, held, Nat.sub_sub]

theorem dispatch_refused {s : Site} {job : Job} (h : (s.dispatch job).1 = false) :
    (s.dispatch job).2 = s := by
  unfold dispatch at h ⊢
  split at h
  · rfl
  · rfl
  · cases enqueued : s.driver.enqueue job with
    | mk ok driver =>
      simp only [enqueued] at h ⊢
      cases ok with
      | true => by_cases running : s.pool.status = .running <;> simp [running] at h
      | false =>
        have same := Driver.enqueue_refused (d := s.driver) (a := job) (by rw [enqueued])
        rw [enqueued] at same
        simp only at same ⊢
        rw [same]

theorem dispatch_accepted {s : Site} {job : Job} (h : (s.dispatch job).1 = true) :
    (s.driver.enqueue job).1 = true ∧ (s.dispatch job).2.driver = (s.driver.enqueue job).2 := by
  unfold dispatch at h ⊢
  split at h
  · cases h
  · cases h
  · cases enqueued : s.driver.enqueue job with
    | mk ok driver =>
      simp only [enqueued] at h ⊢
      cases ok with
      | false => cases h
      | true =>
        refine ⟨rfl, ?_⟩
        simp only
        split
        · exact (quiet_spawnWorkers _ (d := none)).driver
        · rfl

/-- A step of a task does to the books what the record says. -/
theorem Accounted.stepped {s s' : Site} {r : Record} {t : PoolTask} {ds : List Deed}
    (h : s.Accounted r) (wellFormed : s.driver.WellFormed) (stepped : s.Stepped t ds s') :
    s'.driver.WellFormed ∧ s'.Accounted (s.record r (.task t)) := by
  have held := held_of_changes stepped.changes
  rw [stepped.taken, stepped.finished, stepped.lost] at held
  have untouched : s'.driver = s.driver → s.takes t = none → s.finishes t = none →
      s'.driver.WellFormed ∧ s'.Accounted (s.record r (.task t)) := by
    intro driver takes finishes
    simp only [takes, finishes] at held
    refine ⟨driver ▸ wellFormed, ?_⟩
    simp only [record, takes, finishes, Option.toList_none, List.append_nil]
    cases loses : s.loses t with
    | none =>
      rw [loses] at held
      rw [Option.toList_none, List.append_nil]
      exact (h.untouched driver (by simpa using held)).published _
    | some job =>
      rw [loses] at held
      exact (h.lose driver (by simpa using held)).published _
  cases stepped.driver with
  | untouched takes finishes same => exact untouched same takes finishes
  | asked _ _ takes finishes after =>
    cases oldest : s.driver.dequeue.1 with
    | none =>
      rw [oldest] at takes
      exact untouched (after.trans (Driver.dequeue_none wellFormed oldest)) takes finishes
    | some job =>
      rw [oldest] at takes
      have loses := loses_of_takes takes
      simp only [takes, finishes, loses] at held
      refine ⟨after ▸ (Driver.dequeue_some wellFormed oldest).1, ?_⟩
      simp only [record, takes, finishes, loses, Option.toList_some, Option.toList_none,
        List.append_nil]
      refine (h.take wellFormed oldest after ?_).published _
      simpa using held
  | @told job success takes finishes after =>
    have loses := loses_of_finishes finishes
    simp only [takes, finishes, loses] at held
    refine ⟨after ▸ (Driver.complete_spec wellFormed success).1, ?_⟩
    simp only [record, takes, finishes, loses, Option.toList_some, Option.toList_none,
      List.append_nil]
    refine (h.finish wellFormed after ?_).published _
    simpa using held

section

variable {s s' : Site} {r : Record}
  (later : ∀ job, s.onClock job = false → s'.onClock job = false)

include later

theorem Orderly.quiet {d : Option Deed} (h : s.Orderly r) (quiet : s.Quiet d s')
    (loopless : ∀ e, d = some e → e.loop? = none) : s'.Orderly r := by
  obtain ⟨ds, changes, only⟩ := quiet.changes
  obtain ⟨⟨taken, finished, lost⟩, unbroken⟩ :=
    Deed.spec_of_loopless fun e he => loopless e (only e he)
  have steadily := h.steady.of_unbroken changes unbroken
  have held := held_of_changes changes
  refine ⟨quiet.driver ▸ h.wellFormed, steadily.steady.mono fun _ => later,
    fun job hj => later job (h.lost job hj), h.accounted.untouched quiet.driver ?_, ?_⟩
  · simpa [taken, finished, lost] using held
  · rw [(Pool.later_of_changes changes).settings]
    exact h.outcomes

theorem Orderly.step {t : PoolTask} (h : s.Orderly r) (moved : s.step t = some s')
    (calm : ∀ ev ∈ s.publishes t, s.hub.bus.IsCalm ev.topic) :
    s'.Orderly (s.record r (.task t)) := by
  obtain ⟨ds, stepped⟩ := stepped_of_step moved
  have steadily := h.steady.of_changes stepped.changes (stepped.calm calm)
    fun i job took => (stepped.clocked i job false took).symm
  obtain ⟨wellFormed, accounted⟩ := h.accounted.stepped h.wellFormed stepped
  have lost := steadily.lost
  have outcomes := steadily.outcomes
  rw [stepped.lost] at lost
  rw [stepped.finished] at outcomes
  refine ⟨wellFormed, steadily.steady.mono fun _ => later, fun job hj => later job ?_,
    accounted, ?_⟩
  · exact List.forall_mem_append.2 ⟨h.lost, fun job hj => (lost job hj).elim fun _ => id⟩ job hj
  · rw [(Pool.later_of_changes stepped.changes).settings]
    exact List.forall_mem_append.2 ⟨h.outcomes, outcomes⟩

end

theorem Orderly.dispatch {s : Site} {r : Record} (h : s.Orderly r) (job : Job)
    (later : ∀ job', s.onClock job' = false → (s.dispatch job).2.onClock job' = false) :
    (s.dispatch job).2.Orderly (s.record r (.dispatch job)) := by
  cases answer : (s.dispatch job).1 with
  | false =>
    rw [dispatch_refused answer]
    simp only [record, answer]
    exact h
  | true =>
    obtain ⟨accepted, driver⟩ := dispatch_accepted answer
    have changes := s.changes_dispatch job
    have steadily := h.steady.of_unbroken changes Deed.unbroken_nil
    have held := held_of_changes changes
    simp only [record, answer, if_true]
    refine ⟨driver ▸ (Driver.enqueue_accepted h.wellFormed accepted).1,
      steadily.steady.mono fun _ => later, fun job hj => later job (h.lost job hj),
      h.accounted.accept h.wellFormed accepted driver ?_, ?_⟩
    · simpa [Deed.takenIn, Deed.finishedIn, Deed.lostIn] using held
    · rw [(Pool.later_of_changes changes).settings]
      exact h.outcomes

theorem Orderly.move {s s' : Site} {r : Record} {m : Move} (h : s.Orderly r)
    (undisturbed : s.Undisturbed m) (moved : s.move m = some s') : s'.Orderly (s.record r m) := by
  obtain ⟨own, calm⟩ := undisturbed
  have later : ∀ job, s.onClock job = false → s'.onClock job = false :=
    fun _ => offClock_of_move moved
  have silent : ∀ e, none = some e → Deed.loop? e = none := by simp
  have still : ∃ ds, Changes s.pool ds s.pool ∧ ∀ e ∈ ds, none = some e :=
    (Quiet.refl s none).changes
  cases m with
  | task t => exact h.step later moved (calm t rfl)
  | start => cases moved; exact h.quiet later s.quiet_start (by simp [Deed.loop?])
  | beginStop => cases moved; exact h.quiet later s.quiet_beginStop (by simp [Deed.loop?])
  | beginRelease => cases moved; exact h.quiet later s.quiet_beginRelease (by simp [Deed.loop?])
  | spawnWorkers => cases moved; exact h.quiet later s.quiet_spawnWorkers silent
  | stopWorker w => cases moved; exact h.quiet later (.withPool (.silent (.stop s.wall w))) silent
  | abandon => cases moved; exact h.quiet later s.quiet_abandon silent
  | bus op => cases moved; exact h.quiet later ⟨still, rfl⟩ silent
  | pass time wall => cases moved; exact h.quiet later ⟨still, rfl⟩ silent
  | dispatch job => cases moved; exact h.dispatch job later
  | clear =>
    cases moved
    exact ⟨(Driver.clear_spec h.wellFormed).1, h.steady, h.lost,
      h.accounted.clear h.wellFormed rfl rfl, h.outcomes⟩
  | enqueue job => cases own
  | take => cases own
  | complete success => cases own

/-! ## §4 Runs -/

theorem orderly_create (name : String) (settings : Settings) {driver : Driver Job} (hub : Hub)
    (wall : Nat) (picks : Picks)
    (fresh : driver = .memory {} ∨ ∃ capacity, driver = .queue (.ofCapacity capacity)) :
    (create name settings driver hub wall picks).Orderly {} := by
  have steady : ∀ strays, (Pool.create name settings).Steady strays := fun _ =>
    Pool.steady_of_fresh rfl
  have outcomes : ∀ x ∈ ({} : Record).finished, Run.EndsIn x.1 settings.job x.2 := by simp
  rcases fresh with rfl | ⟨capacity, rfl⟩
  · exact ⟨trivial, steady _, List.forall_mem_nil _, ⟨rfl, rfl, rfl⟩, outcomes⟩
  · exact ⟨Ring.wellFormed_empty capacity, steady _, List.forall_mem_nil _, ⟨rfl, rfl, rfl⟩,
      outcomes⟩

theorem Orderly.of_reached {start s : Site} {r : Record} (h : start.Orderly {})
    (reached : Reached start Undisturbed s r) : s.Orderly r := by
  induction reached with
  | here => exact h
  | step m _ undisturbed moved ih => exact ih.move undisturbed moved

end Site

/-- The loops that hold jobs. -/
def Pool.holding (p : Pool) : List Loop := p.loops.filter (·.job?.isSome)

theorem Pool.holding_sublist (p : Pool) : p.holding.Sublist (p.loops.filter (·.isBusy)) := by
  refine List.monotone_filter_right _ fun l holds => ?_
  cases phase : l.phase <;> simp [Loop.job?, Loop.isBusy, phase] at holds ⊢

/-- A pool with a new bundled driver to itself, used in any way and with its tasks taking
their steps in any order, while no listener panics. Each accepted job is in one place:
the driver, the hands of a worker, the jobs finished, those lost, or those dropped; no worker
holds two jobs. Only jobs are lost whose deadline is not on the clock. Each job that was taken is
held, and then it is being run, unless the clock cut its run short; or it is finished with the
outcome of a run of it; or it is lost. The counts of the driver are exact, if what is lost counts
as executing. And a job that is refused changes nothing at all. -/
theorem jobs_conserved {name : String} {settings : Settings} {driver : Driver Job} {hub : Hub}
    {wall : Nat} {picks : Picks} {s : Site} {r : Record}
    (fresh : driver = .memory {} ∨ ∃ capacity, driver = .queue (.ofCapacity capacity))
    (reached : Reached (.create name settings driver hub wall picks) Site.Undisturbed s r) :
    r.accepted.Perm
      (s.driver.waiting ++ s.held ++ r.finished.map Prod.fst ++ r.lost ++ r.dropped) ∧
    r.taken.Perm (s.held ++ r.finished.map Prod.fst ++ r.lost) ∧
    (s.pool.holding.map (·.worker)).Nodup ∧
    (∀ l ∈ s.pool.loops, ∀ run, l.phase = .running run →
      run.IsOf run.job settings.job ∨ (run.phase = .unwound ∧ s.onClock run.job = false)) ∧
    (∀ job ∈ r.lost, s.onClock job = false) ∧
    (∀ x ∈ r.finished, Run.EndsIn x.1 settings.job x.2) ∧
    s.driver.progress =
      { total := r.accepted.length - r.dropped.length
        pending := s.driver.waiting.length
        executing := s.held.length + r.lost.length
        completed := r.finished.length
        success := r.finished.countP (·.2)
        failed := r.finished.countP (!·.2) } ∧
    ∀ job, (s.dispatch job).1 = false →
      (s.dispatch job).2 = s ∧ s.record r (.dispatch job) = r := by
  obtain ⟨-, steady, lost, accounted, outcomes⟩ :=
    (Site.orderly_create name settings hub wall picks fresh).of_reached reached
  obtain ⟨ds, changes, -, -⟩ := changes_of_reached reached
  have sound := (Pool.sound_create name settings).of_changes changes
  have kept : s.pool.settings = settings := (Pool.later_of_changes changes).settings
  refine ⟨?_, ?_, ?_, ?_, lost, ?_, accounted.progress, ?_⟩
  · exact Multiset.coe_eq_coe.1 accounted.accepted
  · exact Multiset.coe_eq_coe.1 accounted.taken
  · exact sound.nodup_holders.sublist (List.Sublist.map _ (s.pool.holding_sublist))
  · intro l hl run running
    obtain ⟨i, found⟩ := List.mem_iff_getElem?.1 hl
    rw [← kept]
    exact steady.running found running
  · rw [← kept]
    exact outcomes
  · intro job refused
    refine ⟨Site.dispatch_refused refused, ?_⟩
    simp [Site.record, refused]

namespace Sample

/-- A pool on a driver with room for one job. -/
def smallQueue : Site := .create "small queue" {} (.queue (.ofCapacity 0)) {} 0 .least

end Sample

open Sample

/-- One job is run, another waits, and the one between them was refused. -/
theorem reached_smallQueue : ∃ s r, Reached smallQueue Site.Undisturbed s r ∧
    r.accepted.length = 2 ∧ r.finished.length = 1 ∧ (s.dispatch quickJob).1 = false := by
  have accepted : Reached smallQueue Site.Undisturbed _ _ :=
    .step (.dispatch quickJob) .here ⟨rfl, nofun⟩ rfl
  have refused := Reached.step (.dispatch quickJob) accepted ⟨rfl, nofun⟩ rfl
  have started := Reached.step .start refused ⟨rfl, nofun⟩ rfl
  have taken := Reached.step (.task (.loop 0)) started
    ⟨rfl, fun t ht ev hev => by cases ht; cases hev; rintro chain ⟨⟩ l ⟨⟩⟩ rfl
  have run := Reached.step (.task (.loop 0)) taken
    ⟨rfl, fun t ht ev hev => by cases ht; cases hev; rintro chain ⟨⟩ l ⟨⟩⟩ rfl
  have finished := Reached.step (.task (.loop 0)) run
    ⟨rfl, fun t ht ev hev => by cases ht; cases hev⟩ rfl
  have again := Reached.step (.dispatch quickJob) finished ⟨rfl, nofun⟩ rfl
  exact ⟨_, _, again, rfl, rfl, rfl⟩

theorem jobs_conserved_narrow : ∃ s r, Reached smallQueue Site.Undisturbed s r ∧
    r.accepted.length = 2 ∧ r.finished.length = 1 ∧
    r.accepted.Perm
      (s.driver.waiting ++ s.held ++ r.finished.map Prod.fst ++ r.lost ++ r.dropped) ∧
    (s.dispatch quickJob).1 = false ∧ (s.dispatch quickJob).2 = s := by
  obtain ⟨s, r, reached, accepted, finished, refused⟩ := reached_smallQueue
  obtain ⟨perm, -, -, -, -, -, -, unchanged⟩ := jobs_conserved (.inr ⟨0, rfl⟩) reached
  exact ⟨s, r, reached, accepted, finished, perm, refused, (unchanged quickJob refused).1⟩

namespace Sample

/-- A pool on a driver of its own. -/
def plainPool : Site := .create "plain" {} (.memory {}) {} 0 .least

/-- A job with the longest total limit that there is. -/
def maxLimitJob : Job :=
  { quickJob with name := "max limit", overrides := { totalLimit := some .max } }

end Sample

/-- The clock cannot tell its deadline: it is taken, and then it is in none of the places where
jobs are, while its worker counts as executing it and its loop takes no further step. -/
theorem job_lost_to_clock : ∃ s r, Reached plainPool Site.Undisturbed s r ∧
    r.accepted = [maxLimitJob] ∧ r.taken = [maxLimitJob] ∧
    s.driver.waiting ++ s.held ++ r.finished.map Prod.fst ++ r.dropped = [] ∧
    s.driver.progress.executing = 1 ∧ (s.pool.workers[0]?).any Worker.isWorking = true ∧
    s.step (.loop 0) = none := by
  have accepted : Reached plainPool Site.Undisturbed _ _ :=
    .step (.dispatch maxLimitJob) .here ⟨rfl, nofun⟩ rfl
  have started := Reached.step .start accepted ⟨rfl, nofun⟩ rfl
  have taken := Reached.step (.task (.loop 0)) started
    ⟨rfl, fun t ht ev hev => by cases ht; cases hev⟩ rfl
  have crashed := Reached.step (.task (.loop 0)) taken
    ⟨rfl, fun t ht ev hev => by cases ht; cases hev⟩ rfl
  exact ⟨_, _, crashed, rfl, rfl, rfl, rfl, rfl, rfl⟩

end JobPool
