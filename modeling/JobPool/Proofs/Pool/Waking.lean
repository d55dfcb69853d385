/-
JobPool.Proofs.Pool.Waking — no loop sleeps while a job waits.

A loop parks only when it found the driver empty, and a dispatch notifies all parked
loops. So if the jobs of a pool come from its own dispatches, a loop that is parked and
not notified sees an empty driver (`Site.Attentive`), in whatever order tasks take their
steps. The poll that a parked loop makes by itself is never what brings it to a job.
-/
import JobPool.Proofs.Pool.Bound
import JobPool.Proofs.Queue.Driver

namespace JobPool

open Pool (Change Changes Deed)

/-- True of a loop that is parked and was not notified. -/
def Loop.isAsleep (l : Loop) : Bool :=
  match l.phase with
  | .parked false _ => true
  | _ => false

namespace Pool

/-! ## Loops that fall asleep -/

/-- No loop is asleep. -/
def Awake (p : Pool) : Prop := ∀ l ∈ p.loops, l.isAsleep = false

theorem Awake.setPhase {p q : Pool} (h : p.Awake) {i : LoopId} {phase : Loop.Phase}
    (loops : q.loops = p.loops.modify i fun l => { l with phase })
    (awake : ∀ l : Loop, ({ l with phase } : Loop).isAsleep = false) : q.Awake := by
  intro l' hl'
  rw [loops] at hl'
  obtain ⟨j, found'⟩ := List.mem_iff_getElem?.1 hl'
  rw [List.getElem?_modify] at found'
  obtain ⟨l, found, rfl⟩ := Option.map_eq_some_iff.1 found'
  split
  · exact awake l
  · exact h l (List.mem_of_getElem? found)

theorem Awake.append {p q : Pool} (h : p.Awake) {l : Loop} (loops : q.loops = p.loops ++ [l])
    (awake : l.isAsleep = false) : q.Awake := by
  intro l' hl'
  rw [loops] at hl'
  rcases List.mem_append.1 hl' with hl' | hl'
  · exact h l' hl'
  · rw [List.mem_singleton.1 hl']
    exact awake

theorem awake_notifyAll (p : Pool) : p.notifyAll.Awake := by
  intro l' hl'
  obtain ⟨l, -, rfl⟩ := List.mem_map.1 hl'
  cases phase : l.phase <;> simp [Loop.notify, Loop.isAsleep, phase]

/-- A loop falls asleep only by parking. -/
theorem Awake.of_change {p q : Pool} {d : Option Deed} (h : p.Awake) (change : Change p d q)
    (unparked : ∀ i, d ≠ some (.parked i)) : q.Awake := by
  have same : ∀ {r : Pool}, r.loops = p.loops → r.Awake := fun loops l hl => h l (loops ▸ hl)
  cases change with
  | aside aside => exact same aside.beside.loops
  | add wall _ _ => exact h.append rfl rfl
  | restart wall _ _ _ _ _ => exact h.append rfl rfl
  | stop wall w => exact same (congrArg Pool.loops (p.asked_stopWorker wall w).rest :)
  | leave _ => exact same rfl
  | halt wall _ _ asked => exact same (congrArg Pool.loops asked.rest :)
  | drain wall _ _ asked _ => exact same (congrArg Pool.loops asked.rest :)
  | notify => exact p.awake_notifyAll
  | park wake _ _ => exact absurd rfl (unparked _)
  | wake _ _ => exact h.setPhase rfl fun _ => rfl
  | endLoop wall _ _ _ => exact h.setPhase rfl fun _ => rfl
  | take job now _ _ _ => exact h.setPhase rfl fun _ => rfl
  | run _ _ _ => exact h.setPhase rfl fun _ => rfl
  | cutShort _ _ _ => exact h.setPhase rfl fun _ => rfl
  | crash _ _ _ => exact h.setPhase rfl fun _ => rfl
  | finish wall _ _ _ _ =>
    refine h.setPhase rfl fun l => ?_
    split <;> rfl
  | finishLate wall _ _ _ _ => exact h.setPhase rfl fun _ => rfl

theorem Awake.of_changes {p q : Pool} {ds : List Deed} (h : p.Awake) (changes : Changes p ds q)
    (unparked : ∀ i, .parked i ∉ ds) : q.Awake :=
  changes.keeps h fun change among h =>
    h.of_change change fun i same => unparked i (among _ (Option.mem_def.2 same))

/-- A pool that was never started has no loops. -/
def Unmanned (p : Pool) : Prop := p.status = .pending → p.loops = []

theorem Unmanned.of_change {p q : Pool} {d : Option Deed} (h : p.Unmanned)
    (change : Change p d q) : q.Unmanned := by
  intro pending
  have was : p.status = .pending := by
    rw [status_of_change change] at pending
    unfold Deed.statusAfter at pending
    split at pending
    · cases pending
    · cases pending
    · cases pending
    · exact pending
  have none_yet := h was
  have unfound : ∀ {i : LoopId} {l : Loop}, p.loops[i]? = some l → q.loops = [] := by
    intro i l found
    simp [none_yet] at found
  cases change with
  | aside aside => exact aside.beside.loops.trans none_yet
  | add wall running _ => simp [was] at running
  | restart wall running _ _ _ _ => simp [was] at running
  | stop wall w => exact (congrArg Pool.loops (p.asked_stopWorker wall w).rest :).trans none_yet
  | leave _ => exact none_yet
  | halt wall _ _ asked => exact (congrArg Pool.loops asked.rest :).trans none_yet
  | drain wall _ _ asked _ => exact (congrArg Pool.loops asked.rest :).trans none_yet
  | notify => simp [notifyAll, none_yet]
  | park wake found _ => exact unfound found
  | wake found _ => exact unfound found
  | endLoop wall found _ _ => exact unfound found
  | take job now found _ _ => exact unfound found
  | run found _ _ => exact unfound found
  | cutShort found _ _ => exact unfound found
  | crash found _ _ => exact unfound found
  | finish wall found _ _ _ => exact unfound found
  | finishLate wall found _ _ _ => exact unfound found

theorem Unmanned.of_changes {p q : Pool} {ds : List Deed} (h : p.Unmanned)
    (changes : Changes p ds q) : q.Unmanned :=
  changes.keeps h fun change _ h => h.of_change change

end Pool

/-! ## Dispatches and steps -/

namespace Site

/-- Loops are asleep only while the driver is empty. -/
structure Attentive (s : Site) : Prop where
  wellFormed : s.driver.WellFormed
  unmanned : s.pool.Unmanned
  awake : s.driver.waiting ≠ [] → s.pool.Awake

/-- A move that parks no loop and adds no job. -/
theorem Attentive.of_changes {s s' : Site} {ds : List Deed} (h : s.Attentive)
    (changes : Changes s.pool ds s'.pool) (unparked : ∀ i, .parked i ∉ ds)
    (wellFormed : s'.driver.WellFormed)
    (waiting : s.driver.waiting = [] → s'.driver.waiting = []) : s'.Attentive where
  wellFormed := wellFormed
  unmanned := h.unmanned.of_changes changes
  awake waits := (h.awake fun none_waits => waits (waiting none_waits)).of_changes changes unparked

theorem Attentive.quiet {s s' : Site} {d : Option Deed} (h : s.Attentive) (quiet : s.Quiet d s')
    (unparked : ∀ i, d ≠ some (.parked i)) : s'.Attentive := by
  obtain ⟨ds, changes, only⟩ := quiet.changes
  refine h.of_changes changes (fun i parked => unparked i (only _ parked)) ?_ ?_
  · exact quiet.driver ▸ h.wellFormed
  · exact fun none_waits => quiet.driver ▸ none_waits

/-- Asking for a job leaves the driver in order, and empty if it was empty. -/
theorem Attentive.dequeue {s : Site} (h : s.Attentive) :
    s.driver.dequeue.2.WellFormed ∧
      (s.driver.waiting = [] → s.driver.dequeue.2.waiting = []) := by
  constructor
  · cases oldest : s.driver.dequeue.1 with
    | none => exact (Driver.dequeue_none h.wellFormed oldest).symm ▸ h.wellFormed
    | some job => exact (Driver.dequeue_some h.wellFormed oldest).1
  · intro none_waits
    rw [Driver.dequeue_of_waiting_nil h.wellFormed none_waits]
    exact none_waits

theorem Attentive.step {s s' : Site} {t : PoolTask} (h : s.Attentive) (moved : s.step t = some s') :
    s'.Attentive := by
  obtain ⟨ds, stepped⟩ := stepped_of_step moved
  have after : s'.driver.WellFormed ∧ (s.driver.waiting = [] → s'.driver.waiting = []) := by
    cases stepped.driver with
    | untouched _ _ same =>
      rw [same]
      exact ⟨h.wellFormed, id⟩
    | asked _ _ _ _ after =>
      rw [after]
      exact h.dequeue
    | @told job success _ _ after =>
      obtain ⟨wellFormed, waiting, -⟩ := Driver.complete_spec h.wellFormed success
      rw [after, waiting]
      exact ⟨wellFormed, id⟩
  by_cases parks : ∃ i, .parked i ∈ ds
  · -- whoever parks has just found the driver empty
    obtain ⟨i, parked⟩ := parks
    have own := stepped.own _ parked
    cases t with
    | loop j =>
      obtain ⟨rfl : i = j⟩ := by simpa [Deed.loop?] using own.1
      have none_waits := Driver.waiting_of_dequeue_none h.wellFormed (own.2 rfl)
      exact ⟨after.1, h.unmanned.of_changes stepped.changes,
        fun waits => absurd (after.2 none_waits) waits⟩
    | call c => cases own
    | watcher u => exact own.elim
    | check u w => exact own.elim
    | forwarder u => exact own.elim
  · exact h.of_changes stepped.changes (fun i parked => parks ⟨i, parked⟩) after.1 after.2

/-- A dispatch that adds a job wakes all loops; a pool that was never started has none. -/
theorem Attentive.dispatch {s : Site} (h : s.Attentive) (job : Job) :
    (s.dispatch job).2.Attentive := by
  unfold Site.dispatch
  split
  · exact h
  · exact h
  · rename_i stopped released
    split
    · rename_i driver refused
      have same := Driver.enqueue_refused (d := s.driver) (a := job) (by rw [refused])
      rw [refused] at same
      obtain rfl : driver = s.driver := same
      exact h
    · rename_i driver accepted
      have wellFormed : driver.WellFormed := by
        have spec := Driver.enqueue_accepted h.wellFormed (a := job) (by rw [accepted])
        rw [accepted] at spec
        exact spec.1
      split
      · have spawned := quiet_spawnWorkers ({ s with driver }.withPool s.pool.notifyAll) (d := none)
        obtain ⟨ds, changes, silent⟩ := spawned.changes
        have unparked : ∀ i, .parked i ∉ ds := fun i parked => by simpa using silent _ parked
        refine ⟨spawned.driver ▸ wellFormed, ?_, fun _ => ?_⟩
        · exact (h.unmanned.of_change .notify).of_changes changes
        · exact s.pool.awake_notifyAll.of_changes changes unparked
      · rename_i idle
        have pending : s.pool.status = .pending := by
          cases status : s.pool.status with
          | pending => rfl
          | running => exact absurd status idle
          | stopped => exact (stopped status).elim
          | released => exact (released status).elim
        refine ⟨wellFormed, h.unmanned, fun _ l hl => ?_⟩
        have hl : l ∈ s.pool.loops := hl
        rw [h.unmanned pending] at hl
        cases hl

theorem Attentive.move {s s' : Site} {m : Move} (h : s.Attentive)
    (fed : ∀ job, m ≠ .enqueue job) (moved : s.move m = some s') : s'.Attentive := by
  cases m with
  | task t => exact h.step moved
  | start => cases moved; exact h.quiet s.quiet_start (by simp)
  | beginStop => cases moved; exact h.quiet s.quiet_beginStop (by simp)
  | beginRelease => cases moved; exact h.quiet s.quiet_beginRelease (by simp)
  | spawnWorkers => cases moved; exact h.quiet s.quiet_spawnWorkers (d := none) (by simp)
  | stopWorker w =>
    cases moved
    exact h.quiet (d := none) (.withPool (.silent (.stop s.wall w))) (by simp)
  | abandon => cases moved; exact h.quiet s.quiet_abandon (by simp)
  | bus op => cases moved; exact ⟨h.wellFormed, h.unmanned, h.awake⟩
  | pass time wall => cases moved; exact ⟨h.wellFormed, h.unmanned, h.awake⟩
  | dispatch job => cases moved; exact h.dispatch job
  | clear =>
    cases moved
    obtain ⟨wellFormed, waiting, -⟩ := Driver.clear_spec h.wellFormed
    exact ⟨wellFormed, h.unmanned, fun waits => absurd waiting waits⟩
  | enqueue job => exact absurd rfl (fed job)
  | take =>
    cases moved
    exact h.of_changes (.refl s.pool) (by simp) h.dequeue.1 h.dequeue.2
  | complete success =>
    cases moved
    obtain ⟨wellFormed, waiting, -⟩ := Driver.complete_spec h.wellFormed success
    exact h.of_changes (.refl s.pool) (by simp) wellFormed fun none_waits =>
      waiting.trans none_waits

theorem Attentive.of_reached {start s : Site} {r : Record} (h : start.Attentive)
    (reached : Reached start (fun _ m => ∀ job, m ≠ .enqueue job) s r) : s.Attentive := by
  induction reached with
  | here => exact h
  | step m _ fed moved ih => exact ih.move fed moved

/-- A loop that may take jobs and waits while there are some was notified: its next step
wakes it, and with the one after that it takes the oldest job. -/
theorem Attentive.serves {s : Site} (h : s.Attentive) {i : LoopId} {l : Loop} {job : Job}
    {rest : List Job} (found : s.pool.loops[i]? = some l) (mayTake : s.pool.mayTake l = true)
    (waits : s.driver.waiting = job :: rest) {notified : Bool} {wake : Nat}
    (parked : l.phase = .parked notified wake) :
    notified = true ∧ ∃ s', s.step (.loop i) = some s' ∧ s'.takes (.loop i) = some job := by
  have awake := h.awake (by simp [waits]) l (List.mem_of_getElem? found)
  have notified_eq : notified = true := by
    cases notified with
    | true => rfl
    | false => simp [Loop.isAsleep, parked] at awake
  have live : s.pool.tokens.isCancelled l.token = false := by
    simp only [Pool.mayTake, Bool.and_eq_true, Bool.not_eq_true'] at mayTake
    exact mayTake.2
  refine ⟨notified_eq, s.withPool (s.pool.setPhase i .looking), ?_, ?_⟩
  · simp [Site.step, stepLoop, found, parked, live, notified_eq]
  · have oldest := Driver.dequeue_of_waiting h.wellFormed waits
    simp only [takes, withPool, Pool.setPhase, List.getElem?_modify_eq, found, oldest]
    exact if_pos mayTake

end Site

/-- Where only the pool itself puts jobs into its driver, a loop that is parked and not
notified sees an empty driver, in every state and in whatever order things happen. And a
loop that may take jobs does not wait beside them: if it looks it takes the oldest, and if
it is parked it was notified, and after one step it does. -/
theorem no_wakeup_lost {name : String} {settings : Settings} {driver : Driver Job} {hub : Hub}
    {wall : Nat} {picks : Picks} {s : Site} {r : Record} (wellFormed : driver.WellFormed)
    (reached : Reached (.create name settings driver hub wall picks)
      (fun _ m => ∀ job, m ≠ .enqueue job) s r) :
    (∀ l ∈ s.pool.loops, ∀ wake, l.phase = .parked false wake → s.driver.waiting = []) ∧
    ∀ i l job rest, s.pool.loops[i]? = some l → s.pool.mayTake l = true →
      s.driver.waiting = job :: rest →
        (l.phase = .looking → s.takes (.loop i) = some job) ∧
        ∀ notified wake, l.phase = .parked notified wake → notified = true ∧
          ∃ s', s.step (.loop i) = some s' ∧ s'.takes (.loop i) = some job := by
  have begins : (Site.create name settings driver hub wall picks).Attentive :=
    ⟨wellFormed, fun _ => rfl, fun _ _ hl => nomatch hl⟩
  have attentive := begins.of_reached reached
  refine ⟨fun l hl wake parked => ?_, fun i l job rest found mayTake waits => ⟨?_, ?_⟩⟩
  · by_contra waits
    have awake := attentive.awake waits l hl
    simp [Loop.isAsleep, parked] at awake
  · intro looking
    have oldest := Driver.dequeue_of_waiting attentive.wellFormed waits
    simp [Site.takes, found, looking, mayTake, oldest]
  · intro notified wake parked
    exact attentive.serves found mayTake waits parked

open Sample

/-- The only worker has run a job and parked before the next one is dispatched. -/
theorem reached_roused : ∃ s r l wake, Reached oneWorker (fun _ m => ∀ job, m ≠ .enqueue job) s r ∧
    r.finished.length = 1 ∧ s.driver.waiting = [quickJob] ∧ s.pool.loops[0]? = some l ∧
    s.pool.mayTake l = true ∧ l.phase = .parked true wake := by
  have started : Reached oneWorker (fun _ m => ∀ job, m ≠ .enqueue job) _ _ :=
    .step .start .here nofun rfl
  have first := Reached.step (.dispatch quickJob) started nofun rfl
  have taken := Reached.step (.task (.loop 0)) first nofun rfl
  have run := Reached.step (.task (.loop 0)) taken nofun rfl
  have finished := Reached.step (.task (.loop 0)) run nofun rfl
  have parked := Reached.step (.task (.loop 0)) finished nofun rfl
  have roused := Reached.step (.dispatch quickJob) parked nofun rfl
  exact ⟨_, _, _, _, roused, rfl, rfl, rfl, rfl, rfl⟩

theorem no_wakeup_lost_roused : ∃ s r s',
    Reached oneWorker (fun _ m => ∀ job, m ≠ .enqueue job) s r ∧
    s.driver.waiting = [quickJob] ∧ s.step (.loop 0) = some s' ∧
    s'.takes (.loop 0) = some quickJob := by
  obtain ⟨s, r, l, wake, reached, -, waits, found, mayTake, parked⟩ := reached_roused
  have wellFormed : (Driver.memory {} : Driver Job).WellFormed := trivial
  obtain ⟨-, served⟩ := no_wakeup_lost wellFormed reached
  obtain ⟨-, s', stepped, takes⟩ := (served 0 l quickJob [] found mayTake waits).2 true wake parked
  exact ⟨s, r, s', reached, waits, stepped, takes⟩

end JobPool
