/-
JobPool.Proofs.Pool.Standing — what can be said at every point of a pool's life.

The invariants of a pool hold together at every point (`Pool.Regular`). A pool that refuses
jobs and whose loops are barred from taking any leaves alone what waits (`Pool.Closed`). Two
things are true of the runs of loops, whatever calls come in between. A run is
`Unaffected`: only its loop changes it, its attempt keeps a live token unless the root is
cancelled, and its back-off is neither shortened nor drawn out. And the jobs of the loops
are seen through (`Path.SeenThrough`) where no listener panics while it is made, but for those
whose deadlines are not on the clock.

  §1 Invariants
  §2 Closed pools
  §3 Runs
-/
import JobPool.Proofs.Pool.Staff
import JobPool.Proofs.Pool.Tokens

namespace JobPool

open Pool (Change Changes Deed)

/-! ## §1 Invariants -/

namespace Pool

/-- The invariants of a pool. -/
structure Regular (p : Pool) : Prop where
  sound : p.Sound
  manned : p.Manned
  apportioned : p.Apportioned
  unhindered : p.Unhindered

theorem regular_create (name : String) (settings : Settings) : (create name settings).Regular where
  sound := sound_create name settings
  manned := manned_create name settings
  apportioned := (unhindered_create name settings).1
  unhindered := (unhindered_create name settings).2

theorem Regular.of_change {p q : Pool} {d : Option Deed} (h : p.Regular) (change : Change p d q) :
    q.Regular where
  sound := h.sound.of_change change
  manned := h.manned.of_change h.sound change
  apportioned := h.apportioned.of_change change
  unhindered := h.unhindered.of_change h.apportioned change

end Pool

/-- What every change keeps, every path keeps. -/
theorem Path.keeps {start s : Site} {ms : List (Site × Move)} (path : Path start ms s)
    {P : Pool → Prop} (holds : P start.pool)
    (step : ∀ {p q : Pool} {d : Option Deed}, Change p d q → P p → P q) : P s.pool := by
  obtain ⟨ds, does⟩ := path.does
  exact does.changes.keeps holds fun change _ => step change

theorem Path.regular {start s : Site} {ms : List (Site × Move)} (path : Path start ms s)
    (h : start.pool.Regular) : s.pool.Regular :=
  path.keeps h fun change h => h.of_change change

/-- A move of a path is made at the end of a path. -/
theorem Path.before {start s : Site} {ms : List (Site × Move)} (path : Path start ms s)
    {x : Site × Move} (hx : x ∈ ms) : ∃ ms', Path start ms' x.1 ∧ ms' ⊆ ms := by
  induction path with
  | here => cases hx
  | @step s s' ms m path moved ih =>
    rcases List.mem_append.1 hx with hx | hx
    · obtain ⟨ms', path', sub⟩ := ih hx
      exact ⟨ms', path', fun y hy => List.mem_append_left _ (sub hy)⟩
    · rw [List.mem_singleton.1 hx]
      exact ⟨ms, path, fun y => List.mem_append_left _⟩

/-- The moves of a path can be made. -/
theorem Path.able {start s : Site} {ms : List (Site × Move)} (path : Path start ms s)
    {x : Site × Move} (hx : x ∈ ms) : (x.1.move x.2).isSome = true := by
  induction path with
  | here => cases hx
  | @step s s' ms m _ moved ih =>
    rcases List.mem_append.1 hx with hx | hx
    · exact ih hx
    · rw [List.mem_singleton.1 hx, moved]
      rfl

/-! ## §2 Closed pools -/

/-- The pool refuses jobs, and no loop may take one. -/
structure Pool.Closed (p : Pool) : Prop where
  status : p.status = .stopped ∨ p.status = .released
  barred : ∀ l ∈ p.loops, p.mayTake l = false

theorem Site.dispatch_of_closed {s : Site} (closed : s.pool.Closed) (job : Job) :
    s.dispatch job = (false, s) := by
  rcases closed.status with status | status <;> simp [dispatch, status]

/-- A closed pool neither takes jobs nor adds any: what waits is left to whoever else uses the
driver. -/
theorem Site.leaves_of_closed {s s' : Site} {m : Move} (closed : s.pool.Closed)
    (moved : s.move m = some s') :
    s.takenBy m = [] ∧ (m.leavesQueue = true → s'.driver.waiting = s.driver.waiting) := by
  cases m with
  | task t =>
    obtain ⟨ds, stepped⟩ := stepped_of_step moved
    have taken : s.takenBy (.task t) = (s.takes t).toList := rfl
    cases stepped.driver with
    | untouched takes _ same => exact ⟨by rw [taken, takes]; rfl, fun _ => by rw [same]⟩
    | asked found mayTake _ _ _ =>
      rw [closed.barred _ (List.mem_of_getElem? found)] at mayTake
      cases mayTake
    | told takes _ after =>
      exact ⟨by rw [taken, takes]; rfl, fun _ => by rw [after, Driver.waiting_complete]⟩
  | start =>
    cases moved
    exact ⟨rfl, fun _ => congrArg Driver.waiting s.quiet_start.driver⟩
  | beginStop =>
    cases moved
    exact ⟨rfl, fun _ => congrArg Driver.waiting s.quiet_beginStop.driver⟩
  | beginRelease =>
    cases moved
    exact ⟨rfl, fun _ => congrArg Driver.waiting s.quiet_beginRelease.driver⟩
  | spawnWorkers =>
    cases moved
    exact ⟨rfl, fun _ => congrArg Driver.waiting (s.quiet_spawnWorkers (d := none)).driver⟩
  | dispatch job =>
    cases moved
    exact ⟨rfl, fun _ => by rw [dispatch_of_closed closed]⟩
  | complete success =>
    cases moved
    exact ⟨rfl, fun _ => Driver.waiting_complete ..⟩
  | clear => exact ⟨rfl, nofun⟩
  | enqueue job => exact ⟨rfl, nofun⟩
  | take => exact ⟨rfl, nofun⟩
  | _ =>
    cases moved
    exact ⟨rfl, fun _ => rfl⟩

theorem Path.leaves_of_closed {s s' : Site} {ms : List (Site × Move)} (path : Path s ms s')
    (closed : ∀ x ∈ ms, x.1.pool.Closed) :
    (∀ x ∈ ms, x.1.takenBy x.2 = []) ∧
      ((∀ x ∈ ms, x.2.leavesQueue = true) → s'.driver.waiting = s.driver.waiting) := by
  induction path with
  | here => exact ⟨List.forall_mem_nil _, fun _ => rfl⟩
  | @step s₁ s₂ ms m _ moved ih =>
    obtain ⟨taken, waiting⟩ := ih fun x hx => closed x (List.mem_append_left _ hx)
    obtain ⟨untaken, same⟩ := Site.leaves_of_closed (closed (s₁, m) (by simp)) moved
    refine ⟨fun x hx => ?_, fun leaves => ?_⟩
    · rcases List.mem_append.1 hx with hx | hx
      · exact taken x hx
      · rw [List.mem_singleton.1 hx]
        exact untaken
    · exact (same (leaves (s₁, m) (by simp))).trans
        (waiting fun x hx => leaves x (List.mem_append_left _ hx))

/-! ## §3 Runs -/

/-- The run of loop `i` goes on as if nothing else happened: its attempt has a live token unless
the root is cancelled, its back-off ends when it is due, and nothing but a step of the loop
changes it. -/
structure Site.Unaffected (s : Site) (i : LoopId) (r : Run) : Prop where
  live : ∀ a, r.phase = .attempting a →
    s.pool.tokens.isCancelled a.token = s.pool.tokens.root
  backoff : ∀ wake, r.phase = .waiting wake → ((s.step (.loop i)).isSome = true ↔ wake ≤ s.now)
  stays : ∀ m s', s.move m = some s' → m.isStepOf i = false → s'.pool.runAt i = some r

theorem Pool.Regular.unaffected {s : Site} (h : s.pool.Regular) {i : LoopId} {r : Run}
    (runs : s.pool.runAt i = some r) : s.Unaffected i r where
  live a attempting := by
    have makes : s.pool.attemptAt i = some a := by
      rw [Pool.attemptAt, runs]
      exact Run.underway?_eq_some.2 attempting
    cases root : s.pool.tokens.root with
    | false => exact h.unhindered.live root i a makes
    | true => rw [Tokens.isCancelled, root, Bool.true_or]
  backoff wake waiting := by
    rw [Site.step_isSome_of_run runs]
    simp only [waiting, Run.turn]
    by_cases due : wake ≤ s.now <;> simp [due]
  stays m s' moved other := (Site.runAt_of_move moved other).trans runs

/-- The jobs that loops took in some moves are run to their end by their own policies, if the clock
could tell their deadlines: each loop has told a whole tale and recorded an outcome of every such
job but the current one, and that one ends too if the loop gets its turns. Only with a job whose
deadline the clock could not tell a loop has crashed, or is about to. -/
structure Path.SeenThrough (defaults : JobDefaults) (ms : List (Site × Move)) (s : Site) :
    Prop where
  crashed : ∀ i l, s.pool.loops[i]? = some l → l.phase = .crashed → strayedBy i ms ≠ []
  cut : ∀ i r, s.pool.runAt i = some r → r.phase = .unwound → r.job ∈ strayedBy i ms
  chronicle : ∀ i, ∃ tales latest, Chronicle defaults (reckonedBy i ms) (toldBy i ms)
    (finishedBy i ms) ((s.pool.runAt i).filter Run.isUncut) tales latest
  ends : ∀ (σ : Schedule) (i : LoopId) (r : Run), σ.state 0 = s → σ.Favours i →
    s.pool.runAt i = some r → r.phase ≠ .unwound → ∃ m success, σ.move m = .task (.loop i) ∧
      (σ.state m).finishes (.loop i) = some (r.job, success)

theorem Path.seenThrough {start s : Site} {ms : List (Site × Move)} (path : Path start ms s)
    (fresh : start.pool.loops = []) (calm : ∀ x ∈ ms, x.1.Calm x.2) :
    SeenThrough start.pool.settings.job ms s := by
  obtain ⟨ds, does⟩ := path.does
  have steady : s.pool.Steady fun i job => job ∈ strayedBy i ms :=
    ((Pool.steady_of_fresh fresh).of_changes does.changes (does.uncut calm) does.strayed).steady
  refine ⟨fun i l found crashed => ?_, fun i r runs cut => ?_, path.chronicle fresh calm,
    fun σ i r begins favours runs uncut => ?_⟩
  · have stands := steady i l found
    simp only [Loop.Steady, crashed] at stands
    obtain ⟨job, stray⟩ := stands
    exact List.ne_nil_of_mem stray
  · obtain ⟨l, found, running⟩ := Pool.runAt_eq_some.1 runs
    exact steady.stray found running cut
  · obtain ⟨tales, latest, story⟩ := path.chronicle fresh calm i
    rw [runs, Option.filter_some_pos (Run.isUncut_iff.2 uncut)] at story
    obtain ⟨m, success, -, own, done⟩ :=
      favours.finishes (n := 0) (begins ▸ runs) (story.tells r rfl)
    exact ⟨m, success, own, done⟩

/-- Where all deadlines are on the clock no job strays. -/
theorem Path.strayedBy_of_onClock {ms : List (Site × Move)} (onClock : ∀ x ∈ ms, x.1.OnClock x.2)
    (i : LoopId) : strayedBy i ms = [] := by
  refine List.filterMap_eq_nil_iff.2 fun x hx => ?_
  obtain ⟨hx, own⟩ := List.mem_filter.1 hx
  have tells := onClock x hx
  rw [isStepOf_iff.1 own] at tells
  refine Option.filter_eq_none_iff.2 fun job takes => ?_
  simp [tells job (Option.mem_toList.2 takes)]

end JobPool
