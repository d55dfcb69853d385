/-
JobPool.Proofs.Pool.Sequence — the order in which jobs leave the driver and are told of.

Whoever takes a job from a driver takes the oldest one, so jobs leave it in the order in which
it accepted them (`Site.Passes`), and every job that a loop takes is announced in the very step
that takes it (`Pool.Announced`), if its deadline is on the clock. A pool with one worker has at
most one job in hand, whatever becomes of that worker and its loops (`Pool.Solo`), so all its
loops together tell one
story, job after job.

  §1 What moves put in, take out and tell
  §2 The order of the queue
  §3 Announcements
  §4 One worker
-/
import JobPool.Proofs.Pool.Story

namespace JobPool

open Pool (Change Changes Deed Follows Sound)

/-- True of the announcement of a job. -/
def Event.isBefore : Event → Bool
  | before _ => true
  | _ => false

/-! ## §1 What moves put in, take out and tell -/

namespace Site

/-- The jobs that a move puts into the driver. -/
def addedBy (s : Site) : Move → List Job
  | .dispatch job => if (s.dispatch job).1 then [job] else []
  | .enqueue job => if (s.driver.enqueue job).1 then [job] else []
  | _ => []

/-- The jobs that a move takes out of the driver, but not for a loop. -/
def removedBy (s : Site) : Move → List Job
  | .clear => s.driver.waiting
  | .take => s.driver.dequeue.1.toList
  | _ => []

/-- What a move tells about the jobs of the pool. -/
def toldBy (s : Site) : Move → List Event
  | .task (.loop i) => (s.publishes (.loop i)).toList
  | _ => []

end Site

namespace Path

/-- The jobs that the driver accepts in some moves. -/
def acceptedIn (ms : List (Site × Move)) : List Job := ms.flatMap fun x => x.1.addedBy x.2

/-- The jobs that leave the driver in some moves, each with whether a loop takes it and the clock
can tell its deadline. -/
def goneIn (ms : List (Site × Move)) : List (Job × Bool) :=
  ms.flatMap fun x =>
    (x.1.takenBy x.2).map (fun job => (job, x.1.onClock job)) ++ (x.1.removedBy x.2).map (·, false)

/-- The jobs that loops take in some moves while the clock can tell their deadlines. -/
def reckonedIn (ms : List (Site × Move)) : List Job := ms.flatMap fun x => x.1.reckonedBy x.2

/-- What loops tell in some moves. -/
def toldIn (ms : List (Site × Move)) : List Event := ms.flatMap fun x => x.1.toldBy x.2

/-- The outcomes that loops record in some moves. -/
def finishedIn (ms : List (Site × Move)) : List (Job × Bool) :=
  ms.flatMap fun x => x.1.finishedBy x.2

theorem flatMap_concat {β : Type} (ms : List (Site × Move)) (x : Site × Move)
    (f : Site × Move → List β) : (ms ++ [x]).flatMap f = ms.flatMap f ++ f x := by
  rw [List.flatMap_append, List.flatMap_singleton]

theorem jobs_goneIn_concat (ms : List (Site × Move)) (s : Site) (m : Move) :
    (goneIn (ms ++ [(s, m)])).map (·.1) =
      (goneIn ms).map (·.1) ++ (s.takenBy m ++ s.removedBy m) := by
  rw [goneIn, flatMap_concat, List.map_append]
  simp [goneIn, Function.comp_def]

/-- The marked jobs are those that loops take while the clock can tell their deadlines. -/
theorem reckoned_goneIn (ms : List (Site × Move)) :
    ((goneIn ms).filter (·.2)).map (·.1) = reckonedIn ms := by
  induction ms with
  | nil => rfl
  | cons x ms ih =>
    have kept : (((x.1.takenBy x.2).map fun job => (job, x.1.onClock job)).filter (·.2)).map (·.1) =
        x.1.reckonedBy x.2 := by
      simp [List.filter_map, Function.comp_def, Site.reckonedBy]
    have left : ((x.1.removedBy x.2).map (·, false)).filter (·.2) = [] := by
      simp [List.filter_map, Function.comp_def]
    simp only [goneIn, reckonedIn, List.flatMap_cons, List.filter_append, List.map_append, kept,
      left, List.append_nil] at ih ⊢
    rw [ih]

end Path

/-! ## §2 The order of the queue -/

namespace Site

/-- Jobs join the queue at its end and leave it at its front. -/
structure Passes (s : Site) (m : Move) (s' : Site) : Prop where
  wellFormed : s'.driver.WellFormed
  order : s.driver.waiting ++ s.addedBy m =
    s.takenBy m ++ s.removedBy m ++ s'.driver.waiting

/-- The driver is left alone. -/
theorem Passes.of_same {s s' : Site} {m : Move} (wellFormed : s.driver.WellFormed)
    (driver : s'.driver = s.driver) (added : s.addedBy m = []) (taken : s.takenBy m = [])
    (removed : s.removedBy m = []) : s.Passes m s' := by
  refine ⟨driver ▸ wellFormed, ?_⟩
  rw [added, taken, removed, driver]
  exact List.append_nil _

/-- The oldest job is taken out, if there is one. -/
theorem Passes.of_dequeue {s s' : Site} {m : Move} (wellFormed : s.driver.WellFormed)
    (driver : s'.driver = s.driver.dequeue.2) (added : s.addedBy m = [])
    (out : s.takenBy m ++ s.removedBy m = s.driver.dequeue.1.toList) : s.Passes m s' := by
  cases oldest : s.driver.dequeue.1 with
  | none =>
    rw [Driver.dequeue_none wellFormed oldest] at driver
    refine ⟨driver ▸ wellFormed, ?_⟩
    rw [added, out, oldest, driver]
    exact List.append_nil _
  | some job =>
    obtain ⟨wellFormed', waiting, -⟩ := Driver.dequeue_some wellFormed oldest
    refine ⟨driver ▸ wellFormed', ?_⟩
    rw [added, out, oldest, driver, waiting]
    exact List.append_nil _

theorem passes_of_step {s s' : Site} {t : PoolTask} (wellFormed : s.driver.WellFormed)
    (moved : s.step t = some s') : s.Passes (.task t) s' := by
  obtain ⟨ds, stepped⟩ := stepped_of_step moved
  cases stepped.driver with
  | untouched takes finishes same =>
    refine .of_same wellFormed same rfl ?_ rfl
    rw [takenBy, takes]
    rfl
  | asked found mayTake takes finishes after =>
    refine .of_dequeue wellFormed after rfl ?_
    rw [takenBy, takes]
    exact List.append_nil _
  | told takes finishes after =>
    obtain ⟨wellFormed', waiting, -⟩ := Driver.complete_spec wellFormed _
    refine ⟨after ▸ wellFormed', ?_⟩
    rw [takenBy, takes, after, waiting]
    exact List.append_nil _

theorem passes_of_dispatch {s : Site} (wellFormed : s.driver.WellFormed) (job : Job) :
    s.Passes (.dispatch job) (s.dispatch job).2 := by
  cases answer : (s.dispatch job).1 with
  | false =>
    refine .of_same wellFormed ?_ ?_ rfl rfl
    · rw [dispatch_refused answer]
    · rw [addedBy, answer]
      rfl
  | true =>
    obtain ⟨accepted, driver⟩ := dispatch_accepted answer
    obtain ⟨wellFormed', waiting, -⟩ := Driver.enqueue_accepted wellFormed accepted
    refine ⟨driver ▸ wellFormed', ?_⟩
    rw [addedBy, answer, driver, waiting]
    rfl

theorem passes_of_move {s s' : Site} {m : Move} (wellFormed : s.driver.WellFormed)
    (moved : s.move m = some s') : s.Passes m s' := by
  cases m with
  | task t => exact passes_of_step wellFormed moved
  | dispatch job =>
    cases moved
    exact passes_of_dispatch wellFormed job
  | clear =>
    cases moved
    obtain ⟨wellFormed', waiting, -⟩ := Driver.clear_spec wellFormed
    refine ⟨wellFormed', ?_⟩
    rw [waiting]
    rfl
  | take =>
    cases moved
    exact .of_dequeue wellFormed rfl rfl rfl
  | complete success =>
    cases moved
    obtain ⟨wellFormed', waiting, -⟩ := Driver.complete_spec wellFormed success
    refine ⟨wellFormed', ?_⟩
    rw [waiting]
    exact List.append_nil _
  | enqueue job =>
    cases moved
    cases accepted : (s.driver.enqueue job).1 with
    | false =>
      refine .of_same wellFormed (Driver.enqueue_refused accepted) ?_ rfl rfl
      rw [addedBy, accepted]
      rfl
    | true =>
      obtain ⟨wellFormed', waiting, -⟩ := Driver.enqueue_accepted wellFormed accepted
      refine ⟨wellFormed', ?_⟩
      rw [addedBy, accepted, waiting]
      rfl
  | start =>
    cases moved
    exact .of_same wellFormed s.quiet_start.driver rfl rfl rfl
  | beginStop =>
    cases moved
    exact .of_same wellFormed s.quiet_beginStop.driver rfl rfl rfl
  | beginRelease =>
    cases moved
    exact .of_same wellFormed s.quiet_beginRelease.driver rfl rfl rfl
  | spawnWorkers =>
    cases moved
    exact .of_same wellFormed (s.quiet_spawnWorkers (d := none)).driver rfl rfl rfl
  | stopWorker w =>
    cases moved
    exact .of_same wellFormed rfl rfl rfl rfl
  | abandon =>
    cases moved
    exact .of_same wellFormed rfl rfl rfl rfl
  | bus op =>
    cases moved
    exact .of_same wellFormed rfl rfl rfl rfl
  | pass time wall =>
    cases moved
    exact .of_same wellFormed rfl rfl rfl rfl

end Site

/-- Along a path the jobs that were there or were accepted have left the driver in that order, or
wait in it. -/
theorem Path.passes {start s : Site} {ms : List (Site × Move)} (path : Path start ms s)
    (wellFormed : start.driver.WellFormed) :
    s.driver.WellFormed ∧ start.driver.waiting ++ acceptedIn ms =
      (goneIn ms).map (·.1) ++ s.driver.waiting := by
  induction path with
  | here => exact ⟨wellFormed, List.append_nil _⟩
  | @step s s' ms m _ moved ih =>
    obtain ⟨wellFormed, order⟩ := ih
    obtain ⟨wellFormed', passes⟩ := Site.passes_of_move wellFormed moved
    refine ⟨wellFormed', ?_⟩
    calc start.driver.waiting ++ acceptedIn (ms ++ [(s, m)])
        = start.driver.waiting ++ acceptedIn ms ++ s.addedBy m := by
          rw [acceptedIn, flatMap_concat, List.append_assoc]
          rfl
      _ = (goneIn ms).map (·.1) ++ (s.driver.waiting ++ s.addedBy m) := by
          rw [order, List.append_assoc]
      _ = (goneIn ms).map (·.1) ++ (s.takenBy m ++ s.removedBy m ++ s'.driver.waiting) := by
          rw [passes]
      _ = (goneIn (ms ++ [(s, m)])).map (·.1) ++ s'.driver.waiting := by
          rw [jobs_goneIn_concat]
          simp only [List.append_assoc]

/-! ## §3 Announcements -/

/-- Only the first turn of a run announces its job. -/
theorem Run.Turned.not_before {r : Run} {picks : Picks} {now : Nat} {tokens : Tokens} {t : Turn}
    (h : Turned r picks now tokens t) (announced : r.phase ≠ .opening) :
    ∀ ev ∈ t.event, ev.isBefore = false := by
  have concludes : ∀ {pick : Pick} {e : Option JobError}, t.Concludes r pick now e →
      ∀ ev ∈ t.event, ev.isBefore = false := by
    rintro pick e ⟨ev, event, concluded⟩ ev' published
    obtain rfl := Option.some.inj (event.symm.trans published)
    generalize t.next = next at concluded
    cases concluded <;> rfl
  cases h with
  | announced phase _ _ _ _ => exact absurd phase announced
  | woken _ _ _ _ event _ => simp [event]
  | begun _ _ _ _ _ _ event _ => simp [event]
  | expired _ _ _ _ concluded => exact concludes concluded
  | stillborn _ _ _ _ _ concluded => exact concludes concluded
  | «instant» _ _ _ _ _ concluded => exact concludes concluded
  | ended _ _ _ concluded => exact concludes concluded

/-- All jobs that loops run have been announced. -/
def Pool.Announced (p : Pool) : Prop := ∀ i r, p.runAt i = some r → r.phase ≠ .opening

namespace Site

variable {s s' : Site} {i : LoopId} {l : Loop}

/-- Once a run has taken a step its job is announced. -/
theorem announced_stepRun {run : Run} (found : s.pool.loops[i]? = some l)
    (h : s.stepRun i run = some s') : ∀ r, s'.pool.runAt i = some r → r.phase ≠ .opening := by
  obtain ⟨⟨stage, run'⟩, stepped, rfl⟩ := Option.map_eq_some_iff.1 h
  obtain ⟨t, turn, played⟩ := Option.map_eq_some_iff.1 stepped
  intro r runs
  rw [Pool.runAt_setPhase (p := s.pool) (.running run') found rfl, if_pos rfl] at runs
  obtain rfl : run' = r := Option.some.inj runs
  have goes := Stage.play_run s.stage t
  rw [played] at goes
  rcases goes with same | cut
  · rw [show run' = t.next from same]
    exact (Run.turned_of_turn turn).not_opening
  · rw [show run' = { t.next with phase := .unwound } from cut]
    nofun

/-- After a step of its loop a run is announced. -/
theorem announced_stepLoop (h : s.stepLoop i = some s') :
    ∀ r, s'.pool.runAt i = some r → r.phase ≠ .opening := by
  obtain ⟨l, found, cycles⟩ := cycles_of_stepLoop h
  -- where the loop ends up without a run there is nothing to show
  have free : ∀ {p : Pool} {phase : Loop.Phase}, p.loops = s.pool.loops →
      (∀ run, phase ≠ .running run) →
      ∀ r, (p.setPhase i phase).runAt i = some r → r.phase ≠ .opening := by
    intro p phase loops idle r runs
    rw [Pool.runAt_setPhase (p := p) phase (loops ▸ found) rfl, if_pos rfl] at runs
    cases phase with
    | running run => exact absurd rfl (idle run)
    | _ => cases runs
  have taken (job : Job) (driver : Driver Job) : (s.inHand i l job driver).pool.loops[i]? =
      some { l with phase := .running (.start job s.pool.settings.job s.now) } := by
    simp [inHand, Pool.setPhase, Pool.modifyWorker, found]
  cases cycles with
  | ends | finishesLate => exact free (p := s.pool.modifyWorker ..) rfl (by simp)
  | parks | wakes | crashes => exact free rfl (by simp)
  | @strays job driver _ _ _ offClock =>
    intro r runs
    obtain rfl := Option.some.inj ((Pool.runAt_of_found (taken job driver)).symm.trans runs)
    rw [Run.phase_start_of_offClock offClock]
    exact Run.Phase.noConfusion
  | @begins job driver _ _ _ _ _ announces => exact announced_stepRun (taken job driver) announces
  | runs _ goes => exact announced_stepRun found goes
  | finishes =>
    refine free (p := s.pool.modifyWorker ..) rfl fun run => ?_
    split <;> simp

theorem announced_of_move {m : Move} (h : s.pool.Announced) (moved : s.move m = some s') :
    s'.pool.Announced := by
  intro i
  cases own : m.isStepOf i with
  | true =>
    obtain rfl := Path.isStepOf_iff.1 own
    exact announced_stepLoop moved
  | false =>
    rw [runAt_of_move moved own]
    exact h i

/-- A move announces exactly the jobs that it takes for loops, of those on the clock. -/
theorem toldBy_of_announced (h : s.pool.Announced) (m : Move) :
    (s.toldBy m).filter (·.isBefore) = (s.reckonedBy m).map .before := by
  cases m with
  | task t =>
    cases t with
    | loop i =>
      have unasked : (∀ r, s.pool.runAt i ≠ some r) →
          s.publishes (.loop i) = ((s.takes (.loop i)).filter s.onClock).map .before := by
        intro idle
        cases found : s.pool.loops[i]? with
        | none => simp [publishes, found]
        | some l =>
          cases phase : l.phase with
          | running run => exact absurd (Pool.runAt_eq_some.2 ⟨l, found, phase⟩) (idle run)
          | _ => simp [publishes, found, phase]
      cases runs : s.pool.runAt i with
      | none =>
        rw [toldBy, reckonedBy, takenBy, unasked (by simp [runs])]
        cases s.takes (.loop i) with
        | none => rfl
        | some job =>
          cases onClock : s.onClock job <;> simp [Option.filter, onClock, Event.isBefore]
      | some run =>
        obtain ⟨l, found, running⟩ := Pool.runAt_eq_some.1 runs
        have takes : s.takes (.loop i) = none := by simp [Site.takes, found, running]
        have told : s.publishes (.loop i) =
            (run.turn s.picks s.now s.pool.tokens).bind (·.event) := by
          simp [publishes, found, running]
        rw [toldBy, reckonedBy, takenBy, takes, told]
        refine List.filter_eq_nil_iff.2 fun ev published => ?_
        obtain ⟨t, turn, event⟩ := Option.bind_eq_some_iff.1 (Option.mem_toList.1 published)
        have later := (Run.turned_of_turn turn).not_before (h i run runs) ev event
        rw [later]
        exact Bool.false_ne_true
    | _ => rfl
  | _ => rfl

end Site

/-- Along a path the jobs on the clock are announced in the order in which loops take them. -/
theorem Path.announced {start s : Site} {ms : List (Site × Move)} (path : Path start ms s)
    (begins : start.pool.Announced) :
    s.pool.Announced ∧ (toldIn ms).filter (·.isBefore) = (reckonedIn ms).map .before := by
  induction path with
  | here => exact ⟨begins, rfl⟩
  | @step s s' ms m _ moved ih =>
    obtain ⟨announced, told⟩ := ih
    refine ⟨Site.announced_of_move announced moved, ?_⟩
    rw [toldIn, reckonedIn, flatMap_concat, flatMap_concat, List.filter_append, List.map_append,
      Site.toldBy_of_announced announced m]
    exact congrArg (· ++ _) told

/-! ## §4 One worker -/

namespace Pool

/-- At most one loop of the pool runs a job, and that is `current`. -/
inductive Solo (p : Pool) : Option Run → Prop where
  | idle (free : ∀ i, p.runAt i = none) : Solo p none
  | busy {i : LoopId} {r : Run} (runs : p.runAt i = some r)
      (others : ∀ j, i ≠ j → p.runAt j = none) : Solo p (some r)

/-- What the one busy loop runs is the job in hand. -/
theorem Solo.of_runs {p : Pool} {current : Option Run} (h : p.Solo current) {i : LoopId} {r : Run}
    (runs : p.runAt i = some r) : current = some r ∧ ∀ j, i ≠ j → p.runAt j = none := by
  cases h with
  | idle free =>
    rw [free i] at runs
    cases runs
  | @busy i' r' runs' others =>
    by_cases same : i' = i
    · subst same
      exact ⟨runs'.symm.trans runs, others⟩
    · rw [others i same] at runs
      cases runs

/-- Where one job at a time is the bound, a loop takes a job only if no loop runs one. -/
theorem Sound.free_of_take {p q : Pool} {i : LoopId} {job : Job} {onClock : Bool} (h : p.Sound)
    (one : p.settings.worker.bound = 1) (change : Change p (some (.took i job onClock)) q)
    (j : LoopId) :
    p.runAt j = none := by
  cases change with
  | aside aside => cases aside
  | @take _ l _ now found looking mayTake =>
    obtain ⟨k, carrier, -⟩ := h.fitting found
    obtain ⟨-, -, room⟩ := h.room_of_mayTake found carrier (Loop.free_of_looking looking) mayTake
    rw [one, Nat.lt_one_iff, List.countP_eq_zero] at room
    refine Option.eq_none_iff_forall_ne_some.2 fun r runs => ?_
    obtain ⟨l', found', running⟩ := runAt_eq_some.1 runs
    exact room l' (List.mem_of_getElem? found') (Loop.busy_of_running running)

/-- The deed does nothing with a job on the clock. -/
def Deed.IsSilent (d : Deed) : Prop := d.reckoned? = none ∧ d.told? = none ∧ d.finished? = none

/-- The job in hand is followed by the deeds of whatever loop has it. -/
theorem Solo.of_change {p q : Pool} {d : Option Deed} {current : Option Run} (h : p.Solo current)
    (sound : p.Sound) (one : p.settings.worker.bound = 1) (change : Change p d q) :
    ∃ i next, q.Solo next ∧ Follows p.settings.job i current d next ∧
      ∀ e ∈ d, e.loop? ≠ some i → e.IsSilent := by
  have unmoved : (∀ j, q.runAt j = p.runAt j) → q.Solo current := by
    intro same
    cases h with
    | idle free => exact .idle fun j => (same j).trans (free j)
    | busy runs others =>
      exact .busy ((same _).trans runs) fun j differ => (same j).trans (others j differ)
  by_cases loops : ∃ e i, d = some e ∧ e.loop? = some i
  · obtain ⟨e, i, rfl, own⟩ := loops
    have same : ∀ j, i ≠ j → q.runAt j = p.runAt j := by
      intro j differ
      refine (follows_of_change change j).same fun e' he other => differ ?_
      obtain rfl := Option.some.inj he
      exact Option.some.inj (own.symm.trans other)
    have follows := follows_of_change change i
    -- the deed is that of the loop with the job in hand, and the others have none
    have inHand : ∀ {r : Run} {next : Option Run}, p.runAt i = some r → q.runAt i = next →
        Follows p.settings.job i (some r) (some e) next →
        ∃ i next, q.Solo next ∧ Follows p.settings.job i current (some e) next ∧
          ∀ e' ∈ some e, e'.loop? ≠ some i → e'.IsSilent := by
      intro r next runs becomes follows
      obtain ⟨rfl, others⟩ := h.of_runs runs
      refine ⟨i, next, ?_, follows, fun e' he other => ?_⟩
      · cases next with
        | some r' => exact .busy becomes fun j differ => (same j differ).trans (others j differ)
        | none =>
          refine .idle fun j => ?_
          by_cases own : i = j
          · exact own ▸ becomes
          · exact (same j own).trans (others j own)
      · obtain rfl := Option.some.inj he
        exact absurd own other
    cases runs : p.runAt i with
    | some r =>
      rw [runs] at follows
      exact inHand runs rfl follows
    | none =>
      rw [runs] at follows
      generalize becomes : q.runAt i = next at follows
      cases follows with
      | other others => exact absurd own (others e rfl)
      | parks =>
        refine ⟨i + 1, current, unmoved fun j => ?_, .other fun e' he other => ?_,
          fun e' he _ => ?_⟩
        · by_cases same' : i = j
          · subst same'
            exact becomes.trans runs.symm
          · exact same j same'
        · obtain rfl := Option.some.inj he
          exact absurd (Option.some.inj other) (Nat.ne_of_lt (Nat.lt_succ_self i))
        · obtain rfl := Option.some.inj he
          exact ⟨rfl, rfl, rfl⟩
      | takes job now =>
        have free := sound.free_of_take one change
        obtain rfl : current = none := by
          cases h with
          | idle _ => rfl
          | busy runs _ =>
            rw [free] at runs
            cases runs
        refine ⟨i, _, .busy becomes fun j differ => (same j differ).trans (free j),
          .takes job now, fun e' he other => ?_⟩
        obtain rfl := Option.some.inj he
        exact absurd own other
  · have loopless : ∀ e ∈ d, e.loop? = none := by
      intro e he
      exact Option.eq_none_iff_forall_ne_some.2 fun i own => loops ⟨e, i, he, own⟩
    refine ⟨0, current, unmoved fun j => ?_, .other fun e he own => ?_, fun e he _ => ?_⟩
    · exact (follows_of_change change j).same fun e he own => by simp [loopless e he] at own
    · simp [loopless e he] at own
    · obtain ⟨taken, told, finished, -⟩ := Deed.silent_of_loopless (loopless e he)
      exact ⟨Deed.reckoned?_of_taken? taken, told, finished⟩

end Pool

/-- The deeds of all loops of a pool with one worker tell one story. -/
theorem Chronicle.OfDeeds.of_solo {defaults : JobDefaults} {p q : Pool} {es ds : List Deed}
    {current : Option Run} (h : OfDeeds defaults es current) (solo : p.Solo current)
    (sound : p.Sound) (one : p.settings.worker.bound = 1) (settings : p.settings.job = defaults)
    (changes : Changes p ds q) (uncut : Deed.Uncut ds) :
    ∃ next, q.Solo next ∧ OfDeeds defaults (es ++ ds) next := by
  induction changes generalizing es current with
  | refl p =>
    rw [List.append_nil]
    exact ⟨current, solo, h⟩
  | @head p q r d ds first rest ih =>
    obtain ⟨i, next, solo', follows, silent⟩ := solo.of_change sound one first
    rw [settings] at follows
    have kept := (Pool.later_of_change first).settings
    obtain ⟨uncut, uncut'⟩ := List.forall_mem_append.1 uncut
    have further := h.next follows uncut
    have whole : OfDeeds defaults (es ++ d.toList) next := by
      cases d with
      | none => exact further
      | some e =>
        by_cases own : e.loop? = some i
        · have mine : Deed.doneBy i (some e).toList = [e] := by simp [Deed.doneBy, own]
          rw [mine] at further
          exact further
        · have others : Deed.doneBy i (some e).toList = [] := by simp [Deed.doneBy, own]
          obtain ⟨untaken, untold, unfinished⟩ := silent e rfl own
          rw [others, List.append_nil] at further
          exact further.silently untaken untold unfinished rfl
    rw [← List.append_assoc]
    refine ih whole solo' (sound.of_change first) ?_ ?_ uncut'
    · rw [kept]
      exact one
    · rw [kept]
      exact settings

theorem Site.Does.toldBy {s s' : Site} {m : Move} {ds : List Deed} (h : s.Does m ds s') :
    Deed.toldIn ds = s.toldBy m := by
  have silent : (∀ i, m.isStepOf i = false) → Deed.toldIn ds = [] := by
    intro others
    refine List.filterMap_eq_nil_iff.2 fun d hd => ?_
    have loopless : d.loop? = none := by
      rw [Option.eq_none_iff_forall_ne_some]
      intro i own
      have none_own := Path.doneBy_of_does h i
      rw [others i, if_neg Bool.false_ne_true] at none_own
      exact List.filter_eq_nil_iff.1 none_own d hd (by simp [own])
    exact (Deed.silent_of_loopless loopless).2.1
  cases m with
  | task t =>
    cases t with
    | loop i => exact h.told i rfl
    | _ => exact silent fun _ => rfl
  | _ => exact silent fun _ => rfl

/-- What loops take on the clock, tell and record along a path are deeds of the changes on the
way. -/
theorem Path.deeds {start s : Site} {ms : List (Site × Move)} (path : Path start ms s) :
    ∃ ds, Changes start.pool ds s.pool ∧ Deed.reckonedIn ds = reckonedIn ms ∧
      Deed.toldIn ds = toldIn ms ∧ Deed.finishedIn ds = finishedIn ms ∧
      ((∀ x ∈ ms, x.1.Calm x.2) → Deed.Uncut ds) := by
  induction path with
  | here => exact ⟨[], .refl start.pool, rfl, rfl, rfl, fun _ => List.forall_mem_nil _⟩
  | @step s s' ms m _ moved ih =>
    obtain ⟨ds, changes, reckoned, told, finished, uncut⟩ := ih
    obtain ⟨es, does⟩ := Site.changes_of_move moved
    refine ⟨ds ++ es, changes.trans does.changes, ?_, ?_, ?_, fun calm => ?_⟩
    · rw [Deed.reckonedIn_append, reckoned, does.reckoned, reckonedIn, reckonedIn, flatMap_concat]
    · rw [Deed.toldIn_append, told, does.toldBy, toldIn, toldIn, flatMap_concat]
    · rw [Deed.finishedIn_append, finished, does.finished, finishedIn, finishedIn, flatMap_concat]
    · exact List.forall_mem_append.2 ⟨uncut fun x hx => calm x (List.mem_append_left _ hx),
        does.calm (calm (s, m) (by simp))⟩

/-- However a pool is used, with any number of workers, and in whatever order its tasks take
their steps: the jobs that waited at first and those accepted since have left the driver in
this order, taken by a loop or dropped, and the rest waits; and of the jobs that loops took those
were announced, in this order, whose deadlines were on the clock. Where the pool may have one worker
only, and no listener panics while it is made, all that was told is job after job: the whole tale
of each that was run to its end, and then what was told so far of the one in hand. -/
theorem started_in_order {name : String} {settings : Settings} {driver : Driver Job} {hub : Hub}
    {wall : Nat} {picks : Picks} {ms : List (Site × Move)} {s : Site}
    (wellFormed : driver.WellFormed)
    (path : Path (.create name settings driver hub wall picks) ms s) :
    driver.waiting ++ Path.acceptedIn ms = (Path.goneIn ms).map (·.1) ++ s.driver.waiting ∧
    (Path.toldIn ms).filter (·.isBefore) =
      (((Path.goneIn ms).filter (·.2)).map (·.1)).map .before ∧
    (settings.worker.maxWorkers ≤ 1 → (∀ x ∈ ms, x.1.Calm x.2) →
      ∃ current tales latest, s.pool.Solo current ∧
        Chronicle settings.job (((Path.goneIn ms).filter (·.2)).map (·.1)) (Path.toldIn ms)
          (Path.finishedIn ms) (current.filter Run.isUncut) tales latest) := by
  have unbegun : ∀ i, (Site.create name settings driver hub wall picks).pool.runAt i = none :=
    fun _ => rfl
  rw [Path.reckoned_goneIn]
  refine ⟨(path.passes wellFormed).2, ?_, fun one calm => ?_⟩
  · refine (path.announced fun i r runs => ?_).2
    rw [unbegun i] at runs
    cases runs
  · obtain ⟨ds, changes, reckoned, told, finished, uncut⟩ := path.deeds
    have bound : settings.worker.bound = 1 := Nat.max_eq_right one
    obtain ⟨current, solo, tales, latest, story⟩ :=
      (Chronicle.nil settings.job).of_solo (.idle unbegun) (Pool.sound_create name settings) bound
        rfl changes (uncut calm)
    rw [List.nil_append, reckoned, told, finished] at story
    exact ⟨current, tales, latest, solo, story⟩

namespace Sample

/-- The only worker is asked to stop in the middle of a job, the pool is stopped and started
again, and meanwhile a waiting job is dropped: the worker gets a new loop, which takes the last
job. -/
def relieveLoop : List Move :=
  [.start, .dispatch quickJob, .task (.loop 0), .dispatch { quickJob with id := 1 }, .clear,
    .stopWorker 0, .beginStop, .start, .dispatch { quickJob with id := 2 }, .task (.loop 0),
    .task (.loop 0), .spawnWorkers, .task (.loop 1)]

end Sample

open Sample

theorem started_in_order_relieving :
    ((Path.goneIn (oneWorker.trail relieveLoop)).map fun x => (x.1.id, x.2)) =
      [(0, true), (1, false), (2, true)] ∧
    ((Path.toldIn (oneWorker.trail relieveLoop)).filter (·.isBefore)).length = 2 ∧
    ∃ (r : Run) (tales : List Tale) (latest : List Event),
      (oneWorker.plays relieveLoop).pool.runAt 1 = some r ∧
      Path.toldIn (oneWorker.trail relieveLoop) = tales.flatMap (·.events) ++ latest ∧
      tales.map (·.job.id) = [0] ∧ [r.job.id] = [2] := by
  have path := Site.path_of_plays relieveLoop oneWorker (by decide +kernel)
  have wellFormed : (Driver.memory {} : Driver Job).WellFormed := trivial
  obtain ⟨-, announced, serial⟩ := started_in_order wellFormed path
  obtain ⟨current, tales, latest, solo, story⟩ := serial (by decide) (by decide +kernel)
  obtain ⟨r, runs⟩ : ∃ r, (oneWorker.plays relieveLoop).pool.runAt 1 = some r := ⟨_, rfl⟩
  obtain ⟨rfl, -⟩ := solo.of_runs runs
  have uncut : ((oneWorker.plays relieveLoop).pool.runAt 1).all Run.isUncut = true := by
    decide +kernel
  rw [runs, Option.all_some] at uncut
  rw [Option.filter_some_pos uncut] at story
  have taken : (((Path.goneIn (oneWorker.trail relieveLoop)).filter (·.2)).map (·.1)).map Job.id =
      [0] ++ [2] := by decide +kernel
  rw [story.taken, List.map_append, List.map_map] at taken
  obtain ⟨told, inHand⟩ := List.append_inj' taken rfl
  refine ⟨by decide +kernel, ?_, r, tales, latest, runs, story.told, told, inHand⟩
  rw [announced]
  decide +kernel

namespace Sample

/-- Two jobs are accepted, and two workers take them. -/
def loseFirstOfTwo : List Move :=
  [.start, .dispatch maxLimitJob, .dispatch quickJob, .task (.loop 0), .task (.loop 0),
    .task (.loop 1)]

end Sample

/-- The clock cannot tell the deadline of the first job: it is accepted and taken before the second,
and only the second is announced. -/
theorem announcement_lost_to_clock :
    Path plainPool (plainPool.trail loseFirstOfTwo) (plainPool.plays loseFirstOfTwo) ∧
      (∀ x ∈ plainPool.trail loseFirstOfTwo, x.1.Calm x.2) ∧
      (∀ x ∈ plainPool.trail loseFirstOfTwo, x.1.removedBy x.2 = []) ∧
      Path.acceptedIn (plainPool.trail loseFirstOfTwo) = [maxLimitJob, quickJob] ∧
      (Path.goneIn (plainPool.trail loseFirstOfTwo)).map (·.1) = [maxLimitJob, quickJob] ∧
      (Path.toldIn (plainPool.trail loseFirstOfTwo)).filter (·.isBefore) = [.before quickJob] ∧
      (plainPool.plays loseFirstOfTwo).step (.loop 0) = none := by
  refine ⟨Site.path_of_plays loseFirstOfTwo plainPool (by decide +kernel), by decide +kernel, ?_,
    rfl, rfl, rfl, rfl⟩
  rintro x hx
  simp only [loseFirstOfTwo, Site.trail, List.mem_cons, List.not_mem_nil, or_false] at hx
  rcases hx with rfl | rfl | rfl | rfl | rfl | rfl <;> rfl

end JobPool
