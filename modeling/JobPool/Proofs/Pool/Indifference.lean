/-
JobPool.Proofs.Pool.Indifference — listeners have no say in what is run.

An event goes out to the bus, and nothing comes back but the panic of a listener that
cannot be made. So of two pools that differ in their buses and journals only, each does
what the other does, whatever is done to the two buses on the way. Most functions of a
pool do not look at the bus (`Site.move_onBus`); a step that publishes changes the rest
of the site in a way that depends on the rest alone (`Site.move_mute`). That is what
`Watched.Unwinds` asks for.

  §1 A pool on another bus
  §2 What listeners hear
  §3 Listeners that can be made
  §4 Buses make no difference
-/
import JobPool.Proofs.Pool.Containment
import JobPool.Proofs.Run.Beats

namespace JobPool

/-! ## §1 A pool on another bus -/

/-- True of an operation on the bus. -/
def Move.isBus : Move → Bool
  | bus _ => true
  | _ => false

/-- True of a step that may publish an event: one of a loop or of a forwarder. -/
def Move.mayTell : Move → Bool
  | task (.loop _) | task (.forwarder _) => true
  | _ => false

namespace Site

/-- The site on another bus, with another journal. -/
def onBus (s : Site) (bus : ScriptBus) (journal : Journal) : Site :=
  { s with hub := { s.hub with bus, journal } }

section

variable (s : Site) (bus : ScriptBus) (journal : Journal)

@[simp]
theorem pool_onBus : (s.onBus bus journal).pool = s.pool := rfl

@[simp]
theorem driver_onBus : (s.onBus bus journal).driver = s.driver := rfl

@[simp]
theorem wall_onBus : (s.onBus bus journal).wall = s.wall := rfl

@[simp]
theorem now_onBus : (s.onBus bus journal).now = s.now := rfl

@[simp]
theorem withPool_onBus (pool : Pool) :
    (s.onBus bus journal).withPool pool = (s.withPool pool).onBus bus journal := rfl

theorem spawnWorkers_onBus :
    (s.onBus bus journal).spawnWorkers =
      (s.spawnWorkers.1, s.spawnWorkers.2.onBus bus journal) := by
  by_cases running : s.pool.status = .running <;> simp [spawnWorkers, running]

theorem finishJob_onBus (i : LoopId) (l : Loop) (success : Bool) :
    (s.onBus bus journal).finishJob i l success =
      (s.finishJob i l success).onBus bus journal := by
  simp only [finishJob, endLoop, apply_ite fun s : Site => s.onBus bus journal]
  rfl

theorem releaseStopped_onBus (w : WorkerId) :
    (s.onBus bus journal).releaseStopped w =
      ((s.releaseStopped w).1, (s.releaseStopped w).2.onBus bus journal) := by
  by_cases stopped : w ∈ s.pool.registry ∧ s.pool.check (·.isStopped) w = true
  · simp only [releaseStopped, pool_onBus, wall_onBus, stopped]
    rfl
  · simp only [releaseStopped, pool_onBus, stopped]
    rfl

theorem checkWorker_onBus (w : WorkerId) :
    (s.onBus bus journal).checkWorker w =
      ((s.checkWorker w).1, (s.checkWorker w).2.onBus bus journal) := by
  rw [checkWorker, checkWorker, pool_onBus, wall_onBus]
  cases found : s.pool.workers[w]? with
  | none => rfl
  | some k =>
    by_cases idle : (k.idleFor s.wall).any (s.pool.settings.worker.maxIdleTime.nanos < ·) = true
    · simp only [idle, if_true]
      rfl
    · simp only [idle]
      rfl

theorem stepWatcher_onBus (u : UpkeepId) :
    (s.onBus bus journal).stepWatcher u =
      (s.stepWatcher u).map fun s' => s'.onBus bus journal := by
  cases found : s.pool.upkeeps[u]? with
  | none => simp [stepWatcher, found]
  | some k =>
    rw [stepWatcher, stepWatcher, pool_onBus, driver_onBus, now_onBus, found]
    simp only [Option.bind_some, Option.bind_eq_bind, spawnWorkers_onBus, releaseStopped_onBus]
    cases k.watcher with
    | fresh => rfl
    | ticking ticker =>
      simp only [apply_ite (Option.map _)]
      rfl
    | reaping ticker unchecked verdicts =>
      rcases verdicts with _ | ⟨⟨w, release⟩, verdicts⟩
      · cases unchecked with
        | cons v unchecked => rfl
        | nil =>
          by_cases waits : 0 < s.driver.pending
          · simp only [waits, if_true]
            rfl
          · simp only [waits]
            rfl
      · cases release with
        | false => rfl
        | true =>
          simp only [if_true]
          rcases s.releaseStopped w with ⟨_ | loop, s'⟩ <;> rfl
    | releasing ticker loop unchecked verdicts =>
      simp only [apply_ite (Option.map _)]
      rfl
    | ended => rfl

theorem stepCheck_onBus (u : UpkeepId) (w : WorkerId) :
    (s.onBus bus journal).stepCheck u w =
      (s.stepCheck u w).map fun s' => s'.onBus bus journal := by
  cases found : s.pool.upkeeps[u]? with
  | none => simp [stepCheck, found]
  | some k =>
    simp only [stepCheck, pool_onBus, found, Option.bind_some, Option.bind_eq_bind,
      checkWorker_onBus]
    cases k.watcher <;> simp only [apply_ite (Option.map _)] <;> rfl

theorem stepCall_onBus (c : CallId) :
    (s.onBus bus journal).stepCall c =
      (s.stepCall c).map fun s' => s'.onBus bus journal := by
  cases found : s.pool.calls[c]? with
  | none => simp [stepCall, found]
  | some call =>
    simp only [stepCall, pool_onBus, found, Option.bind_some, Option.bind_eq_bind]
    cases call <;> simp only [apply_ite (Option.map _)] <;> rfl

theorem start_onBus :
    (s.onBus bus journal).start = (s.start.1, s.start.2.onBus bus journal) := by
  cases status : s.pool.status with
  | released | running => simp only [start, pool_onBus, status]
  | pending | stopped =>
    simp only [start, pool_onBus, wall_onBus, status, withPool_onBus, spawnWorkers_onBus]

theorem beginStop_onBus :
    (s.onBus bus journal).beginStop = (s.beginStop.1, s.beginStop.2.onBus bus journal) := by
  by_cases running : s.pool.status = .running
  · simp only [beginStop, pool_onBus, wall_onBus, running, if_true, withPool_onBus]
  · simp only [beginStop, pool_onBus, running, if_false]

theorem beginRelease_onBus :
    (s.onBus bus journal).beginRelease =
      (s.beginRelease.1, s.beginRelease.2.onBus bus journal) := by
  by_cases released : s.pool.status = .released
  · simp only [beginRelease, pool_onBus, released, if_true]
  · simp only [beginRelease, pool_onBus, released, if_false]
    rfl

theorem dispatch_onBus (job : Job) :
    (s.onBus bus journal).dispatch job =
      ((s.dispatch job).1, (s.dispatch job).2.onBus bus journal) := by
  rw [dispatch, dispatch, pool_onBus, driver_onBus]
  cases s.pool.status with
  | stopped | released => rfl
  | pending =>
    rcases s.driver.enqueue job with ⟨_ | _, driver⟩ <;> simp only [reduceCtorEq, if_false] <;> rfl
  | running =>
    rcases s.driver.enqueue job with ⟨_ | _, driver⟩
    · rfl
    · have grows :=
        spawnWorkers_onBus ({ s with driver }.withPool s.pool.notifyAll) bus journal
      simp only [if_true]
      exact congrArg (fun grown => (true, grown.2)) grows

/-- Moves that publish nothing do not look at the bus. -/
theorem move_onBus {m : Move} (silent : m.mayTell = false) (unbussed : m.isBus = false) :
    (s.onBus bus journal).move m = (s.move m).map fun s' => s'.onBus bus journal := by
  cases m with
  | task t =>
    cases t with
    | loop i | forwarder u => cases silent
    | watcher u => exact s.stepWatcher_onBus bus journal u
    | check u w => exact s.stepCheck_onBus bus journal u w
    | call c => exact s.stepCall_onBus bus journal c
  | start => exact congrArg (fun x => some x.2) (s.start_onBus bus journal)
  | beginStop => exact congrArg (fun x => some x.2) (s.beginStop_onBus bus journal)
  | beginRelease => exact congrArg (fun x => some x.2) (s.beginRelease_onBus bus journal)
  | spawnWorkers => exact congrArg (fun x => some x.2) (s.spawnWorkers_onBus bus journal)
  | dispatch job => exact congrArg (fun x => some x.2) (s.dispatch_onBus bus journal job)
  | bus op => cases unbussed
  | _ => rfl

end

/-! ## §2 What listeners hear -/

/-- The site without what concerns listeners: the topics and the journal are left out. -/
abbrev mute (s : Site) : Site := s.onBus {} #[]

variable {s t : Site}

/-- Nobody is there who could panic. -/
theorem isCalm_mute (s : Site) (topic : String) : s.mute.hub.bus.IsCalm topic := by
  intro chain found
  cases found

theorem mute_stepRun {i : LoopId} {run : Run}
    (calm : ∀ t ∈ run.turn s.picks s.now s.pool.tokens, ∀ ev ∈ t.event,
      s.hub.bus.IsCalm ev.topic) :
    (s.stepRun i run).map mute =
      (run.turn s.picks s.now s.pool.tokens).map fun t =>
        s.mute.withPool (({ s.pool with
          tokens := t.tokens, begun := s.pool.begun ++ t.begun.toList } : Pool).setPhase i
            (.running t.next)) := by
  have turns : run.turn s.stage.picks s.stage.hub.now s.stage.tokens =
      run.turn s.picks s.now s.pool.tokens := rfl
  rw [stepRun, Run.step, turns]
  cases found : run.turn s.picks s.now s.pool.tokens with
  | none => rfl
  | some t =>
    have goes : (s.stage.play t).2 = t.next := Stage.play_run_of_isCalm (calm t found)
    obtain ⟨tokens, begun, now, -⟩ := s.stage.play_stage t
    simp only [Option.map_some, goes, withStage, withPool, mute, onBus, tokens, begun, now]
    rfl

theorem stepRun_mute {i : LoopId} {run : Run}
    (calm : ∀ t ∈ run.turn s.picks s.now s.pool.tokens, ∀ ev ∈ t.event,
      s.hub.bus.IsCalm ev.topic) :
    (s.stepRun i run).map mute = (s.mute.stepRun i run).map mute := by
  rw [mute_stepRun calm, mute_stepRun fun t _ ev _ => s.isCalm_mute ev.topic]
  rfl

theorem takeUp_mute {i : LoopId} {l : Loop} {job : Job}
    (calm : s.onClock job = true → s.hub.bus.IsCalm (Event.before job).topic) :
    (s.takeUp i l job).mute = (s.mute.takeUp i l job).mute := by
  let run := Run.start job s.pool.settings.job s.now
  let up := s.withPool ((s.pool.modifyWorker l.worker (·.take)).setPhase i (.running run))
  have same : (up.stepRun i run).map mute = (up.mute.stepRun i run).map mute := by
    refine stepRun_mute fun t turn ev told => ?_
    cases onClock : s.onClock job with
    | false => exact absurd (Run.phase_start_of_offClock onClock) (Run.uncut_of_turn turn)
    | true =>
      have opening : run.phase = .opening := Run.phase_start_of_onClock onClock
      simp only [Run.turn, opening] at turn
      cases turn
      cases told
      exact calm onClock
  show ((up.stepRun i run).getD up).mute = ((up.mute.stepRun i run).getD up.mute).mute
  rw [← Option.getD_map mute, ← Option.getD_map mute, same]
  rfl

theorem look_mute {i : LoopId} {l : Loop}
    (calm : ∀ job, s.pool.mayTake l = true → s.driver.dequeue.1 = some job →
      s.onClock job = true → s.hub.bus.IsCalm (Event.before job).topic) :
    (s.look i l).mute = (s.mute.look i l).mute := by
  cases mayTake : s.pool.mayTake l with
  | false =>
    simp only [look, pool_onBus, mayTake]
    rfl
  | true =>
    rcases oldest : s.driver.dequeue with ⟨none | job, driver⟩
    · simp only [look, pool_onBus, driver_onBus, mayTake, oldest, if_true]
      rfl
    · have quiet := calm job mayTake (by rw [oldest])
      have same := takeUp_mute (s := { s with driver }) (i := i) (l := l) quiet
      simp only [look, pool_onBus, driver_onBus, mayTake, oldest, if_true]
      exact same

theorem stepLoop_mute {i : LoopId} (calm : s.Calm (.task (.loop i))) :
    (s.stepLoop i).map mute = (s.mute.stepLoop i).map mute := by
  have calm : ∀ ev ∈ s.publishes (.loop i), s.hub.bus.IsCalm ev.topic := calm _ rfl
  cases found : s.pool.loops[i]? with
  | none => simp [stepLoop, found]
  | some l =>
    simp only [stepLoop, pool_onBus, found, Option.bind_some, Option.bind_eq_bind]
    cases phase : l.phase with
    | looking =>
      have told : ∀ job, s.pool.mayTake l = true → s.driver.dequeue.1 = some job →
          s.onClock job = true → s.hub.bus.IsCalm (Event.before job).topic := by
        intro job mayTake oldest onClock
        refine calm (.before job) ?_
        simp [publishes, takes, found, phase, mayTake, oldest, onClock]
      exact congrArg some (look_mute told)
    | running run =>
      have told : ∀ t ∈ run.turn s.picks s.now s.pool.tokens, ∀ ev ∈ t.event,
          s.hub.bus.IsCalm ev.topic := by
        intro t turn ev published
        refine calm ev ?_
        simp only [publishes, found, phase, Option.map_some, Option.mem_def.1 turn,
          Option.bind_some]
        exact published
      cases stands : run.phase with
      | finished success =>
        simp only [stands, finishJob_onBus]
        rfl
      | unwound =>
        simp only [stands]
        rfl
      | _ =>
        simp only [stands]
        exact stepRun_mute told
    | parked notified wake =>
      by_cases cancelled : s.pool.tokens.isCancelled l.token = true
      · simp only [cancelled, if_true]
        rfl
      · by_cases due : notified = true ∨ wake ≤ s.now
        · simp only [cancelled, now_onBus, due, if_true]
          rfl
        · simp only [cancelled, if_false, now_onBus, due]
          rfl
    | _ => rfl

theorem publishProgress_mute {u : UpkeepId} {p : Progress} {next : Forwarder}
    (calm : s.hub.bus.IsCalm (Event.progress p).topic) :
    (s.publishProgress u p next).mute = (s.mute.publishProgress u p next).mute := by
  have keeps : ∀ t : Site, t.hub.bus.IsCalm (Event.progress p).topic →
      (t.publishProgress u p next).mute = t.mute.setForwarder u next := by
    intro t calm
    have delivered := Hub.publish_of_isCalm calm
    have now := t.hub.now_publish (.progress p)
    unfold publishProgress
    split
    · rename_i hub published
      have now : hub.now = t.hub.now := by
        rw [published] at now
        exact now
      simp only [setForwarder, withPool, mute, onBus, now]
    · rename_i published
      rw [published] at delivered
      cases delivered
  exact (keeps s calm).trans (keeps s.mute (s.isCalm_mute _)).symm

theorem stepForwarder_mute {u : UpkeepId} (calm : s.Calm (.task (.forwarder u))) :
    (s.stepForwarder u).map mute = (s.mute.stepForwarder u).map mute := by
  have calm : ∀ ev ∈ s.publishes (.forwarder u), s.hub.bus.IsCalm ev.topic := calm _ rfl
  cases found : s.pool.upkeeps[u]? with
  | none => simp [stepForwarder, found]
  | some k =>
    simp only [publishes, found] at calm
    simp only [stepForwarder, pool_onBus, driver_onBus, now_onBus, found, Option.bind_some,
      Option.bind_eq_bind]
    cases stands : k.forwarder with
    | fresh => cases s.driver.channel? <;> rfl
    | watching receiver =>
      dsimp only
      by_cases cancelled : s.pool.tokens.isCancelled k.token = true
      · simp only [cancelled, if_true]
        rfl
      · simp only [cancelled]
        cases channel : s.driver.channel? with
        | none => rfl
        | some c =>
          by_cases changed : c.hasChanged receiver = true
          · simp only [changed, if_true]
            have told := calm (.progress (c.update receiver).1)
              (by simp [stands, cancelled, channel, changed])
            exact congrArg some (publishProgress_mute told)
          · simp only [changed]
            rfl
    | polling last ticker =>
      dsimp only
      by_cases cancelled : s.pool.tokens.isCancelled k.token = true
      · simp only [cancelled, if_true]
        rfl
      · simp only [cancelled]
        by_cases due : ticker.isDue s.now = true
        · by_cases same : s.driver.progress = last
          · simp only [due, if_true, same]
            rfl
          · simp only [due, if_true, same, if_false]
            have told := calm (.progress s.driver.progress)
              (by simp [stands, cancelled, due, same])
            exact congrArg some (publishProgress_mute told)
        · simp only [due]
          rfl
    | _ => rfl

/-- What a move does does not depend on the bus. -/
theorem move_mute {m : Move} (calm : s.Calm m) (unbussed : m.isBus = false) :
    (s.move m).map mute = (s.mute.move m).map mute := by
  cases silent : m.mayTell with
  | false =>
    rw [mute, s.move_onBus {} #[] silent unbussed, Option.map_map]
    rfl
  | true =>
    cases m with
    | task t =>
      cases t with
      | loop i => exact stepLoop_mute calm
      | forwarder u => exact stepForwarder_mute calm
      | _ => cases silent
    | _ => cases silent

/-- Sites that look alike agree on which moves can be made, and on what they come to. -/
theorem move_of_mute_eq {m : Move} (alike : s.mute = t.mute) (calm : s.Calm m) (calm' : t.Calm m)
    (unbussed : m.isBus = false) : (s.move m).map mute = (t.move m).map mute := by
  rw [move_mute calm unbussed, move_mute calm' unbussed, alike]

/-- Sites, seen by somebody who does not see the bus. A move that cannot be made is left
out. -/
def watched : Watched Site Move Site := ⟨fun s m => (s.move m).getD s, mute, Move.isBus⟩

/-- The moves other than those of the bus, and what the site looks like before each. -/
def seen (s : Site) (ms : List Move) : List (Site × Move) := watched.seen s ms

theorem trail_eq_watched (s : Site) (ms : List Move) : s.trail ms = watched.trail s ms := by
  induction ms generalizing s with
  | nil => rfl
  | cons m ms ih =>
    rw [trail, ih]
    rfl

theorem plays_eq_watched (s : Site) (ms : List Move) : s.plays ms = watched.after s ms := by
  induction ms generalizing s with
  | nil => rfl
  | cons m ms ih =>
    rw [plays, ih]
    rfl

theorem unwinds : watched.Unwinds Calm where
  hidden s m hidden := by
    cases m with
    | bus op =>
      show Site.mute { s with hub := (s.hub.perform op).2 } = s.mute
      simp only [mute, onBus, s.hub.now_perform op]
    | _ => cases hidden
  visible s t m seen calm calm' alike := by
    have alike : s.mute = t.mute := alike
    have after := congrArg (·.getD s.mute) (move_of_mute_eq alike calm calm' seen)
    rw [Option.getD_map, alike, Option.getD_map] at after
    exact after

end Site

/-! ## §3 Listeners that can be made -/

namespace Site

variable {s s' : Site}

theorem isMild_stepRun (mild : s.hub.bus.IsMild) {i : LoopId} {run : Run}
    (h : s.stepRun i run = some s') : s'.hub.bus.IsMild := by
  obtain ⟨⟨stage, run'⟩, stepped, rfl⟩ := Option.map_eq_some_iff.1 h
  obtain ⟨t, -, played⟩ := Option.map_eq_some_iff.1 stepped
  have after := Stage.isMild_play (s := s.stage) mild t
  rw [played] at after
  exact after

theorem isMild_stepLoop (mild : s.hub.bus.IsMild) {i : LoopId} (h : s.stepLoop i = some s') :
    s'.hub.bus.IsMild := by
  obtain ⟨l, -, cycles⟩ := cycles_of_stepLoop h
  cases cycles with
  | begins _ _ _ _ announces => exact isMild_stepRun (s := s.inHand ..) mild announces
  | runs _ goes => exact isMild_stepRun mild goes
  | _ => exact mild

theorem isMild_publishProgress (mild : s.hub.bus.IsMild) (u : UpkeepId) (p : Progress)
    (next : Forwarder) : (s.publishProgress u p next).hub.bus.IsMild := by
  have after := Hub.isMild_publish mild (.progress p)
  unfold publishProgress
  split
  all_goals
    rename_i published
    rw [published] at after
    exact after

theorem isMild_stepForwarder (mild : s.hub.bus.IsMild) {u : UpkeepId}
    (h : s.stepForwarder u = some s') : s'.hub.bus.IsMild := by
  obtain ⟨k, -, reports⟩ := reports_of_stepForwarder h
  cases reports with
  | tells | finds => exact isMild_publishProgress mild _ _ _
  | _ => exact mild

theorem isMild_move (mild : s.hub.bus.IsMild) {m : Move}
    (mildly : ∀ op, m = .bus op → op.IsMild) (moved : s.move m = some s') :
    s'.hub.bus.IsMild := by
  cases bussed : m.isBus with
  | true =>
    cases m with
    | bus op =>
      obtain rfl := Option.some.inj moved
      exact Hub.isMild_perform mild (mildly op rfl)
    | _ => cases bussed
  | false =>
    cases silent : m.mayTell with
    | false =>
      -- A move that does not look at the bus leaves its own in place.
      have same := s.move_onBus s.hub.bus s.hub.journal silent bussed
      have own : s.onBus s.hub.bus s.hub.journal = s := rfl
      rw [own, moved, Option.map_some] at same
      rw [Option.some.inj same]
      exact mild
    | true =>
      cases m with
      | task t =>
        cases t with
        | loop i => exact isMild_stepLoop mild moved
        | forwarder u => exact isMild_stepForwarder mild moved
        | _ => cases silent
      | _ => cases silent

/-- On a bus whose listeners can be made every move is calm. -/
theorem calm_of_isMild {ms : List Move} (mild : s.hub.bus.IsMild)
    (mildly : ∀ op, Move.bus op ∈ ms → op.IsMild) : ∀ x ∈ s.trail ms, x.1.Calm x.2 := by
  induction ms generalizing s with
  | nil =>
    intro x hx
    cases hx
  | cons m ms ih =>
    intro x hx
    rcases List.mem_cons.1 hx with rfl | hx
    · exact fun _ _ ev _ => mild.isCalm ev.topic
    · refine ih ?_ (fun op hop => mildly op (List.mem_cons_of_mem _ hop)) x hx
      cases moved : s.move m with
      | none => exact mild
      | some s' => exact isMild_move mild (fun op hop => mildly op (hop ▸ List.mem_cons_self)) moved

end Site

/-! ## §4 Buses make no difference -/

theorem Path.isSome_move {start s : Site} {ms : List (Site × Move)} (path : Path start ms s) :
    ∀ x ∈ ms, (x.1.move x.2).isSome = true := by
  induction path with
  | here => simp
  | step m path moved ih =>
    intro x hx
    rcases List.mem_append.1 hx with old | new
    · exact ih x old
    · rw [List.mem_singleton.1 new, moved]
      rfl

/-- Where sites look alike from move to move, moves that can be made on one bus can be made
on the other. -/
theorem Path.on_other_bus {s t : Site} {ms ns : List Move} (seen : s.seen ms = t.seen ns)
    (calm : ∀ x ∈ s.trail ms, x.1.Calm x.2) (calm' : ∀ x ∈ t.trail ns, x.1.Calm x.2)
    (path : Path s (s.trail ms) (s.plays ms)) : Path t (t.trail ns) (t.plays ns) := by
  refine Site.path_of_plays ns t (List.all_eq_true.2 fun x hx => ?_)
  obtain ⟨t', m⟩ := x
  cases bussed : m.isBus with
  | true =>
    cases m with
    | bus op => rfl
    | _ => cases bussed
  | false =>
    have there : (t'.mute, m) ∈ t.seen ns := by
      rw [t.trail_eq_watched] at hx
      exact List.mem_map.2 ⟨(t', m), List.mem_filter.2 ⟨hx, by simp [Site.watched, bussed]⟩, rfl⟩
    rw [← seen] at there
    obtain ⟨⟨s', m'⟩, here, same⟩ := List.mem_map.1 there
    obtain ⟨alike, rfl⟩ := Prod.mk.inj same
    have mem : (s', m') ∈ s.trail ms := by
      rw [s.trail_eq_watched]
      exact (List.mem_filter.1 here).1
    have moves := Site.move_of_mute_eq alike (calm _ mem) (calm' _ hx) bussed
    have able := path.isSome_move _ mem
    rw [← Option.isSome_map (f := Site.mute), moves, Option.isSome_map] at able
    exact able

/-- A run does the same on any two buses, and so does a pool, if no listener panics while it is
made: the same turns are taken at the same times, attempts with the same tokens, events and
back-offs included, and between two moves a pool has the same workers, counts and clocks. The
second run may come with other uses of its bus between the beats, and the second pool with other
operations on its bus between the moves. What else links do makes no difference: a topic may be
missing, a link may answer that the delivery is to end, or panic when it handles an event. A bus
whose links can be made and attach such links only is as is asked for, at any time. -/
theorem listeners_have_no_say :
    (∀ (x y : Run.Scene) (bs cs : List Run.Beat), x.mute = y.mute →
      (bs.filter fun b => !b.isBus) = (cs.filter fun b => !b.isBus) →
      (∀ z ∈ x.trail bs, z.1.Calm z.2) → (∀ z ∈ y.trail cs, z.1.Calm z.2) →
        x.takes bs = y.takes cs ∧ x.seen bs = y.seen cs ∧
          (x.plays bs).mute = (y.plays cs).mute) ∧
    (∀ (s t : Site) (ms ns : List Move), s.mute = t.mute →
      (ms.filter fun m => !m.isBus) = (ns.filter fun m => !m.isBus) →
      (∀ z ∈ s.trail ms, z.1.Calm z.2) → (∀ z ∈ t.trail ns, z.1.Calm z.2) →
        s.seen ms = t.seen ns ∧ (s.plays ms).mute = (t.plays ns).mute ∧
          (Path s (s.trail ms) (s.plays ms) → Path t (t.trail ns) (t.plays ns))) ∧
    (∀ (x : Run.Scene) (bs : List Run.Beat), x.stage.hub.bus.IsMild → (∀ b ∈ bs, b.IsMild) →
      ∀ z ∈ x.trail bs, z.1.Calm z.2) ∧
    ∀ (s : Site) (ms : List Move), s.hub.bus.IsMild → (∀ op, Move.bus op ∈ ms → op.IsMild) →
      ∀ z ∈ s.trail ms, z.1.Calm z.2 := by
  refine ⟨?_, ?_, fun x bs => Run.Scene.calm_of_isMild, fun s ms => Site.calm_of_isMild⟩
  · intro x y bs cs alike same calm calm'
    obtain ⟨seen, after⟩ := Run.Scene.unwinds.seen_eq alike same calm calm'
    refine ⟨?_, seen, after⟩
    rw [x.takes_eq_seen, y.takes_eq_seen]
    exact congrArg _ seen
  · intro s t ms ns alike same calm calm'
    have both := Site.unwinds.seen_eq alike same (fun x hx => calm x (s.trail_eq_watched ms ▸ hx))
      fun x hx => calm' x (t.trail_eq_watched ns ▸ hx)
    rw [← s.plays_eq_watched, ← t.plays_eq_watched] at both
    exact ⟨both.1, both.2, Path.on_other_bus both.1 calm calm'⟩

namespace Sample

/-- A link that ends every delivery. -/
def vetoLink : Action := .mk "vetoing" false none [] none []

/-- A hub on which no link hears of a job that begins but the first, and a link panics
whenever a job has succeeded. -/
def vetoHub : Hub :=
  let bus := (Bus.empty.ensureLifecycle.onTopic Topic.beforeHandle (.script vetoLink)).2
  { bus := (bus.listen Topic.afterHandle panickingLink).2 }

theorem isMild_vetoHub : vetoHub.bus.IsMild := by
  have veto : Clause.IsMild (.script vetoLink) := by
    rintro a same
    obtain rfl := Clause.script.inj same
    exact ⟨rfl, List.forall_mem_nil _, List.forall_mem_nil _⟩
  have grumble : panickingLink.IsMild := ⟨rfl, List.forall_mem_nil _, List.forall_mem_nil _⟩
  exact (ScriptBus.isMild_empty.ensureLifecycle.onTopic _ veto).listen _ grumble

/-- A pool that publishes to it, and what is done there. -/
def vetoHubPool : Site := .create "veto hub" {} (.memory {}) vetoHub 0 .least

def runOneJob : List Move :=
  [.dispatch quickJob, .start, .task (.loop 0), .task (.loop 0), .task (.loop 0)]

end Sample

open Sample

/-- On a bus without topics, which is looked at in between, the same comes about. -/
theorem listeners_have_no_say_objecting :
    (Run.Scene.takes ⟨{ hub := vetoHub }, .start quickJob {} 0⟩ [.turn, .turn] =
        Run.Scene.takes ⟨{}, .start quickJob {} 0⟩ [.turn, .bus {} #[], .turn] ∧
      (Run.Scene.takes ⟨{}, .start quickJob {} 0⟩ [.turn, .bus {} #[], .turn]).length = 2) ∧
    vetoHubPool.seen runOneJob = vetoHubPool.mute.seen (.bus .names :: runOneJob) ∧
    Path vetoHubPool.mute (vetoHubPool.mute.trail (.bus .names :: runOneJob))
      (vetoHubPool.mute.plays (.bus .names :: runOneJob)) ∧
    (vetoHubPool.plays runOneJob).hub.called = ["vetoing", "made grumbling", "grumbling"] ∧
    (vetoHubPool.mute.plays (.bus .names :: runOneJob)).driver.progress.success = 1 := by
  obtain ⟨runs, pools, calmly, calm⟩ := listeners_have_no_say
  constructor
  · obtain ⟨takes, -, -⟩ := runs ⟨{ hub := vetoHub }, .start quickJob {} 0⟩
      ⟨{}, .start quickJob {} 0⟩ [.turn, .turn] [.turn, .bus {} #[], .turn] rfl rfl
      (calmly _ _ isMild_vetoHub (by simp [Run.Beat.IsMild]))
      (calmly _ _ ScriptBus.isMild_empty (by simp [Run.Beat.IsMild, ScriptBus.isMild_empty]))
    exact ⟨takes, rfl⟩
  · obtain ⟨seen, -, path⟩ := pools vetoHubPool vetoHubPool.mute runOneJob
      (.bus .names :: runOneJob) rfl rfl
      (calm _ _ isMild_vetoHub.ensureLifecycle (by simp [runOneJob]))
      (calm _ _ ScriptBus.isMild_empty (by simp [runOneJob, BusOp.IsMild, BusOp.attached]))
    have came := Site.path_of_plays runOneJob vetoHubPool (by decide +kernel)
    exact ⟨seen, path came, by decide +kernel, by decide +kernel⟩

end JobPool
