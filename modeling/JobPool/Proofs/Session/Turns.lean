/-
JobPool.Proofs.Session.Turns — what a console is told comes about in turns.

A session lets the tasks of a world go on in one order out of many, and lets time pass when none
of them can. Whatever it does is a row of turns of the world in which tasks step (`Works`), so
what holds after any turns holds after it. A command on a console adds the moves by which it
takes effect, and a pool that a manager takes in gets its name (`Leads`). The worlds of a console
have therefore lived, and the invariants of pools hold in all of them. The same goes for the
trial of a single job.

  §1 Worlds
  §2 Sessions
  §3 Consoles
  §4 Trials
-/
import JobPool.Proofs.Manager.Lifting
import JobPool.Session.Trial

namespace JobPool
namespace World

variable {w w' w'' : World} {i : PoolId} {t : PoolTask} {ls : List Label}

/-! ## §1 Worlds -/

/-- From one world to another by turns in which tasks step or time passes. -/
def Works (w w' : World) : Prop :=
  ∃ ls, w.Turns ls w' ∧ ∀ x, some x ∈ ls → ∃ t, x.2 = Move.task t

/-- From one world to another by turns, and by giving names to pools. -/
inductive Leads (start : World) : World → Prop where
  | here : Leads start start
  | turn {w w' : World} {l : Label} (leads : Leads start w) (turn : w.Turn l w') : Leads start w'
  | renamed {w : World} (leads : Leads start w) (i : PoolId) (name : String) :
      Leads start (w.rename i name)

namespace Works

theorem refl (w : World) : w.Works w := ⟨[], .here, fun _ mem => by cases mem⟩

theorem trans (first : w.Works w') (second : w'.Works w'') : w.Works w'' := by
  obtain ⟨ls, turns, tasks⟩ := first
  obtain ⟨ls', turns', tasks'⟩ := second
  refine ⟨ls ++ ls', turns.trans turns', fun x mem => ?_⟩
  rcases List.mem_append.1 mem with mem | mem
  · exact tasks x mem
  · exact tasks' x mem

/-- The clocks are set. -/
theorem clocks (w : World) (now wall : Nat) : w.Works { w with now, wall } := by
  have turn : w.Turn none { w with now, wall } := .beside rfl (Nat.le_refl _) (Nat.le_refl _)
  exact ⟨[none], turn.turns, fun _ mem => by simp at mem⟩

theorem moment (w : World) : w.Works w.moment := .clocks w w.now (w.wall + 1)

theorem step (stepped : w.step i t = some w') : w.Works w' := by
  obtain ⟨s, found, stepped⟩ := Option.bind_eq_some_iff.1 stepped
  obtain ⟨s', moved, same⟩ := Option.bind_eq_some_iff.1 stepped
  obtain rfl := Option.some.inj same
  have turn : w.Turn (some (i, .task t)) (w.putSite i s') := .move found moved
  refine ⟨[some (i, .task t)], turn.turns, fun x mem => ⟨t, ?_⟩⟩
  rw [Option.some.inj (List.mem_singleton.1 mem)]

end Works

namespace Leads

theorem trans (first : w.Leads w') (second : w'.Leads w'') : w.Leads w'' := by
  induction second with
  | here => exact first
  | turn _ turn ih => exact .turn ih turn
  | renamed _ i name ih => exact .renamed ih i name

theorem of_turn {l : Label} (turn : w.Turn l w') : w.Leads w' := .turn .here turn

theorem of_turns (turns : w.Turns ls w') : w.Leads w' := by
  induction turns with
  | here => exact .here
  | turn _ turn ih => exact .turn ih turn

theorem of_works (works : w.Works w') : w.Leads w' := by
  obtain ⟨ls, turns, -⟩ := works
  exact .of_turns turns

/-- Drivers and buses change and none of them goes away, and pools stay as they are. -/
theorem beside (members : w'.members = w.members) (drivers : w.drivers.length ≤ w'.drivers.length)
    (buses : w.buses.length ≤ w'.buses.length) : w.Leads w' :=
  .of_turn (.beside members drivers buses)

/-- What is done at a pool is one of its moves. -/
theorem atSite {α : Type} {f : Site → α × Site} {a : α}
    (isMove : ∀ s, ∃ m, s.move m = some (f s).2) (done : w.atSite i f = some (a, w')) :
    w.Leads w' := by
  obtain ⟨s, found, done⟩ := Option.bind_eq_some_iff.1 done
  obtain ⟨m, moved⟩ := isMove s
  obtain ⟨-, rfl⟩ := Prod.mk.inj (Option.some.inj done)
  exact .of_turn (.move found moved)

theorem beginAll (c : Pool.Command) : ∀ (is : List PoolId) (w : World),
    w.Leads (w.beginAll c.begin is).2
  | [], _ => .here
  | i :: is, w => by
    cases found : w.site? i with
    | none => simpa [World.beginAll, World.atSite, found] using beginAll c is w
    | some s =>
      rw [beginAll_cons found]
      exact (Leads.of_turn (.move found (c.move_eq s))).trans (beginAll c is _)

theorem startAll (is : List PoolId) (w : World) : w.Leads (w.startAll is) := by
  have begins := beginAll .start is w
  rwa [startAll_eq] at begins

/-- What lives goes on living. -/
theorem lived (leads : w.Leads w') (lived : w.Lived) : w'.Lived := by
  induction leads with
  | here => exact lived
  | turn _ turn ih => exact .goes ih turn.goes
  | renamed _ i name ih => exact .renamed ih i name

end Leads

theorem Leads.addPool (w : World) (name : String) (settings : Settings) (driver : DriverId)
    (bus : BusId) : w.Leads (w.addPool name settings driver bus).2 :=
  .of_turn (.build name settings driver bus)

end World

/-! ## §2 Sessions -/

namespace Session

open World (Works Leads)

variable {s s' : Session}

/-- The first task in the queue steps, or no task does. -/
theorem works_advance (advanced : s.advance = some s') : s.world.Works s'.world := by
  unfold advance at advanced
  split at advanced
  · cases advanced
  · dsimp only at advanced
    split at advanced <;> rename_i stepped <;> cases advanced
    · exact (Works.moment _).trans (.step stepped)
    · exact .moment _

theorem works_settleWithin : ∀ (n : Nat) (s : Session), s.world.Works (s.settleWithin n).world
  | 0, s => .refl s.world
  | n + 1, s => by
    cases advanced : s.advance with
    | none =>
      simp only [settleWithin, advanced]
      exact .refl s.world
    | some s' =>
      simp only [settleWithin, advanced]
      exact (works_advance advanced).trans (works_settleWithin n s')

theorem works_settle (s : Session) : s.world.Works s.settle.world := works_settleWithin _ s

theorem works_jump (s : Session) (t : Nat) : s.world.Works (s.jump t).world :=
  .clocks s.world t s.world.wall

theorem works_elapseWithin (target : Nat) : ∀ (n : Nat) (s : Session),
    s.world.Works (s.elapseWithin n target).world
  | 0, s => s.works_settle.trans ((works_jump _ target).trans (works_settle _))
  | n + 1, s => by
    refine s.works_settle.trans ?_
    simp only [elapseWithin]
    split
    · split
      · exact (works_jump _ _).trans (works_elapseWithin target n _)
      · exact works_jump _ target
    · exact works_jump _ target

theorem works_elapse (s : Session) (ms : Nat) : s.world.Works (s.elapse ms).world :=
  (works_elapseWithin _ ms s).trans (works_settle _)

/-- Calls go on as tasks do. -/
theorem works_stepCall (s : Session) (c : PoolId × CallId) :
    s.world.Works (s.stepCall c).world := by
  unfold stepCall
  cases stepped : s.world.moment.step c.1 (.call c.2) with
  | none => exact .refl s.world
  | some w => exact (Works.moment _).trans (.step stepped)

theorem works_stepCalls (calls : List (PoolId × CallId)) (s : Session) :
    s.world.Works (s.stepCalls calls).world := by
  have often (c : PoolId × CallId) (ns : List Nat) : ∀ s : Session,
      s.world.Works (ns.foldl (fun s _ => s.stepCall c) s).world := by
    induction ns with
    | nil => exact fun s => .refl s.world
    | cons n ns ih => exact fun s => (s.works_stepCall c).trans (ih _)
  induction calls generalizing s with
  | nil => exact .refl s.world
  | cons c calls ih => exact (often c _ s).trans (ih _)

theorem works_awaitWithin (calls : List (PoolId × CallId)) : ∀ (n : Nat) (s : Session),
    s.world.Works (s.awaitWithin n calls).world
  | 0, s => .refl s.world
  | n + 1, s => by
    refine (works_stepCalls calls s).trans ?_
    simp only [awaitWithin]
    split
    · exact .refl _
    · refine (works_settle _).trans ?_
      split
      · exact works_awaitWithin calls n _
      · split
        · exact (works_jump _ _).trans (works_awaitWithin calls n _)
        · exact .refl _

theorem works_await (calls : List (PoolId × CallId)) (s : Session) :
    s.world.Works (s.await calls).world := works_awaitWithin calls _ s

/-- While tasks go on that can, the clock stands still. -/
theorem now_settle (s : Session) : s.settle.world.now = s.world.now := by
  have putSite (w : World) (i : PoolId) (s : Site) : (w.putSite i s).now = w.now := by
    unfold World.putSite
    split <;> rfl
  have once {s s' : Session} (advanced : s.advance = some s') : s'.world.now = s.world.now := by
    unfold advance at advanced
    split at advanced
    · cases advanced
    · dsimp only at advanced
      split at advanced <;> rename_i stepped <;> cases advanced
      · obtain ⟨site, -, stepped⟩ := Option.bind_eq_some_iff.1 stepped
        obtain ⟨site', -, same⟩ := Option.bind_eq_some_iff.1 stepped
        obtain rfl := Option.some.inj same
        exact putSite _ _ _
      · rfl
  have within (n : Nat) : ∀ s : Session, (s.settleWithin n).world.now = s.world.now := by
    induction n with
    | zero => exact fun _ => rfl
    | succ n ih =>
      intro s
      cases advanced : s.advance with
      | none => simp only [settleWithin, advanced]
      | some s' =>
        simp only [settleWithin, advanced]
        exact (ih s').trans (once advanced)
  exact within _ s

/-! ### What is done in a world -/

/-- A world put in place comes a moment after the one before. -/
theorem leads_change {f : World → World} (leads : ∀ w : World, w.Leads (f w)) (s : Session) :
    s.world.Leads (s.change f).world :=
  (Leads.of_works (.moment _)).trans (leads _)

theorem leads_act {α : Type} {f : World → α × World} (leads : ∀ w : World, w.Leads (f w).2)
    (s : Session) : s.world.Leads (s.act f).2.world :=
  (Leads.of_works (.moment _)).trans (leads _)

theorem leads_atSite {α : Type} {i : PoolId} {f : Site → α × Site} {a : α}
    (isMove : ∀ s, ∃ m, s.move m = some (f s).2) (done : s.atSite i f = some (a, s')) :
    s.world.Leads s'.world := by
  obtain ⟨⟨a', w⟩, there, same⟩ := Option.map_eq_some_iff.1 done
  obtain ⟨-, rfl⟩ := Prod.mk.inj same
  exact (Leads.of_works (.moment _)).trans (.atSite isMove there)

end Session

/-! ## §3 Consoles -/

namespace Console

open World (Leads)
open Session (leads_change leads_act leads_atSite)

variable {c : Console}

theorem leads_atPool {f : Site → Response × Site} (isMove : ∀ s, ∃ m, s.move m = some (f s).2)
    (c : Console) (handle : String) : c.world.Leads (c.atPool handle f).2.world := by
  unfold atPool
  split
  · exact .here
  · split
    · rename_i done
      exact leads_atSite isMove done
    · exact .here

theorem leads_callPool {f : Site → Option CallId × Site}
    (isMove : ∀ s, ∃ m, s.move m = some (f s).2) (answer : Bool → Response) (c : Console)
    (handle : String) : c.world.Leads (c.callPool handle f answer).2.world := by
  unfold callPool
  split
  · exact .here
  · split
    · rename_i done
      exact (leads_atSite isMove done).trans (.of_works (Session.works_await _ _))
    · rename_i done
      exact leads_atSite isMove done
    · exact .here

theorem leads_atDriver (f : Driver Job → Response × Driver Job) (c : Console) (id : String) :
    c.world.Leads (c.atDriver id f).2.world := by
  unfold atDriver
  split
  · exact .here
  · split
    · exact .here
    · rename_i i _ _ d _
      have set (w : World) : w.Leads { w with drivers := w.drivers.set i (f d).2 } :=
        .beside rfl (by simp) (Nat.le_refl _)
      exact leads_change set c.session

theorem leads_abandonLost (c : Console) : c.world.Leads c.abandonLost.world := by
  unfold abandonLost
  generalize List.range c.world.members.length = is
  induction is generalizing c with
  | nil => exact .here
  | cons i is ih =>
    refine Leads.trans ?_ (ih _)
    dsimp only
    split
    · split
      · split
        · rename_i done
          exact leads_atSite (fun _ => ⟨.abandon, rfl⟩) done
        · exact .here
      · exact .here
    · exact .here

theorem leads_dispatchAll (handle : String) : ∀ (jobs : List Job) (c : Console),
    c.world.Leads (c.dispatchAll handle jobs).2.world
  | [], _ => .here
  | j :: jobs, c =>
    (leads_atPool (fun _ => ⟨.dispatch j, rfl⟩) c handle).trans (leads_dispatchAll handle jobs _)

theorem leads_build (d : Draft) (w : World) : w.Leads (d.build w).2 := by
  have driver (w : World) (d : Driver Job) : w.Leads (w.addDriver d).2 :=
    .beside rfl (by simp [World.addDriver]) (Nat.le_refl _)
  have bus (w : World) (b : ScriptBus) : w.Leads (w.addBus b).2 :=
    .beside rfl (Nat.le_refl _) (by simp [World.addBus])
  unfold Draft.build
  cases d.driver with
  | some i =>
    cases d.bus with
    | some b => exact .addPool ..
    | none => exact (bus _ _).trans (.addPool ..)
  | none =>
    cases d.bus with
    | some b => exact (driver _ _).trans (.addPool ..)
    | none => exact (driver _ _).trans ((bus _ _).trans (.addPool ..))

theorem leads_buildPool (c : Console) (handle name : String) (driver : Option String)
    (choices : List Choice) (shared : Bool) :
    c.world.Leads (c.buildPool handle name driver choices shared).world := by
  unfold buildPool
  extract_lets draft
  generalize built : c.session.act _ = r
  show c.world.Leads r.2.world
  rw [← built]
  refine leads_act (fun w => ?_) c.session
  have builds : w.Leads (draft.build w).2 := leads_build draft w
  generalize draft.build w = b at builds ⊢
  dsimp only
  split
  · exact builds
  · exact builds.trans (.beside rfl (Nat.le_refl _) (by simp))

/-- The manager gives up pools, and the calls that it began go on until they return. -/
theorem leads_released (c : Console) (manager : Manager) (calls : List (PoolId × CallId))
    {w : World} (begun : c.world.Leads w) :
    c.world.Leads
      ({ c with manager, session := c.session.adopt w }.await calls).abandonLost.world := by
  let left := { c with manager, session := c.session.adopt w }.await calls
  have awaited : w.Leads left.world := .of_works (Session.works_await calls (c.session.adopt w))
  exact begun.trans (awaited.trans left.leads_abandonLost)

/-- A command takes effect, and what it waits for comes about. -/
theorem leads_run (c : Console) (cmd : Command) : c.world.Leads (c.run cmd).2.world := by
  have moment : c.world.Leads c.world.moment := .of_works (.moment _)
  cases cmd with
  | driver id d =>
    have add (w : World) : w.Leads (w.addDriver d).2 :=
      .beside rfl (by simp [World.addDriver]) (Nat.le_refl _)
    exact leads_act add c.session
  | pool handle name driver choices shared =>
    exact (c.leads_buildPool handle name driver choices shared).trans (leads_abandonLost _)
  | create handle name driver choices =>
    simp only [run]
    split
    · exact .here
    · refine moment.trans ?_
      unfold Manager.create
      split
      · exact .here
      · exact .addPool ..
  | add name handle =>
    simp only [run]
    split
    · exact .here
    · rename_i h _
      have adds : c.world.Leads (c.manager.add c.world.moment name h.pool).2.2 := by
        refine moment.trans ?_
        unfold Manager.add
        split
        · exact .here
        · split
          · exact .here
          · exact .renamed .here h.pool name
      split <;> rename_i done <;> rw [done] at adds <;> exact adds
  | get name => exact .here
  | remove name => exact leads_abandonLost { c with manager := (c.manager.remove name).2 }
  | names => exact .here
  | startNamed name => exact leads_change (fun w => .startAll _ w) c.session
  | stopNamed name =>
    exact (leads_act (fun w => .beginAll .stop _ w) c.session).trans
      (.of_works (Session.works_await _ _))
  | releaseNamed name =>
    let begun := c.manager.beginRelease c.world.moment name
    exact c.leads_released begun.2.1 begun.1 (moment.trans (.beginAll .release _ _))
  | startAll => exact leads_change (fun w => .startAll _ w) c.session
  | stopAll =>
    exact (leads_act (fun w => .beginAll .stop _ w) c.session).trans
      (.of_works (Session.works_await _ _))
  | releaseAll =>
    let begun := c.manager.beginReleaseAll c.world.moment
    exact c.leads_released begun.2.1 begun.1 (moment.trans (.beginAll .release _ _))
  | start handle => exact leads_atPool (fun _ => ⟨.start, rfl⟩) c handle
  | stop handle => exact leads_callPool (fun _ => ⟨.beginStop, rfl⟩) _ c handle
  | release handle => exact leads_callPool (fun _ => ⟨.beginRelease, rfl⟩) _ c handle
  | spawn handle => exact leads_atPool (fun _ => ⟨.spawnWorkers, rfl⟩) c handle
  | dispatch handle jobs => exact c.leads_dispatchAll handle jobs
  | enqueue id jobs => exact c.leads_atDriver _ id
  | clear id => exact c.leads_atDriver _ id
  | take id => exact c.leads_atDriver _ id
  | complete id success => exact c.leads_atDriver _ id
  | driverProgress id => exact c.leads_atDriver _ id
  | stopWorker handle place =>
    refine leads_atPool (fun s => ?_) c handle
    cases found : s.pool.registry[place]? with
    | none => exact ⟨.pass 0 0, by simp [Site.stopWorkerAt, found]; rfl⟩
    | some w => exact ⟨.stopWorker w, by simp [Site.stopWorkerAt, found, Site.move]⟩
  | advance ms => exact .of_works (c.session.works_elapse ms)
  | drop handle => exact leads_abandonLost { c with handles := c.handles.erase handle }
  | deleteTopic topic =>
    simp only [run]
    split
    · exact .here
    · rename_i b _
      have set (w : World) :
          w.Leads { w with buses := w.buses.set c.manager.bus (b.delete topic).2 } :=
        .beside rfl (Nat.le_refl _) (by simp)
      exact leads_change set c.session
  | topics => exact .here
  | render handle => exact leads_atPool (fun _ => ⟨.pass 0 0, rfl⟩) c handle
  | tokens => exact .here
  | batch cmds => exact .here

theorem leads_runAll : ∀ (cmds : List Command) (c : Console),
    c.world.Leads (runAll cmds c).2.world
  | [], _ => .here
  | cmd :: cmds, c => (c.leads_run cmd).trans (leads_runAll cmds _)

/-- Whatever a console is told, its world goes on by turns in which pools make their moves, and
by the naming of pools. -/
theorem leads_execute (c : Console) (cmd : Command) :
    c.world.Leads (c.execute cmd).2.world := by
  have settles (c : Console) : c.world.Leads (c.withSession c.session.settle).markSeen.world :=
    .of_works c.session.works_settle
  unfold execute
  cases cmd with
  | batch cmds => exact (leads_runAll cmds c).trans (settles _)
  | _ => exact (leads_run c _).trans (settles _)

/-- The invariants of pools hold in a console, whatever it was told. -/
theorem orderly_execute (topics : List String) (clauses : List (String × Action))
    (cmds : List Command) :
    (cmds.foldl (fun c cmd => (c.execute cmd).2) (create topics clauses)).world.Orderly := by
  suffices lived : ∀ c : Console, c.world.Lived →
      (cmds.foldl (fun c cmd => (c.execute cmd).2) c).world.Lived from
    (lived _ (.bare rfl)).orderly
  induction cmds with
  | nil => exact fun _ lived => lived
  | cons cmd cmds ih => exact fun c lived => ih _ ((c.leads_execute cmd).lived lived)

end Console

/-! ## §4 Trials -/

namespace Trial

open World (Leads)
open Session (leads_atSite)

theorem leads_begin (t : Trial) : t.session.world.Leads t.begin.2.world := by
  have dispatches (s : Session) :
      s.world.Leads ((s.atSite 0 (·.dispatch t.job)).getD (false, s)).2.world := by
    cases done : s.atSite 0 (·.dispatch t.job) with
    | none => exact .here
    | some r => exact leads_atSite (fun _ => ⟨.dispatch t.job, rfl⟩) done
  unfold begin
  split
  · rename_i done
    exact (leads_atSite (fun _ => ⟨.start, rfl⟩) done).trans (dispatches _)
  · exact dispatches _

theorem leads_release (s : Session) : s.world.Leads (release s).world := by
  have begins {c : Option CallId} {s' : Session}
      (done : s.atSite 0 Site.beginRelease = some (c, s')) :
      s.world.Leads s'.world := leads_atSite (fun _ => ⟨.beginRelease, rfl⟩) done
  unfold release
  split
  · rename_i call s' done
    have awaited := (Session.works_await [(0, call)] s').trans (Session.works_settle _)
    exact (begins done).trans (.of_works awaited)
  · rename_i done
    exact begins done
  · exact .here

/-- What is seen of a trial are two states of a world that goes on by turns from a pool that was
just built. -/
theorem leads_run (t : Trial) : ∃ s : Session, t.session.world.Leads s.world ∧
    s.world.Leads (release s).world ∧
    t.run = (t.begin.1, look s 0, look (release s) s.world.journal.size) :=
  ⟨t.begin.2.elapse t.ms, t.leads_begin.trans (.of_works (Session.works_elapse _ _)),
    leads_release _, rfl⟩

end Trial
end JobPool
