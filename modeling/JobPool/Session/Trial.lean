/-
JobPool.Session.Trial — one job in a pool of one worker, from start to release.

The pool has a bus of its own, with a log writer if asked for, then a recorder
on every lifecycle topic, and then without some topics and with some clauses.
The timeline of a trial is everything that was noted except progress.
-/
import JobPool.Session.Console

namespace JobPool

/-- What a trial is set up with. -/
structure Trial where
  job : Job
  choices : List Choice
  /-- How long the pool runs before it is released. -/
  ms : Nat
  logWriter : Bool
  deleteTopics : List String
  clauses : List (String × Action)

/-- What can be seen of a trial at one moment. -/
structure Trial.State where
  time : Nat
  timeline : List Entry
  progress : Progress
  tokens : List (String × Nat × Bool)

namespace Trial

/-- The bus before the pool is built on it. -/
def bus (t : Trial) : ScriptBus :=
  let b := Bus.empty.ensureLifecycle
  let subs := ({} : LogWriter).subscriptions
  let b := if t.logWriter then (b.subscribe (subs.map fun s => (s.1, s.2.map .log))).2 else b
  Console.addRecorders 0 b

/-- The session before the pool is started: pool, driver and bus have number 0. -/
def session (t : Trial) : Session :=
  let w : World := { buses := [t.bus] }
  let draft : Draft :=
    { name := "", bus := some 0, settings := .ofChoices (.maxWorkers 1 :: t.choices) }
  let (_, w) := draft.build w
  { world := { w with
      buses := w.buses.modify 0 (Console.adjust t.deleteTopics t.clauses) } }

/-- True of notes that belong to the timeline. -/
def isShown : Note → Bool
  | .recorded _ (.progress _) => false
  | _ => true

/-- What can be seen, leaving out the first `read` notes. -/
def look (s : Session) (read : Nat) : State :=
  { time := Instant.millis s.world.now
    timeline := (s.world.journal.toList.drop read).filter (isShown ·.note)
    progress := ((s.world.drivers[0]?).map (·.progress)).getD {}
    tokens := Console.tokens s.world }

/-- Starts the pool and hands it the job before any task goes on; the answer is whether the job
was accepted. -/
def begin (t : Trial) : Bool × Session :=
  let s := match t.session.atSite 0 Site.start with
    | some (_, s) => s
    | none => t.session
  (s.atSite 0 (·.dispatch t.job)).getD (false, s)

/-- Releases the pool and waits until that is done. -/
def release (s : Session) : Session :=
  match s.atSite 0 Site.beginRelease with
  | some (some call, s) => (s.await [(0, call)]).settle
  | some (none, s) => s
  | none => s

/-- The pool gets the job, time passes, and the pool is released. The answer is whether the job
was accepted, and what can be seen before and after the release. -/
def run (t : Trial) : Bool × State × State :=
  let (accepted, s) := t.begin
  let s := s.elapse t.ms
  (accepted, look s 0, look (release s) s.world.journal.size)

end Trial
end JobPool
