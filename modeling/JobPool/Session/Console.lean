/-
JobPool.Session.Console — pools worked by commands.

A console has a manager on a shared bus, drivers under names, and pools under
handles; a pool may have several handles and lives on until nobody holds it. A
command is carried out, then everything goes on that can go on without time
passing. Commands in a batch are carried out one after the other with no task
in between.

Every bus gets a recorder on each lifecycle topic, then loses the topics and
gets the clauses that the console was set up with.
-/
import JobPool.Pool.Draft
import JobPool.Session.Schedule

namespace JobPool

/-- A pool under a handle, and the workers of it that were seen. -/
structure Handle where
  pool : PoolId
  seen : List WorkerId := []

/-- A session worked by commands. -/
structure Console where
  session : Session
  manager : Manager
  drivers : NameMap DriverId := .empty
  handles : NameMap Handle := .empty
  /-- Topics that every bus loses. -/
  deleteTopics : List String := []
  /-- Clauses that every bus gets. -/
  clauses : List (String × Action) := []
  /-- How much of the journal was read. -/
  read : Nat := 0

/-- What a console can be told. -/
inductive Command where
  | driver (id : String) (d : Driver Job)
  | pool (handle name : String) (driver : Option String) (choices : List Choice) (shared : Bool)
  | create (handle name driver : String) (choices : List Choice)
  | add (name handle : String)
  | get (name : String)
  | remove (name : String)
  | names
  | startNamed (name : String)
  | stopNamed (name : String)
  | releaseNamed (name : String)
  | startAll
  | stopAll
  | releaseAll
  | start (handle : String)
  | stop (handle : String)
  | release (handle : String)
  | spawn (handle : String)
  | dispatch (handle : String) (jobs : List Job)
  | enqueue (driver : String) (jobs : List Job)
  | clear (driver : String)
  | take (driver : String)
  | complete (driver : String) (success : Bool)
  | driverProgress (driver : String)
  | stopWorker (handle : String) (place : Nat)
  | advance (ms : Nat)
  | drop (handle : String)
  | deleteTopic (topic : String)
  | topics
  | render (handle : String)
  | tokens
  | batch (commands : List Command)

/-- What a command is answered with. -/
inductive Response where
  | nothing
  | done
  | flag (b : Bool)
  | flags (bs : List Bool)
  | count (n : Nat)
  | text (s : String)
  | name (s : Option String)
  | names (s : Option (List String))
  | progress (p : Progress)
  | created (created : Bool) (handles : List String) (shared : Bool)
  | listing (names : List String) (text : String)
  | refused (e : PoolError)
  | tokens (ts : List (String × Nat × Bool))
  | many (rs : List Response)

namespace Console

/-- Puts a recorder on each lifecycle topic of a bus. -/
def addRecorders (number : Nat) (b : ScriptBus) : ScriptBus :=
  Topic.lifecycle.foldl (fun b spec => (b.onTopic spec.topic (.recorder number)).2) b

/-- Takes topics from a bus and puts clauses on it, as far as it has the topics. -/
def adjust (topics : List String) (clauses : List (String × Action)) (b : ScriptBus) : ScriptBus :=
  let b := topics.foldl (fun b topic => (b.delete topic).2) b
  clauses.foldl (fun b c => (b.onTopic c.1 (.script c.2)).2) b

/-- A console with a manager on a fresh bus. -/
def create (deleteTopics : List String) (clauses : List (String × Action)) : Console :=
  let (manager, world) := Manager.onBus { buses := [.empty] } 0
  let buses := world.buses.map fun b => adjust deleteTopics clauses (addRecorders 0 b)
  { session := { world := { world with buses } }
    manager, deleteTopics, clauses }

/-- The world of a console. -/
def world (c : Console) : World := c.session.world

/-- Puts a changed session in place. -/
def withSession (c : Console) (session : Session) : Console := { c with session }

/-- The handles that name a pool, rising. -/
def handlesOf (c : Console) (i : PoolId) : List String :=
  (c.handles.entries.filter fun e => e.2.pool == i).map (·.1)

/-- True if a pool is held by a handle or the manager. -/
def isHeld (c : Console) (i : PoolId) : Bool :=
  !(c.handlesOf i).isEmpty || (c.manager.pools.findName? (· == i)).isSome

/-- Pools that nobody holds any more are abandoned. -/
def abandonLost (c : Console) : Console :=
  (List.range c.world.members.length).foldl (fun c i =>
    match c.world.members[i]? with
    | some m =>
      if m.pool.held && !c.isHeld i then
        match c.session.atSite i (fun s => ((), s.abandon)) with
        | some (_, session) => c.withSession session
        | none => c
      else c
    | none => c) c

/-- Does something at the pool of a handle. -/
def atPool (c : Console) (handle : String) (f : Site → Response × Site) : Response × Console :=
  match c.handles.get? handle with
  | none => (.nothing, c)
  | some h =>
    match c.session.atSite h.pool f with
    | some (r, session) => (r, c.withSession session)
    | none => (.nothing, c)

/-- Begins a call at the pool of a handle and waits for it to return. -/
def callPool (c : Console) (handle : String) (f : Site → Option CallId × Site)
    (answer : Bool → Response) : Response × Console :=
  match c.handles.get? handle with
  | none => (.nothing, c)
  | some h =>
    match c.session.atSite h.pool f with
    | some (some call, session) =>
      (answer true, c.withSession (session.await [(h.pool, call)]))
    | some (none, session) => (answer false, c.withSession session)
    | none => (.nothing, c)

/-- Changes the driver of a name. -/
def atDriver (c : Console) (id : String) (f : Driver Job → Response × Driver Job) :
    Response × Console :=
  match c.drivers.get? id with
  | none => (.nothing, c)
  | some i =>
    match c.world.drivers[i]? with
    | none => (.nothing, c)
    | some d =>
      let (r, d) := f d
      (r, c.withSession (c.session.change fun w => { w with drivers := w.drivers.set i d }))

/-- Waits for calls that the manager began. -/
def await (c : Console) (calls : List (PoolId × CallId)) : Console :=
  c.withSession (c.session.await calls)

/-- Enqueues jobs one after the other. -/
def enqueueAll : List Job → Driver Job → List Bool × Driver Job
  | [], d => ([], d)
  | j :: rest, d =>
    let (ok, d) := d.enqueue j
    let (oks, d) := enqueueAll rest d
    (ok :: oks, d)

/-- Dispatches jobs one after the other. -/
def dispatchAll (handle : String) : List Job → Console → List Bool × Console
  | [], c => ([], c)
  | j :: rest, c =>
    let (r, c) := c.atPool handle fun s => let (ok, s) := s.dispatch j; (.flag ok, s)
    let ok := match r with
      | .flag ok => ok
      | _ => false
    let (oks, c) := dispatchAll handle rest c
    (ok :: oks, c)

/-- Every attempt begun so far that had something to run: the name of its job,
its number, and whether its token is cancelled now; sorted. -/
def tokens (w : World) : List (String × Nat × Bool) :=
  let all := w.members.flatMap fun m =>
    m.pool.begun.filterMap fun b =>
      match b.job.attempt b.number with
      | .runs .. => some (b.job.name, b.number, m.pool.tokens.isCancelled b.token)
      | .stillborn _ => none
  all.mergeSort fun a b =>
    if a.1 = b.1 then
      if a.2.1 = b.2.1 then !a.2.2 || b.2.2 else decide (a.2.1 ≤ b.2.1)
    else decide (a.1 < b.1)

/-- Builds a pool under a handle. -/
def buildPool (c : Console) (handle name : String) (driver : Option String)
    (choices : List Choice) (shared : Bool) : Console :=
  let draft : Draft :=
    { name
      driver := driver.bind c.drivers.get?
      bus := if shared then some c.manager.bus else none
      settings := Settings.chooseAll {} choices }
  let (i, session) := c.session.act fun w =>
    let (i, w) := draft.build w
    if shared then (i, w)
    else
      let bus := w.buses.length - 1
      (i, { w with
        buses := w.buses.modify bus fun b =>
          adjust c.deleteTopics c.clauses (addRecorders bus b) })
  { c with session, handles := c.handles.insert handle { pool := i } }

/-- Carries out one command that is no batch. -/
def run (c : Console) : Command → Response × Console
  | .driver id d =>
    let (i, session) := c.session.act (·.addDriver d)
    (.nothing, { c with session, drivers := c.drivers.insert id i })
  | .pool handle name driver choices shared =>
    (.nothing, (c.buildPool handle name driver choices shared).abandonLost)
  | .create handle name driver choices =>
    match c.drivers.get? driver with
    | none => (.nothing, c)
    | some d =>
      let ((i, created), manager, world) := c.manager.create c.world.moment name d choices
      let others := c.handlesOf i
      let shared := (world.members[i]?).any (·.bus == manager.bus)
      let handles :=
        if c.handles.contains handle then c.handles else c.handles.insert handle { pool := i }
      (.created created others shared,
        { c with manager, handles, session := c.session.adopt world })
  | .add name handle =>
    match c.handles.get? handle with
    | none => (.nothing, c)
    | some h =>
      match c.manager.add c.world.moment name h.pool with
      | (.ok (), manager, world) =>
        (.done, { c with manager, session := c.session.adopt world })
      | (.error e, manager, world) =>
        (.refused e, { c with manager, session := c.session.adopt world })
  | .get name => (.names ((c.manager.get? name).map c.handlesOf), c)
  | .remove name =>
    let (i, manager) := c.manager.remove name
    (.names (i.map c.handlesOf), { c with manager }.abandonLost)
  | .names => (.listing c.manager.names c.manager.render, c)
  | .startNamed name => (.nothing, c.withSession (c.session.change (c.manager.start · name)))
  | .stopNamed name =>
    let (calls, session) := c.session.act (c.manager.beginStop · name)
    (.nothing, { c with session }.await calls)
  | .releaseNamed name =>
    let (calls, manager, world) := c.manager.beginRelease c.world.moment name
    (.nothing, ({ c with manager, session := c.session.adopt world }.await calls).abandonLost)
  | .startAll => (.nothing, c.withSession (c.session.change c.manager.startAll))
  | .stopAll =>
    let (calls, session) := c.session.act c.manager.beginStopAll
    (.nothing, { c with session }.await calls)
  | .releaseAll =>
    let (calls, manager, world) := c.manager.beginReleaseAll c.world.moment
    (.nothing, ({ c with manager, session := c.session.adopt world }.await calls).abandonLost)
  | .start handle => c.atPool handle fun s => let (ok, s) := s.start; (.flag ok, s)
  | .stop handle => c.callPool handle Site.beginStop .flag
  | .release handle => c.callPool handle Site.beginRelease fun _ => .nothing
  | .spawn handle => c.atPool handle fun s => let (n, s) := s.spawnWorkers; (.count n, s)
  | .dispatch handle jobs =>
    let (oks, c) := c.dispatchAll handle jobs
    (.flags oks, c)
  | .enqueue id jobs =>
    c.atDriver id fun d => let (oks, d) := enqueueAll jobs d; (.flags oks, d)
  | .clear id => c.atDriver id fun d => (.nothing, d.clear)
  | .take id => c.atDriver id fun d => let (j, d) := d.dequeue; (.name (j.map (·.name)), d)
  | .complete id success => c.atDriver id fun d => (.nothing, d.complete success)
  | .driverProgress id => c.atDriver id fun d => (.progress d.progress, d)
  | .stopWorker handle place =>
    c.atPool handle fun s => let (ok, s) := s.stopWorkerAt place; (.flag ok, s)
  | .advance ms => (.nothing, c.withSession (c.session.elapse ms))
  | .drop handle => (.nothing, { c with handles := c.handles.erase handle }.abandonLost)
  | .deleteTopic topic =>
    match c.world.buses[c.manager.bus]? with
    | none => (.nothing, c)
    | some b =>
      let (found, b) := b.delete topic
      (.flag found,
        c.withSession (c.session.change fun w =>
          { w with buses := w.buses.set c.manager.bus b }))
  | .topics => (.names ((c.world.buses[c.manager.bus]?).map (·.names)), c)
  | .render handle => c.atPool handle fun s => (.text (s.pool.render "<id>"), s)
  | .tokens => (.tokens (tokens c.world), c)
  | .batch _ => (.nothing, c)

/-- Carries out commands with no task in between. -/
def runAll : List Command → Console → List Response × Console
  | [], c => ([], c)
  | cmd :: rest, c =>
    let (r, c) := c.run cmd
    let (rs, c) := runAll rest c
    (r :: rs, c)

/-- Marks the registered workers of every handle as seen. -/
def markSeen (c : Console) : Console :=
  { c with
    handles :=
      { entries := c.handles.entries.map fun e =>
          (e.1, { e.2 with
            seen := match c.world.members[e.2.pool]? with
              | some m => e.2.seen ++ m.pool.registry.filter (!e.2.seen.contains ·)
              | none => e.2.seen })
        rising := List.pairwise_map.2 c.handles.rising } }

/-- Carries out a command, and then everything that can go on without time
passing. -/
def execute (c : Console) (cmd : Command) : Response × Console :=
  let (r, c) : Response × Console := match cmd with
    | .batch cmds =>
      let (rs, c) := runAll cmds c
      (.many rs, c)
    | cmd => c.run cmd
  (r, (c.withSession c.session.settle).markSeen)

end Console
end JobPool
