/-
JobPool.Proofs.Pool.Change — what can change at a pool, one thing at a time.

A move of a site may do many things: a watcher that ends its reap pass starts
workers again and creates others. `Pool.Change` lists the single things with all
that is true when they happen, and `Pool.Changes` strings them together, with the
deeds done on the way: jobs taken, finished and lost, turns of runs, calls begun
and carried on. What every change keeps, every move keeps, and no later proof looks
at the steps of tasks again.

  §1 Deeds
  §2 Workers that are asked to stop or to end
  §3 Changes
  §4 Growth
  §5 Dismissal
-/
import Mathlib.Data.List.Basic
import JobPool.Pool.Path
import JobPool.Proofs.Run.Turn

namespace JobPool

/-- True of a loop that took a job and has not recorded an outcome for it. -/
def Loop.isBusy (l : Loop) : Bool :=
  match l.phase with
  | .running _ | .crashed => true
  | _ => false

theorem Loop.free_of_looking {l : Loop} (looking : l.phase = .looking) : l.isBusy = false := by
  rw [isBusy, looking]

theorem Loop.free_of_parked {l : Loop} {notified : Bool} {wake : Nat}
    (parked : l.phase = .parked notified wake) : l.isBusy = false := by
  rw [isBusy, parked]

theorem Loop.busy_of_running {l : Loop} {run : Run} (running : l.phase = .running run) :
    l.isBusy = true := by
  rw [isBusy, running]

/-- True of a release that has not returned. -/
def Call.isRelease : Call → Bool
  | releasing _ | draining _ => true
  | stopping _ | returned => false

namespace Pool

/-! ## §1 Deeds -/

/-- What a change does that is more than a change of state. -/
inductive Deed where
  /-- A loop took a job. Unless its deadline is on the clock, its run was cut short at once. -/
  | took (i : LoopId) (job : Job) (onClock : Bool)
  /-- The run of a loop took a turn. -/
  | ran (i : LoopId) (turn : Run.Turn)
  /-- It took a turn in which a panic out of an event chain cut it short. -/
  | broke (i : LoopId) (turn : Run.Turn)
  | finished (i : LoopId) (job : Job) (success : Bool)
  /-- A loop crashed with its job. -/
  | lost (i : LoopId) (job : Job)
  | parked (i : LoopId)
  | started
  | stopBegan
  | releaseBegan
  /-- A call went on. -/
  | called (c : CallId)

namespace Deed

/-- The loop that did it, if one did. -/
def loop? : Deed → Option LoopId
  | took i _ _ | ran i _ | broke i _ | finished i _ _ | lost i _ | parked i => some i
  | _ => none

def taken? : Deed → Option Job
  | took _ job _ => some job
  | _ => none

/-- The job that was taken, if its deadline is on the clock. -/
def reckoned? : Deed → Option Job
  | took _ job true => some job
  | _ => none

/-- The event that was published. -/
def told? : Deed → Option Event
  | ran _ turn | broke _ turn => turn.event
  | _ => none

def finished? : Deed → Option (Job × Bool)
  | finished _ job success => some (job, success)
  | _ => none

def lost? : Deed → Option Job
  | lost _ job => some job
  | _ => none

/-- The jobs taken in some deeds, in order. -/
def takenIn (ds : List Deed) : List Job := ds.filterMap taken?

/-- The jobs taken in some deeds whose deadlines are on the clock. -/
def reckonedIn (ds : List Deed) : List Job := ds.filterMap reckoned?

/-- The events that runs published in some deeds, in order. -/
def toldIn (ds : List Deed) : List Event := ds.filterMap told?

/-- The jobs finished in some deeds, with their outcomes. -/
def finishedIn (ds : List Deed) : List (Job × Bool) := ds.filterMap finished?

/-- The jobs lost in some deeds. -/
def lostIn (ds : List Deed) : List Job := ds.filterMap lost?

/-- The deeds of one loop. -/
def doneBy (i : LoopId) (ds : List Deed) : List Deed := ds.filter (·.loop? == some i)

theorem reckonedIn_append (ds es : List Deed) :
    reckonedIn (ds ++ es) = reckonedIn ds ++ reckonedIn es :=
  List.filterMap_append ..

/-- Of the jobs that were taken, those count whose deadlines are on the clock. -/
theorem reckonedIn_eq {ds : List Deed} {onClock : Job → Bool}
    (clocked : ∀ i job tells, .took i job tells ∈ ds → tells = onClock job) :
    reckonedIn ds = (takenIn ds).filter onClock := by
  rw [takenIn, List.filter_filterMap]
  refine List.filterMap_congr fun d hd => ?_
  cases d with
  | took i job tells =>
    obtain rfl := clocked i job tells hd
    cases tells : onClock job <;> simp [reckoned?, taken?, Option.filter, tells]
  | _ => rfl

theorem toldIn_append (ds es : List Deed) : toldIn (ds ++ es) = toldIn ds ++ toldIn es :=
  List.filterMap_append ..

theorem finishedIn_append (ds es : List Deed) :
    finishedIn (ds ++ es) = finishedIn ds ++ finishedIn es :=
  List.filterMap_append ..

theorem lostIn_append (ds es : List Deed) : lostIn (ds ++ es) = lostIn ds ++ lostIn es :=
  List.filterMap_append ..

/-- No job was taken, finished or lost. -/
def Jobless (ds : List Deed) : Prop := takenIn ds = [] ∧ finishedIn ds = [] ∧ lostIn ds = []

theorem jobless_nil : Jobless [] := ⟨rfl, rfl, rfl⟩

/-- True if a call of stop or release began or went on. -/
def isOfCall : Deed → Bool
  | stopBegan | releaseBegan | called _ => true
  | _ => false

/-- What a pool is doing after a deed. -/
def statusAfter (d : Option Deed) (status : Pool.Status) : Pool.Status :=
  match d with
  | some started => .running
  | some stopBegan => .stopped
  | some releaseBegan => .released
  | _ => status

/-- True of a turn in which a panic out of an event chain cut a run short. -/
def isBreak : Deed → Bool
  | broke _ _ => true
  | _ => false

/-- True if a job was taken whose deadline is not on the clock. -/
def isStray : Deed → Bool
  | took _ _ onClock => !onClock
  | _ => false

/-- No run was cut short by a panic out of an event chain. -/
def Uncut (ds : List Deed) : Prop := ∀ d ∈ ds, d.isBreak = false

/-- The deadlines of all jobs that were taken are on the clock. -/
def OnClock (ds : List Deed) : Prop := ∀ d ∈ ds, d.isStray = false

theorem OnClock.not_took {ds : List Deed} (h : OnClock ds) {i : LoopId} {job : Job} :
    .took i job false ∉ ds := by
  intro took
  have onClock := h _ took
  cases onClock

/-- No run was cut short, by a listener or by the clock. -/
structure Unbroken (ds : List Deed) : Prop where
  uncut : Uncut ds
  onClock : OnClock ds

theorem unbroken_nil : Unbroken [] := ⟨List.forall_mem_nil _, List.forall_mem_nil _⟩

theorem Unbroken.append {ds es : List Deed} (h : Unbroken ds) (h' : Unbroken es) :
    Unbroken (ds ++ es) :=
  ⟨List.forall_mem_append.2 ⟨h.uncut, h'.uncut⟩, List.forall_mem_append.2 ⟨h.onClock, h'.onClock⟩⟩

/-- A job whose deadline is on the clock was taken. -/
theorem reckoned?_of_taken? {d : Deed} (h : d.taken? = none) : d.reckoned? = none := by
  cases d <;> first | rfl | cases h

/-- What no loop did takes, finishes and loses no job, and publishes nothing. -/
theorem silent_of_loopless {d : Deed} (h : d.loop? = none) :
    d.taken? = none ∧ d.told? = none ∧ d.finished? = none ∧ d.lost? = none := by
  cases d with
  | started | stopBegan | releaseBegan | called => exact ⟨rfl, rfl, rfl, rfl⟩
  | took | ran | broke | finished | lost | parked => cases h

/-- What no loop did touched no job and cut no run short. -/
theorem spec_of_loopless {ds : List Deed} (h : ∀ d ∈ ds, d.loop? = none) :
    Jobless ds ∧ Unbroken ds := by
  have silent := fun d hd => silent_of_loopless (h d hd)
  refine ⟨⟨?_, ?_, ?_⟩, fun d hd => ?_, fun d hd => ?_⟩
  · exact List.filterMap_eq_nil_iff.2 fun d hd => (silent d hd).1
  · exact List.filterMap_eq_nil_iff.2 fun d hd => (silent d hd).2.2.1
  · exact List.filterMap_eq_nil_iff.2 fun d hd => (silent d hd).2.2.2
  · have loopless := h d hd
    cases d <;> first | rfl | cases loopless
  · have loopless := h d hd
    cases d <;> first | rfl | cases loopless

end Deed

/-! ## §2 Workers that are asked to stop or to end -/

/-- A worker changes by `f`, and its token is cancelled. -/
def ask (f : Worker → Worker) (p : Pool) (w : WorkerId) : Pool :=
  match p.workers[w]? with
  | none => p
  | some k => { p.modifyWorker w f with tokens := p.tokens.cancel k.token }

/-- From `p` to `q` the workers of a list changed by `f`, and their tokens were cancelled;
nothing else changed. -/
structure Asked (f : Worker → Worker) (p : Pool) (ws : List WorkerId) (q : Pool) : Prop where
  rest : q = { p with workers := q.workers, tokens := q.tokens }
  workers : ∀ w : WorkerId, q.workers[w]? =
    (p.workers[w]?).map fun k => if w ∈ ws then f k else k
  before : p.tokens.Before q.tokens
  length : q.tokens.children.length = p.tokens.children.length
  root : q.tokens.root = p.tokens.root
  cancelled : ∀ w ∈ ws, ∀ k, p.workers[w]? = some k → k.token < p.tokens.children.length →
    q.tokens.isCancelled k.token = true
  spared : ∀ t, (∀ (w : WorkerId) (k : Worker), p.workers[w]? = some k → k.token ≠ t) →
    q.tokens.isCancelled t = p.tokens.isCancelled t

theorem Asked.refl (f : Worker → Worker) (p : Pool) : Asked f p [] p where
  rest := rfl
  workers w := by simp
  before := .refl _
  length := rfl
  root := rfl
  cancelled := nofun
  spared _ _ := rfl

theorem asked_ask {f : Worker → Worker} (p : Pool) (w : WorkerId) : Asked f p [w] (p.ask f w) := by
  cases found : p.workers[w]? with
  | none =>
    have same : p.ask f w = p := by simp only [ask, found]
    rw [same]
    refine { Asked.refl f p with workers := fun v => ?_, cancelled := fun v hv k found' => ?_ }
    · cases found' : p.workers[v]? with
      | none => rfl
      | some k =>
        have hv : v ≠ w := by
          rintro rfl
          rw [found] at found'
          cases found'
        simp [hv]
    · rw [List.mem_singleton.1 hv, found] at found'
      cases found'
  | some k =>
    have asked : p.ask f w = { p.modifyWorker w f with tokens := p.tokens.cancel k.token } := by
      simp only [ask, found]
    rw [asked]
    refine ⟨rfl, fun v => ?_, p.tokens.before_cancel _, by simp [Tokens.cancel], rfl, ?_, ?_⟩
    · simpa [eq_comm] using p.workers_modifyWorker w f v
    · intro v hv k' found' handedOut
      rw [List.mem_singleton.1 hv, found] at found'
      obtain rfl := Option.some.inj found'
      exact p.tokens.isCancelled_cancel handedOut
    · intro t apart
      exact p.tokens.isCancelled_cancel_of_ne (apart w k found)

/-- Asking twice does no more than asking once. -/
theorem Asked.trans {f : Worker → Worker} {p q r : Pool} {vs ws : List WorkerId}
    (first : Asked f p vs q) (second : Asked f q ws r) (idem : ∀ k, f (f k) = f k)
    (token : ∀ k, (f k).token = k.token) : Asked f p (vs ++ ws) r where
  rest := by
    rw [second.rest, first.rest]
  workers w := by
    rw [second.workers, first.workers, Option.map_map]
    congr 1
    funext k
    by_cases hv : w ∈ vs <;> by_cases hw : w ∈ ws <;> simp [hv, hw, idem]
  before := first.before.trans second.before
  length := second.length.trans first.length
  root := second.root.trans first.root
  cancelled w hw k found handedOut := by
    rcases List.mem_append.1 hw with hv | hw
    · exact second.before.cancelled_of_cancelled _ (first.cancelled w hv k found handedOut)
    · have found' := first.workers w
      rw [found, Option.map_some] at found'
      have cancelled := second.cancelled w hw _ found'
      split at cancelled
      · rw [token] at cancelled
        exact cancelled (first.length ▸ handedOut)
      · exact cancelled (first.length ▸ handedOut)
  spared t apart := by
    rw [second.spared t, first.spared t apart]
    intro w k' found'
    rw [first.workers] at found'
    obtain ⟨k, found, rfl⟩ := Option.map_eq_some_iff.1 found'
    split
    · rw [token]
      exact apart w k found
    · exact apart w k found

theorem asked_foldl {f : Worker → Worker} (idem : ∀ k, f (f k) = f k)
    (token : ∀ k, (f k).token = k.token) : ∀ (ws : List WorkerId) (p : Pool),
    Asked f p ws (ws.foldl (ask f) p)
  | [], p => .refl f p
  | w :: ws, p => (asked_ask p w).trans (asked_foldl idem token ws (p.ask f w)) idem token

/-- A worker that is asked to end: it stops, and nobody else is to wait for its loop. -/
def retired (wall : Nat) (k : Worker) : Worker := { k.stop wall with loop := none }

theorem stop_stop (wall : Nat) (k : Worker) : (k.stop wall).stop wall = k.stop wall := by
  cases status : k.status <;> simp [Worker.stop, Worker.isIdle, status]

theorem retired_retired (wall : Nat) (k : Worker) :
    retired wall (retired wall k) = retired wall k := by
  cases status : k.status <;> simp [retired, Worker.stop, Worker.isIdle, status]

theorem asked_stopWorker (p : Pool) (wall : Nat) (w : WorkerId) :
    Asked (·.stop wall) p [w] (p.stopWorker wall w) :=
  asked_ask p w

theorem releaseWorker_eq (p : Pool) (wall : Nat) (w : WorkerId) :
    p.releaseWorker wall w = ((p.workers[w]?).bind (·.loop), p.ask (retired wall) w) := by
  cases found : p.workers[w]? with
  | none =>
    have unmoved : p.workers.modify w (fun k => { k with loop := none }) = p.workers := by
      refine List.ext_getElem? fun v => ?_
      rw [List.getElem?_modify]
      by_cases hv : w = v
      · subst hv
        simp [found]
      · simp [hv]
    simp [releaseWorker, stopWorker, takeLoop, modifyWorker, ask, found, unmoved]
  | some k =>
    have loop : (k.stop wall).loop = k.loop := by
      unfold Worker.stop
      split <;> rfl
    have modified : (p.workers.modify w (·.stop wall))[w]? = some (k.stop wall) := by
      rw [List.getElem?_modify_eq, found]
      rfl
    simp only [releaseWorker, stopWorker, takeLoop, modifyWorker, ask, found, modified,
      Option.bind_some, loop, List.modify_modify_eq]
    rfl

/-- Workers are asked to end one after another; the loops to wait for are put behind
those of an earlier list. -/
def retire (wall : Nat) (acc : List LoopId × Pool) (w : WorkerId) : List LoopId × Pool :=
  let (loop, p) := acc.2.releaseWorker wall w
  (acc.1 ++ loop.toList, p)

theorem foldl_retire (wall : Nat) : ∀ (ws : List WorkerId) (ls : List LoopId) (p : Pool),
    (ws.foldl (retire wall) (ls, p)).2 = ws.foldl (ask (retired wall)) p ∧
    (∀ i ∈ ls, i ∈ (ws.foldl (retire wall) (ls, p)).1) ∧
    ∀ w ∈ ws, ∀ k i, p.workers[w]? = some k → k.loop = some i →
      i ∈ (ws.foldl (retire wall) (ls, p)).1
  | [], ls, p => ⟨rfl, fun _ => id, nofun⟩
  | w :: ws, ls, p => by
    obtain ⟨pool, kept, waits⟩ := foldl_retire wall ws
      (ls ++ ((p.workers[w]?).bind (·.loop)).toList) (p.ask (retired wall) w)
    have first : retire wall (ls, p) w =
        (ls ++ ((p.workers[w]?).bind (·.loop)).toList, p.ask (retired wall) w) := by
      simp only [retire, releaseWorker_eq]
    simp only [List.foldl_cons, first]
    refine ⟨pool, fun i hi => kept i (List.mem_append_left _ hi), fun v hv k i found loop => ?_⟩
    by_cases same : v = w
    · subst same
      exact kept i (List.mem_append_right _ (by simp [found, loop]))
    · have found' := (asked_ask (f := retired wall) p w).workers v
      rw [found, Option.map_some, if_neg (by simpa using same)] at found'
      exact waits v ((List.mem_cons.1 hv).resolve_left same) k i found' loop

/-! ## §3 Changes -/

/-- A change beside workers and loops, with the deed that it is. -/
inductive Aside (p : Pool) : Option Deed → Pool → Prop where
  /-- A watcher or a forwarder goes on. -/
  | upkeep (u : UpkeepId) {f : Upkeep → Upkeep} (token : ∀ k, (f k).token = k.token) :
      Aside p none (p.modifyUpkeep u f)
  | abandon : Aside p none { p with held := false, tokens := p.tokens.cancelRoot }
  | start (wall : Nat) (ready : p.status = .pending ∨ p.status = .stopped) :
      Aside p (some .started)
        { p with
          status := .running
          startedAt := some wall
          tokens := p.tokens.child.2
          upkeeps := p.upkeeps ++ [{ token := p.tokens.child.1 }]
          current := some p.upkeeps.length }
  | beginStop (stoppedAt : Option Nat) (running : p.status = .running) :
      Aside p (some .stopBegan)
        { (Site.endUpkeep { p with status := .stopped, stoppedAt }).2 with
          calls := p.calls ++ [.stopping p.current] }
  | beginRelease (stoppedAt : Option Nat) (unreleased : p.status ≠ .released) :
      Aside p (some .releaseBegan)
        { (Site.endUpkeep { p with status := .released, stoppedAt }).2 with
          tokens := (Site.endUpkeep { p with status := .released, stoppedAt }).2.tokens.cancelRoot
          calls := p.calls ++ [.releasing p.current] }
  /-- A release returns, for the loops that it waits for are over. -/
  | releaseReturns {c : CallId} {loops : List LoopId} (found : p.calls[c]? = some (.draining loops))
      (ended : loops.all p.loopIsOver = true) : Aside p (some (.called c)) (p.setCall c .returned)

/-- The pool once a loop has taken a turn of its run, which is `run` then. -/
def afterTurn (p : Pool) (i : LoopId) (t : Run.Turn) (run : Run) : Pool :=
  { p with
    tokens := t.tokens
    begun := p.begun ++ t.begun.toList
    loops := p.loops.modify i fun l => { l with phase := .running run } }

/-- One change of a pool, with the deed that it is. -/
inductive Change (p : Pool) : Option Deed → Pool → Prop where
  | aside {d : Option Deed} {q : Pool} (aside : Aside p d q) : Change p d q
  | add (wall : Nat) (running : p.status = .running)
      (room : p.registry.length < p.settings.worker.bound) : Change p none (p.addWorker wall)
  | restart {w : WorkerId} {k : Worker} (wall : Nat) (running : p.status = .running)
      (registered : w ∈ p.registry) (found : p.workers[w]? = some k) (stopped : k.isStopped = true)
      (live : p.tokens.root = false) :
      Change p none
        { p with
          tokens := p.tokens.child.2
          workers := p.workers.set w (k.restart wall p.tokens.child.1 p.loops.length)
          loops := p.loops ++ [⟨w, k.generation + 1, p.tokens.child.1, .looking⟩] }
  | stop (wall : Nat) (w : WorkerId) : Change p none (p.stopWorker wall w)
  /-- A stopped worker that was asked to end leaves the registry, and somebody takes the
  right to wait for its loop. -/
  | leave {w : WorkerId}
      (stopped : ∀ k, p.workers[w]? = some k → k.isStopped = true ∧
        (k.token < p.tokens.children.length → p.tokens.isCancelled k.token = true)) :
      Change p none (({ p with registry := p.registry.erase w } : Pool).takeLoop w).2
  /-- A stop asks all workers to stop and returns. -/
  | halt {c : CallId} {u : Option UpkeepId} (wall : Nat)
      (found : p.calls[c]? = some (.stopping u)) (ended : p.upkeepIsOver u = true) {q : Pool}
      (asked : Asked (·.stop wall) p p.registry q) :
      Change p (some (.called c)) { q with calls := p.calls.set c .returned }
  /-- A release asks all workers to end; it is going to wait for their loops. -/
  | drain {c : CallId} {u : Option UpkeepId} (wall : Nat)
      (found : p.calls[c]? = some (.releasing u)) (ended : p.upkeepIsOver u = true)
      {loops : List LoopId} {q : Pool}
      (asked : Asked (retired wall) p p.registry q)
      (waits : ∀ w ∈ p.registry, ∀ k i, p.workers[w]? = some k → k.loop = some i → i ∈ loops) :
      Change p (some (.called c))
        { q with registry := [], calls := p.calls.set c (.draining loops) }
  | notify : Change p none p.notifyAll
  | park {i : LoopId} {l : Loop} (wake : Nat) (found : p.loops[i]? = some l)
      (looking : l.phase = .looking) :
      Change p (some (.parked i)) (p.setPhase i (.parked false wake))
  | wake {i : LoopId} {l : Loop} {notified : Bool} {wake : Nat} (found : p.loops[i]? = some l)
      (parked : l.phase = .parked notified wake) : Change p none (p.setPhase i .looking)
  | endLoop {i : LoopId} {l : Loop} (wall : Nat) (found : p.loops[i]? = some l)
      (free : l.isBusy = false) (barred : p.mayTake l = false) :
      Change p none ((p.modifyWorker l.worker (·.markStopped l.generation wall)).setPhase i .ended)
  | take {i : LoopId} {l : Loop} (job : Job) (now : Nat) (found : p.loops[i]? = some l)
      (looking : l.phase = .looking) (mayTake : p.mayTake l = true) :
      Change p (some (.took i job (Run.onClock job p.settings.job now)))
        ((p.modifyWorker l.worker (·.take)).setPhase i (.running (.start job p.settings.job now)))
  | run {i : LoopId} {l : Loop} {r : Run} {picks : Picks} {now : Nat} {t : Run.Turn}
      (found : p.loops[i]? = some l) (running : l.phase = .running r)
      (turn : r.turn picks now p.tokens = some t) :
      Change p (some (.ran i t)) (p.afterTurn i t t.next)
  | cutShort {i : LoopId} {l : Loop} {r : Run} {picks : Picks} {now : Nat} {t : Run.Turn}
      (found : p.loops[i]? = some l) (running : l.phase = .running r)
      (turn : r.turn picks now p.tokens = some t) :
      Change p (some (.broke i t)) (p.afterTurn i t { t.next with phase := .unwound })
  | crash {i : LoopId} {l : Loop} {r : Run} (found : p.loops[i]? = some l)
      (running : l.phase = .running r) (unwound : r.phase = .unwound) :
      Change p (some (.lost i r.job)) (p.setPhase i .crashed)
  /-- The outcome of a job is recorded by the current loop of a worker, which
  goes on unless it was asked to stop. -/
  | finish {i : LoopId} {l : Loop} {r : Run} {success : Bool} (wall : Nat)
      (found : p.loops[i]? = some l) (running : l.phase = .running r)
      (done : r.phase = .finished success)
      (current : p.check (·.generation == l.generation) l.worker = true) :
      Change p (some (.finished i r.job success))
        ((p.modifyWorker l.worker (·.finish (p.tokens.isCancelled l.token) wall)).setPhase i
          (if p.tokens.isCancelled l.token then .ended else .looking))
  /-- The outcome of a job is recorded by a loop that is not the current one. -/
  | finishLate {i : LoopId} {l : Loop} {r : Run} {success : Bool} (wall : Nat)
      (found : p.loops[i]? = some l) (running : l.phase = .running r)
      (done : r.phase = .finished success)
      (outdated : p.check (·.generation == l.generation) l.worker = false) :
      Change p (some (.finished i r.job success))
        ((p.modifyWorker l.worker (·.markStopped l.generation wall)).setPhase i .ended)

/-- Workers, registry and loops stay; tokens are handed out and cancelled, and a release
is begun only with the root cancelled. -/
structure Beside (p q : Pool) : Prop where
  settings : q.settings = p.settings
  workers : q.workers = p.workers
  registry : q.registry = p.registry
  loops : q.loops = p.loops
  tokens : p.tokens.Before q.tokens
  releasing : ∀ u, .releasing u ∈ q.calls → .releasing u ∈ p.calls ∨ q.tokens.root = true

theorem beside_afterTurn {p : Pool} {i : LoopId} {r : Run} {picks : Picks} {now : Nat}
    {t : Run.Turn} (turn : r.turn picks now p.tokens = some t) (run : Run) :
    Beside (p.setPhase i (.running run)) (p.afterTurn i t run) :=
  ⟨rfl, rfl, rfl, rfl, (Run.turned_of_turn turn).before, fun _ => .inl⟩

theorem before_endUpkeep (p : Pool) : p.tokens.Before (Site.endUpkeep p).2.tokens := by
  unfold Site.endUpkeep
  split
  · exact p.tokens.before_cancel _
  · exact .refl p.tokens

theorem Aside.beside {p q : Pool} {d : Option Deed} (h : Aside p d q) : Beside p q := by
  cases h with
  | upkeep u token => exact ⟨rfl, rfl, rfl, rfl, .refl _, fun _ => .inl⟩
  | abandon => exact ⟨rfl, rfl, rfl, rfl, p.tokens.before_cancelRoot, fun _ => .inl⟩
  | start wall ready => exact ⟨rfl, rfl, rfl, rfl, p.tokens.before_child, fun _ => .inl⟩
  | beginStop stoppedAt running =>
    refine ⟨rfl, rfl, rfl, rfl, before_endUpkeep { p with status := .stopped, stoppedAt },
      fun u hu => .inl ?_⟩
    simpa using hu
  | beginRelease stoppedAt unreleased =>
    refine ⟨rfl, rfl, rfl, rfl, ?_, fun _ _ => .inr rfl⟩
    exact (before_endUpkeep { p with status := .released, stoppedAt }).trans
      (Tokens.before_cancelRoot _)
  | releaseReturns found ended =>
    refine ⟨rfl, rfl, rfl, rfl, .refl _, fun u hu => .inl ?_⟩
    exact (List.mem_or_eq_of_mem_set hu).resolve_right nofun

theorem Aside.jobless {p q : Pool} {d : Option Deed} (h : Aside p d q) :
    Deed.Jobless d.toList := by
  cases h <;> exact ⟨rfl, rfl, rfl⟩

/-- Changes in a row, with the deeds done. -/
inductive Changes : Pool → List Deed → Pool → Prop where
  | refl (p : Pool) : Changes p [] p
  | head {p q r : Pool} {d : Option Deed} {ds : List Deed} (first : Change p d q)
      (rest : Changes q ds r) : Changes p (d.toList ++ ds) r

namespace Changes

variable {p q r : Pool} {ds es : List Deed}

theorem single {d : Option Deed} (h : Change p d q) : Changes p d.toList q := by
  rw [← List.append_nil d.toList]
  exact .head h (.refl q)

theorem silent (h : Change p none q) : Changes p [] q := single h

theorem trans (first : Changes p ds q) (second : Changes q es r) : Changes p (ds ++ es) r := by
  induction first with
  | refl p => exact second
  | head change _ ih =>
    rw [List.append_assoc]
    exact .head change (ih second)

theorem before (first : Change p none q) (rest : Changes q ds r) : Changes p ds r :=
  .head first rest

/-- What every change keeps, a row of them keeps. -/
theorem keeps {P : Pool → Prop} (h : Changes p ds q) (holds : P p)
    (step : ∀ {p q : Pool} {d : Option Deed}, Change p d q → (∀ e ∈ d, e ∈ ds) → P p → P q) :
    P q := by
  induction h with
  | refl p => exact holds
  | @head p q r d ds first _ ih =>
    refine ih (step first (fun e he => ?_) holds) fun change among => step change fun e he => ?_
    · exact List.mem_append_left _ (Option.mem_toList.2 he)
    · exact List.mem_append_right _ (among e he)

end Changes

/-- Only a start makes a pool run, and only a release releases it. -/
theorem status_of_change {p q : Pool} {d : Option Deed} (h : Change p d q) :
    q.status = Deed.statusAfter d p.status := by
  cases h with
  | aside aside => cases aside <;> rfl
  | stop wall w => exact (congrArg Pool.status (p.asked_stopWorker wall w).rest :)
  | halt wall found ended asked => exact (congrArg Pool.status asked.rest :)
  | drain wall found ended asked waits => exact (congrArg Pool.status asked.rest :)
  | _ => rfl

/-- Tokens are handed out and cancelled, and never taken back. -/
theorem before_of_change {p q : Pool} {d : Option Deed} (h : Change p d q) :
    p.tokens.Before q.tokens := by
  cases h with
  | aside aside => exact aside.beside.tokens
  | add wall _ _ => exact p.tokens.before_child
  | restart wall _ _ _ _ _ => exact p.tokens.before_child
  | stop wall w => exact (p.asked_stopWorker wall w).before
  | halt wall _ _ asked => exact asked.before
  | drain wall _ _ asked _ => exact asked.before
  | run _ _ turn => exact (Run.turned_of_turn turn).before
  | cutShort _ _ turn => exact (Run.turned_of_turn turn).before
  | _ => exact .refl p.tokens

theorem before_of_changes {p q : Pool} {ds : List Deed} (h : Changes p ds q) :
    p.tokens.Before q.tokens := by
  induction h with
  | refl p => exact .refl p.tokens
  | head first _ ih => exact (before_of_change first).trans ih

/-- Calls change only where one begins or goes on. -/
theorem calls_of_change {p q : Pool} {d : Option Deed} (h : Change p d q)
    (still : ∀ e ∈ d, e.isOfCall = false) : q.calls = p.calls := by
  cases h with
  | aside aside =>
    cases aside with
    | beginStop _ _ => cases still _ rfl
    | beginRelease _ _ => cases still _ rfl
    | releaseReturns _ _ => cases still _ rfl
    | _ => rfl
  | stop wall w => exact (congrArg Pool.calls (p.asked_stopWorker wall w).rest :)
  | halt wall found ended asked => cases still _ rfl
  | drain wall found ended asked waits => cases still _ rfl
  | _ => rfl

/-- A call does not change before it goes on itself. -/
theorem call_of_change {p q : Pool} {d : Option Deed} (h : Change p d q) {c : CallId} {call : Call}
    (found : p.calls[c]? = some call) (waits : d ≠ some (.called c)) :
    q.calls[c]? = some call := by
  have begun : ∀ call', (p.calls ++ [call'])[c]? = some call := fun _ => by
    rw [List.getElem?_append_left (List.getElem?_eq_some_iff.1 found).1, found]
  have others : ∀ (c' : CallId) (call' : Call), c' ≠ c →
      (p.calls.set c' call')[c]? = some call := by
    intro c' call' differ
    rw [List.getElem?_set_ne differ, found]
  cases h with
  | aside aside =>
    cases aside with
    | beginStop _ _ => exact begun _
    | beginRelease _ _ => exact begun _
    | releaseReturns _ _ => exact others _ _ fun same => waits (by rw [same])
    | _ => exact found
  | stop wall w =>
    have calls := (congrArg Pool.calls (p.asked_stopWorker wall w).rest :)
    rw [calls]
    exact found
  | halt wall _ _ _ => exact others _ _ fun same => waits (by rw [same])
  | drain wall _ _ _ _ => exact others _ _ fun same => waits (by rw [same])
  | _ => exact found

/-- A call that has returned makes no more changes. -/
theorem returned_of_change {p q : Pool} {d : Option Deed} (h : Change p d q) {c : CallId}
    (returned : p.calls[c]? = some .returned) : q.calls[c]? = some .returned := by
  refine call_of_change h returned ?_
  rintro rfl
  cases h with
  | aside aside =>
    cases aside with
    | releaseReturns found _ => simp [returned] at found
  | halt _ found _ _ => simp [returned] at found
  | drain _ found _ _ _ => simp [returned] at found

/-! ## §4 Growth -/

theorem changes_addWorkers (wall : Nat) : ∀ (n : Nat) (p : Pool), p.status = .running →
    n ≤ p.settings.worker.bound - p.registry.length → Changes p [] (p.addWorkers wall n)
  | 0, p, _, _ => .refl p
  | n + 1, p, running, room => by
    have room' : n ≤ (p.addWorker wall).settings.worker.bound -
        (p.addWorker wall).registry.length := by
      simp only [addWorker, List.length_append, List.length_singleton]
      omega
    exact .before (.add wall running (by omega)) (changes_addWorkers wall n _ running room')

theorem changes_restartWorker {p : Pool} {w : WorkerId} (wall : Nat) (running : p.status = .running)
    (registered : w ∈ p.registry) :
    Changes p [] (p.restartWorker wall w).2 ∧
      (p.restartWorker wall w).2.registry = p.registry ∧
      (p.restartWorker wall w).2.status = p.status := by
  unfold restartWorker
  split
  · exact ⟨.refl p, rfl, rfl⟩
  · rename_i k found
    split
    · exact ⟨.refl p, rfl, rfl⟩
    · rename_i restartable
      have allowed : p.tokens.root = false ∧ k.isStopped = true := by simpa using restartable
      exact ⟨.silent (.restart wall running registered found allowed.2 allowed.1), rfl, rfl⟩

theorem changes_restartStopped (wall : Nat) : ∀ (ws : List WorkerId) (want : Nat) (p : Pool),
    p.status = .running → (∀ w ∈ ws, w ∈ p.registry) →
      Changes p [] (restartStopped wall ws want p).2 ∧
        (restartStopped wall ws want p).2.status = .running
  | [], 0, p, running, _ => ⟨.refl p, running⟩
  | _ :: _, 0, p, running, _ => ⟨.refl p, running⟩
  | [], _ + 1, p, running, _ => ⟨.refl p, running⟩
  | w :: ws, want + 1, p, running, registered => by
    obtain ⟨changes, registry, status⟩ :=
      changes_restartWorker wall running (registered w (List.mem_cons_self ..))
    have registered' : ∀ v ∈ ws, v ∈ (p.restartWorker wall w).2.registry := by
      intro v hv
      rw [registry]
      exact registered v (List.mem_cons_of_mem _ hv)
    have rest : ∀ n, Changes p [] (restartStopped wall ws n (p.restartWorker wall w).2).2 ∧
        (restartStopped wall ws n (p.restartWorker wall w).2).2.status = .running := by
      intro n
      obtain ⟨changes', status'⟩ :=
        changes_restartStopped wall ws n _ (status.trans running) registered'
      exact ⟨changes.trans changes', status'⟩
    rw [restartStopped]
    split
    · rename_i q restarted
      rw [restarted] at rest
      exact rest want
    · rename_i q refused
      rw [refused] at rest
      exact rest (want + 1)

theorem changes_grow {p : Pool} (running : p.status = .running) (wall pending : Nat) :
    Changes p [] (p.grow wall pending).2 := by
  obtain ⟨changes, running'⟩ := changes_restartStopped wall p.registry
    (min p.settings.worker.perRound (pending - p.countWorkers (·.isIdle))) p running fun _ => id
  simp only [grow]
  split
  · exact .refl p
  · -- whatever was wanted, no more workers are created than there is room for
    exact changes.trans (changes_addWorkers wall _ _ running' (Nat.min_le_right ..))

/-! ## §5 Dismissal -/

/-- A stopped worker is asked to end and leaves the registry. -/
theorem changes_releaseStopped {p : Pool} {w : WorkerId} (wall : Nat)
    (stopped : ∀ k, p.workers[w]? = some k → k.isStopped = true) :
    Changes p [] (({ p with registry := p.registry.erase w }).releaseWorker wall w).2 := by
  have asked := p.asked_stopWorker wall w
  have same : (({ p with registry := p.registry.erase w }).releaseWorker wall w).2 =
      (({ p.stopWorker wall w with
        registry := (p.stopWorker wall w).registry.erase w } : Pool).takeLoop w).2 := by
    cases found : p.workers[w]? <;> simp [releaseWorker, stopWorker, takeLoop, modifyWorker, found]
  rw [same]
  refine .before (.stop wall w) (.silent (.leave fun k' found' => ?_))
  have was := asked.workers w
  rw [found'] at was
  obtain ⟨k, found, rfl⟩ := Option.map_eq_some_iff.1 was.symm
  simp only [List.mem_singleton, if_true, k.isStopped_stop, stopped k found, k.token_stop,
    Bool.true_or, true_and, asked.length]
  exact asked.cancelled w (List.mem_singleton_self w) k found

/-- A stop asks all registered workers to stop. -/
theorem change_halt {p : Pool} {c : CallId} {u : Option UpkeepId} (wall : Nat)
    (found : p.calls[c]? = some (.stopping u)) (ended : p.upkeepIsOver u = true) :
    Change p (some (.called c))
      ((p.registry.foldl (fun p w => p.stopWorker wall w) p).setCall c .returned) := by
  have asked : Asked (·.stop wall) p p.registry (p.registry.foldl (ask (·.stop wall)) p) :=
    asked_foldl (stop_stop wall) (·.token_stop wall) p.registry p
  have same : (p.registry.foldl (fun p w => p.stopWorker wall w) p).setCall c .returned =
      { p.registry.foldl (ask (·.stop wall)) p with calls := p.calls.set c .returned } := by
    rw [setCall, ← (congrArg Pool.calls asked.rest :)]
    rfl
  rw [same]
  exact .halt wall found ended asked

/-- A release empties the registry: all its workers are asked to end. -/
theorem change_drain {p : Pool} {c : CallId} {u : Option UpkeepId} (wall : Nat)
    (found : p.calls[c]? = some (.releasing u)) (ended : p.upkeepIsOver u = true)
    {ls : List LoopId} {q : Pool}
    (drained : p.registry.foldl (retire wall) ([], { p with registry := [] }) = (ls, q)) :
    Change p (some (.called c)) (q.setCall c (.draining ls)) := by
  obtain ⟨pool, -, waits⟩ := foldl_retire wall p.registry [] { p with registry := [] }
  have asked := asked_foldl (f := retired wall) (retired_retired wall) (fun k => k.token_stop wall)
    p.registry { p with registry := [] }
  rw [← pool] at asked
  rw [drained] at asked waits
  have rest : q = { p with registry := [], workers := q.workers, tokens := q.tokens } := asked.rest
  have asked' : Asked (retired wall) p p.registry { q with registry := p.registry } := by
    refine ⟨?_, asked.workers, asked.before, asked.length, asked.root, asked.cancelled,
      asked.spared⟩
    rw [rest]
  have same : q.setCall c (.draining ls) =
      { ({ q with registry := p.registry } : Pool) with
        registry := [], calls := p.calls.set c (.draining ls) } := by
    rw [rest]
    rfl
  rw [same]
  exact .drain wall found ended asked' waits

end Pool
end JobPool
