/-
JobPool.Proofs.Pool.Reaping — a reap pass changes only workers that are not wanted.

A check and a dismissal change one worker. It is idle or stopped then, so it has no loop with a
job, and its token is nobody else's, so others do not notice. What remains is bookkeeping:
only steps of the watcher and of its checks change how far a pass has come, so what is checked
and what is dealt with can be read off these steps, whatever comes between them. Each worker
is checked once, and a check finds it idle or stopped but not both; so none is stopped and
dismissed in one pass.

  §1 Whose token it is
  §2 Checks
  §3 Dismissals
  §4 The pass
-/
import JobPool.Pool.Reaping
import JobPool.Proofs.Pool.Growing

namespace JobPool

theorem Worker.idle_or_stopped {k : Worker} (idle : k.isIdle = true) : k.isStopped = false := by
  cases status : k.status <;> simp [isIdle, isStopped, status] at idle ⊢

namespace Pool

variable {p q : Pool} {w : WorkerId} {k : Worker} {wall : Nat}

/-! ## §1 Whose token it is -/

/-- A worker has the token of a loop of its own. -/
theorem Regular.exists_loop (h : p.Regular) (found : p.workers[w]? = some k) :
    ∃ l ∈ p.loops, l.worker = w ∧ l.token = k.token := by
  obtain ⟨l, hl, carries⟩ := h.manned.current w k found
  obtain ⟨k', found', fits⟩ := h.sound.fits l hl
  rw [carries.1, found] at found'
  obtain rfl := Option.some.inj found'
  exact ⟨l, hl, carries.1, fits.token_eq ((carries_iff found).1 carries).2⟩

/-- No two workers have the same token. -/
theorem Regular.token_inj (h : p.Regular) {v : WorkerId} {j : Worker}
    (found : p.workers[v]? = some j) (found' : p.workers[w]? = some k)
    (same : j.token = k.token) : v = w := by
  obtain ⟨l, hl, worker, token⟩ := h.exists_loop found
  obtain ⟨l', hl', worker', token'⟩ := h.exists_loop found'
  have distinct := (List.nodup_append.1 h.apportioned.nodup).1
  have loops := List.inj_on_of_nodup_map distinct hl hl' (by rw [token, token', same])
  rw [← worker, ← worker', loops]

/-- Whoever asks one worker for something leaves all others alone. -/
theorem Regular.excepts_ask (h : p.Regular) (f : Worker → Worker) (w : WorkerId) :
    p.Excepts w (p.ask f w) := by
  have asked := p.asked_ask (f := f) w
  have spared : ∀ t, (∀ k, p.workers[w]? = some k → k.token ≠ t) →
      (p.ask f w).tokens.isCancelled t = p.tokens.isCancelled t := by
    intro t apart
    unfold ask
    split
    · rfl
    · rename_i k found
      exact p.tokens.isCancelled_cancel_of_ne (apart k found)
  have parts := List.nodup_append.1 h.apportioned.nodup
  -- the token of a worker is that of a loop, and no attempt or upkeep has the token of a loop
  have offLoops : ∀ t ∈ p.upkeeps.map (·.token) ++ p.begun.map (·.token), ∀ k,
      p.workers[w]? = some k → k.token ≠ t := by
    intro t ht k found
    obtain ⟨l, hl, -, token⟩ := h.exists_loop found
    rw [← token]
    exact parts.2.2 _ (List.mem_map_of_mem hl) _ ht
  refine ⟨fun v other => ?_, fun v other j found => ?_, fun b hb => ?_, fun u hu => ?_⟩
  · simp [asked.workers v, other]
  · refine spared _ fun k found' same => other ?_
    exact (h.token_inj found' found same).symm
  · exact spared _ (offLoops _ (List.mem_append_right _ (List.mem_map_of_mem hb)))
  · exact spared _ (offLoops _ (List.mem_append_left _ (List.mem_map_of_mem hu)))

/-! ## §2 Checks -/

theorem Regular.stops (h : p.Regular) (found : p.workers[w]? = some k) (idle : k.isIdle = true)
    (wall : Nat) (upkeeps : List Upkeep) : p.Stops wall w { p.stopWorker wall w with upkeeps } := by
  have asked := p.asked_stopWorker wall w
  have excepts := h.excepts_ask (·.stop wall) w
  refine ⟨?_, ⟨k, found, idle, ?_, ?_⟩, excepts.workers, excepts.tokens, excepts.attempts,
    excepts.upkeeps⟩
  · rw [asked.rest]
  · show (p.stopWorker wall w).workers[w]? = _
    rw [asked.workers, found]
    simp [Worker.stop, idle]
  · exact asked.cancelled w (List.mem_singleton_self w) k found (h.sound.handedOut w k found)

/-! ## §3 Dismissals -/

theorem Regular.dismisses (h : p.Regular) (registered : w ∈ p.registry)
    (found : p.workers[w]? = some k) (stopped : k.isStopped = true) (wall : Nat)
    (upkeeps : List Upkeep) :
    p.DismissesWorker w
      { (({ p with registry := p.registry.erase w } : Pool).releaseWorker wall w).2 with
        upkeeps } := by
  have asked := asked_ask (f := retired wall) { p with registry := p.registry.erase w } w
  have excepts := h.excepts_ask (retired wall) w
  have same : ({ p with registry := p.registry.erase w } : Pool).ask (retired wall) w =
      { p.ask (retired wall) w with registry := p.registry.erase w } := by
    simp [ask, found, modifyWorker]
  have stop : k.stop wall = k := by
    unfold Worker.stop
    rw [if_neg]
    intro idle
    rw [Worker.idle_or_stopped idle] at stopped
    cases stopped
  rw [releaseWorker_eq]
  simp only
  refine ⟨?_, registered, ?_, ⟨k, found, stopped, ?_⟩, fun l hl carries => ?_, ?_⟩
  · rw [asked.rest]
  · have registry := (congrArg Pool.registry asked.rest :)
    show w ∉ (({ p with registry := p.registry.erase w } : Pool).ask (retired wall) w).registry
    rw [registry]
    exact h.sound.nodup.not_mem_erase
  · show (({ p with registry := p.registry.erase w } : Pool).ask (retired wall) w).workers[w]? = _
    rw [asked.workers]
    simp [found, retired, stop]
  · -- a loop with a job would be the current one of a worker that works
    obtain ⟨k', found', fits⟩ := h.sound.fits l hl
    rw [carries, found] at found'
    obtain rfl := Option.some.inj found'
    cases phase : l.phase with
    | running r =>
      have busy : l.isBusy = true := by simp [Loop.isBusy, phase]
      have working := fits.working_eq (fits.current_of_busy busy)
      rw [Worker.isWorking_of_isStopped stopped, busy] at working
      cases working
    | _ => simp [Loop.job?, phase]
  · rw [same]
    exact ⟨excepts.workers, excepts.tokens, excepts.attempts, excepts.upkeeps⟩

end Pool

namespace Site

variable {s s₁ s' : Site} {u : UpkeepId} {w : WorkerId} {unchecked : List WorkerId}
  {waiting : List (WorkerId × Bool)}

theorem idlesTooLong_of_found {k : Worker} (found : s.pool.workers[w]? = some k) :
    s.idlesTooLong w =
      (k.idleFor s.wall).any (s.pool.settings.worker.maxIdleTime.nanos < ·) := by
  cases idle : k.isIdle <;> simp [idlesTooLong, Pool.check, found, Worker.idleFor, idle]

theorem restsTooLong_of_found {k : Worker} (found : s.pool.workers[w]? = some k) :
    s.restsTooLong w =
      (k.stoppedFor s.wall).any (s.pool.settings.worker.maxStoppedTime.nanos < ·) := by
  cases stopped : k.isStopped with
  | false => simp [restsTooLong, Pool.check, found, Worker.stoppedFor, stopped]
  | true =>
    cases since : k.stoppedAt <;>
      simp [restsTooLong, Pool.check, found, Worker.stoppedFor, stopped, since]

/-- A check finds what it is to find, and stops an idle worker whose time is up. -/
theorem checkWorker_spec (regular : s.pool.Regular) (w : WorkerId) :
    (s.checkWorker w).1 = s.restsTooLong w ∧
      (s.idlesTooLong w = true → ∀ upkeeps,
        s.pool.Stops s.wall w { (s.checkWorker w).2.pool with upkeeps }) ∧
      (s.idlesTooLong w = false → (s.checkWorker w).2 = s) := by
  cases found : s.pool.workers[w]? with
  | none => simp [checkWorker, restsTooLong, idlesTooLong, Pool.check, found]
  | some k =>
    have idles := idlesTooLong_of_found found
    have rests := restsTooLong_of_found found
    simp only [checkWorker, found, ← idles, ← rests]
    cases tooLong : s.idlesTooLong w with
    | false => simp
    | true =>
      have idle : k.isIdle = true := by
        rw [idles] at tooLong
        cases idle : k.isIdle with
        | false => simp [Worker.idleFor, idle] at tooLong
        | true => rfl
      have unrested : s.restsTooLong w = false := by
        simp [restsTooLong, Pool.check, found, Worker.idle_or_stopped idle]
      refine ⟨?_, fun _ upkeeps => ?_, by simp⟩
      · simp [unrested]
      · exact regular.stops found idle s.wall upkeeps

/-! ## §4 The pass -/

theorem watcherAt_setWatcher (same : s₁.pool.upkeeps = s.pool.upkeeps)
    (there : (s.pool.watcherAt u).isSome = true) (watcher : Watcher) :
    (s₁.setWatcher u watcher).pool.watcherAt u = some watcher := by
  obtain ⟨w, found⟩ := Option.isSome_iff_exists.1 there
  obtain ⟨k, found, -⟩ := Option.map_eq_some_iff.1 found
  show (((s₁.pool.upkeeps.modify u _)[u]?).map (·.watcher)) = _
  rw [same, List.getElem?_modify_eq, found]
  rfl

/-- A check of a pass: the worker is no longer to be checked, and the finding waits. -/
theorem stepCheck_of_pass (h : s.stepCheck u w = some s')
    (pass : (s.pool.watcherAt u).bind (·.pass?) = some (unchecked, waiting)) :
    w ∈ unchecked ∧ ∃ watcher : Watcher, s' = (s.checkWorker w).2.setWatcher u watcher ∧
      watcher.pass? = some (unchecked.erase w, waiting ++ [(w, (s.checkWorker w).1)]) := by
  obtain ⟨k, watcher, found, inspects, rfl⟩ := inspects_of_stepCheck h
  rw [Pool.watcherAt, found, Option.map_some, Option.bind_some] at pass
  cases inspects with
  | reaping stage mem | releasing stage mem =>
    simp only [stage, Watcher.pass?, Option.some.injEq, Prod.mk.injEq] at pass
    obtain ⟨rfl, rfl⟩ := pass
    exact ⟨mem, _, rfl, rfl⟩

/-- A step of the watcher in a pass: it deals with the first finding, or waits no longer for the
loop of a worker that it dismissed. -/
theorem stepWatcher_of_pass (h : s.stepWatcher u = some s')
    (pass : (s.pool.watcherAt u).bind (·.pass?) = some (unchecked, waiting))
    (unended : endsPass u (s, .task (.watcher u)) = false) :
    ∃ (watcher : Watcher) (waiting' : List (WorkerId × Bool)),
      watcher.pass? = some (unchecked, waiting') ∧
      (dealt? u (s, .task (.watcher u))).toList ++ waiting' = waiting ∧
      ((∃ w, dealt? u (s, .task (.watcher u)) = some (w, true) ∧
          s' = (s.releaseStopped w).2.setWatcher u watcher) ∨
        (∀ w, dealt? u (s, .task (.watcher u)) ≠ some (w, true)) ∧
          s' = s.setWatcher u watcher) := by
  obtain ⟨k, watcher, s₁, found, patrols, rfl⟩ := patrols_of_stepWatcher h
  have at_u : s.pool.watcherAt u = some k.watcher := by rw [Pool.watcherAt, found]; rfl
  simp only [dealt?, endsPass, at_u, Option.bind_some, if_true, beq_self_eq_true, Bool.true_and,
    Option.any_some] at pass unended ⊢
  cases patrols with
  | begins stage | ends stage | ticks stage => simp [stage, Watcher.pass?] at pass
  | grows stage =>
    rw [stage] at unended
    cases unended
  | @keeps _ _ w verdicts stage =>
    simp only [stage, Watcher.pass?, Watcher.finding?, Option.some.injEq, Prod.mk.injEq]
      at pass ⊢
    obtain ⟨rfl, rfl⟩ := pass
    exact ⟨_, verdicts, rfl, rfl, .inr ⟨by simp, rfl⟩⟩
  | @dismisses _ _ w verdicts _ _ stage reply | @spares _ _ w verdicts _ stage reply =>
    simp only [stage, Watcher.pass?, Watcher.finding?, Option.some.injEq, Prod.mk.injEq]
      at pass ⊢
    obtain ⟨rfl, rfl⟩ := pass
    exact ⟨_, verdicts, rfl, rfl, .inl ⟨w, rfl, by rw [reply]⟩⟩
  | @goesOn _ _ _ verdicts stage =>
    simp only [stage, Watcher.pass?, Watcher.finding?, Option.some.injEq, Prod.mk.injEq]
      at pass ⊢
    obtain ⟨rfl, rfl⟩ := pass
    exact ⟨_, verdicts, rfl, rfl, .inr ⟨by simp, rfl⟩⟩

theorem watcherAt_stepForwarder {v : UpkeepId} (h : s.stepForwarder v = some s') :
    s'.pool.watcherAt u = s.pool.watcherAt u := by
  obtain ⟨hub, forwarder, -, rfl⟩ := setForwarder_of_stepForwarder h
  show (((s.pool.upkeeps.modify v _)[u]?).map (·.watcher)) = _
  rw [List.getElem?_modify, Pool.watcherAt, Option.map_eq_map, Option.map_map]
  congr 1
  funext k
  rw [Function.comp_apply]
  split <;> rfl

/-- Nothing but its own steps and its checks changes how far a watcher has come. -/
theorem watcherAt_of_move {m : Move} (moved : s.move m = some s')
    (there : (s.pool.watcherAt u).isSome = true) (unstepped : m ≠ .task (.watcher u))
    (unchecked : checked? u (s, m) = none) : s'.pool.watcherAt u = s.pool.watcherAt u := by
  have same : ∀ {p : Pool}, s'.pool.frame = p.frame → s'.pool.watcherAt u = p.watcherAt u :=
    fun frame => (congrArg (Pool.watcherAt · u) frame :)
  have apart : ∀ {v : UpkeepId} {f : Upkeep → Upkeep}, v ≠ u →
      (s.pool.modifyUpkeep v f).watcherAt u = s.pool.watcherAt u := by
    intro v f other
    rw [Pool.watcherAt, Pool.modifyUpkeep, List.getElem?_modify_ne _ _ other, Pool.watcherAt]
  cases own : m.isUpkeepOf u with
  | true =>
    cases m with
    | task t =>
      cases t with
      | watcher v =>
        obtain rfl : u = v := eq_of_beq own
        exact absurd rfl unstepped
      | check v w =>
        rw [checked?, if_pos (eq_of_beq own).symm] at unchecked
        cases unchecked
      | forwarder v => exact watcherAt_stepForwarder moved
      | _ => cases own
    | _ => cases own
  | false =>
    cases tends_of_move moved with
    | spares _ frame => exact same frame
    | refuses _ _ => rfl
    | @watches t s' v k watcher steps _ _ frame =>
      refine (same frame).trans (apart ?_)
      rintro rfl
      rw [steps, beq_self_eq_true] at own
      cases own
    | @forwards s' v k forwarder _ _ frame =>
      refine (same frame).trans (apart ?_)
      rintro rfl
      simp [Move.isUpkeepOf] at own
    | goesOn _ _ frame => exact (same frame).trans rfl
    | starts _ frame _ =>
      refine (same frame).trans ?_
      obtain ⟨w, found⟩ := Option.isSome_iff_exists.1 there
      obtain ⟨k, found, -⟩ := Option.map_eq_some_iff.1 found
      show (((s.pool.upkeeps ++ _)[u]?).map (·.watcher)) = _
      rw [List.getElem?_append_left (List.getElem?_eq_some_iff.1 found).1, Pool.watcherAt]
    | stops _ frame => exact (same frame).trans rfl
    | releases _ frame => exact (same frame).trans rfl
    | abandons frame => exact (same frame).trans rfl

theorem checked?_eq_some {x : Site × Move} :
    checked? u x = some w ↔ x.2 = .task (.check u w) := by
  obtain ⟨s, m⟩ := x
  cases m with
  | task t =>
    cases t with
    | check v v' =>
      by_cases same : v = u
      · subst same
        simp [checked?]
      · simp [checked?, same]
    | _ => simp [checked?]
  | _ => simp [checked?]

theorem dealt?_of_ne {m : Move} (other : m ≠ .task (.watcher u)) : dealt? u (s, m) = none := by
  cases m with
  | task t =>
    cases t with
    | watcher v =>
      refine if_neg ?_
      rintro rfl
      exact other rfl
    | _ => rfl
  | _ => rfl

theorem upkeeps_of_checkWorker (w : WorkerId) :
    (s.checkWorker w).2.pool.upkeeps = s.pool.upkeeps :=
  (congrArg Pool.upkeeps (s.frame_checkWorker w) :)

theorem upkeeps_of_releaseStopped (w : WorkerId) :
    (s.releaseStopped w).2.pool.upkeeps = s.pool.upkeeps :=
  (congrArg Pool.upkeeps (s.frame_releaseStopped w) :)

/-- The pass has come so far. -/
def InPass (u : UpkeepId) (start : Site) (ms : List (Site × Move)) (s : Site) : Prop :=
  ∃ unchecked waiting, (s.pool.watcherAt u).bind (·.pass?) = some (unchecked, waiting) ∧
    (ms.filterMap (checked? u) ++ unchecked).Perm start.pool.registry ∧
    ms.filterMap (dealt? u) ++ waiting = findings u ms

theorem InPass.there {start : Site} {ms : List (Site × Move)} (h : InPass u start ms s) :
    (s.pool.watcherAt u).isSome = true := by
  obtain ⟨unchecked, waiting, pass, -, -⟩ := h
  obtain ⟨watcher, found, -⟩ := Option.bind_eq_some_iff.1 pass
  rw [found]
  rfl

theorem InPass.step {start : Site} {ms : List (Site × Move)} {m : Move}
    (h : InPass u start ms s) (regular : s.pool.Regular) (moved : s.move m = some s')
    (unended : endsPass u (s, m) = false) : InPass u start (ms ++ [(s, m)]) s' := by
  have there := h.there
  obtain ⟨unchecked, waiting, pass, perm, order⟩ := h
  rw [InPass, findings, List.filterMap_append, List.filterMap_append, List.filterMap_append,
    ← findings, ← order]
  cases checks : checked? u (s, m) with
  | some w =>
    obtain rfl : m = .task (.check u w) := checked?_eq_some.1 checks
    obtain ⟨mem, watcher, rfl, after⟩ := stepCheck_of_pass moved pass
    have undealt : dealt? u (s, .task (.check u w)) = none := rfl
    refine ⟨unchecked.erase w, waiting ++ [(w, (s.checkWorker w).1)], ?_, ?_, ?_⟩
    · rw [watcherAt_setWatcher (upkeeps_of_checkWorker w) there, Option.bind_some, after]
    · simp only [List.filterMap_cons, checks, List.filterMap_nil, List.append_assoc,
        List.singleton_append]
      exact ((List.perm_cons_erase mem).symm.append_left _).trans perm
    · simp only [List.filterMap_cons, checks, undealt, List.filterMap_nil, List.append_nil,
        Option.map_some, (checkWorker_spec regular w).1, List.append_assoc]
  | none =>
    simp only [List.filterMap_cons, checks, List.filterMap_nil, List.append_nil, Option.map_none]
    by_cases stepped : m = .task (.watcher u)
    · subst stepped
      obtain ⟨watcher, waiting', after, deals, effect⟩ := stepWatcher_of_pass moved pass unended
      refine ⟨unchecked, waiting', ?_, perm, ?_⟩
      · rcases effect with ⟨w, -, rfl⟩ | ⟨-, rfl⟩
        · rw [watcherAt_setWatcher (upkeeps_of_releaseStopped w) there, Option.bind_some, after]
        · rw [watcherAt_setWatcher rfl there, Option.bind_some, after]
      · rw [← deals]
        cases dealt? u (s, .task (.watcher u)) <;> simp
    · refine ⟨unchecked, waiting, ?_, perm, ?_⟩
      · rw [watcherAt_of_move moved there stepped checks, pass]
      · simp [dealt?_of_ne stepped]

end Site

section

open Site

variable {u : UpkeepId} {start s s' : Site} {ms : List (Site × Move)} {w : WorkerId}

theorem Path.inPass (path : Path start ms s) (regular : start.pool.Regular)
    (begins : InPass u start [] start) (unended : ∀ x ∈ ms, endsPass u x = false) :
    InPass u start ms s := by
  induction path with
  | here => exact begins
  | @step s s' ms m path moved ih =>
    have before := ih fun x hx => unended x (List.mem_append_left _ hx)
    exact before.step (path.regular regular) moved (unended _ (by simp))

/-- A check does what it is to do, and no more. -/
theorem Site.InPass.checks (h : InPass u start ms s) (regular : s.pool.Regular)
    (moved : s.move (.task (.check u w)) = some s') :
    if s.idlesTooLong w then s.pool.Stops s.wall w s'.pool else s.pool.Rests s'.pool := by
  obtain ⟨unchecked, waiting, pass, -, -⟩ := h
  obtain ⟨-, watcher, rfl, -⟩ := stepCheck_of_pass moved pass
  obtain ⟨-, stops, rests⟩ := checkWorker_spec regular w
  split
  · rename_i tooLong
    exact stops tooLong _
  · rename_i under
    rw [rests (by simpa using under)]
    rfl

/-- A step of the watcher does what it is to do, and no more. -/
theorem Site.InPass.dismisses (h : InPass u start ms s) (regular : s.pool.Regular)
    (moved : s.move (.task (.watcher u)) = some s')
    (unended : endsPass u (s, .task (.watcher u)) = false) :
    (∃ w, dealt? u (s, .task (.watcher u)) = some (w, true) ∧ s.mayDismiss w = true ∧
      s.pool.DismissesWorker w s'.pool) ∨
    (∀ w, dealt? u (s, .task (.watcher u)) = some (w, true) → s.mayDismiss w = false) ∧
      s.pool.Rests s'.pool := by
  obtain ⟨unchecked, waiting, pass, -, -⟩ := h
  obtain ⟨watcher, waiting', -, -, effect⟩ := stepWatcher_of_pass moved pass unended
  rcases effect with ⟨w, deals, rfl⟩ | ⟨undealt, rfl⟩
  · cases may : s.mayDismiss w with
    | true =>
      refine .inl ⟨w, deals, may, ?_⟩
      obtain ⟨registered, stopped⟩ := Bool.and_eq_true_iff.1 may
      have registered : w ∈ s.pool.registry := by simpa using registered
      obtain ⟨k, found⟩ := regular.sound.created w registered
      have stops : k.isStopped = true := by simpa [Pool.check, found] using stopped
      have dismissed := regular.dismisses registered found stops s.wall
      unfold releaseStopped
      rw [if_pos ⟨registered, stopped⟩]
      exact dismissed _
    | false =>
      refine .inr ⟨fun v deals' => ?_, ?_⟩
      · obtain rfl : w = v := by simpa [deals] using deals'
        exact may
      · have stays : (s.releaseStopped w).2 = s := by
          unfold releaseStopped
          rw [if_neg]
          rintro ⟨registered, stopped⟩
          simp [mayDismiss, registered, stopped] at may
        rw [stays]
        rfl
  · exact .inr ⟨fun w deals => absurd deals (undealt w), rfl⟩

/-- A worker is checked once, so no check stops one that is to be dismissed. -/
theorem Site.InPass.apart (h : InPass u start ms s) (distinct : start.pool.registry.Nodup)
    {x y : Site × Move} (hx : x ∈ ms) (hy : y ∈ ms) (checks : checked? u x = some w)
    (tooLong : x.1.idlesTooLong w = true) : dealt? u y ≠ some (w, true) := by
  obtain ⟨unchecked, waiting, -, perm, order⟩ := h
  intro deals
  have firsts : (findings u ms).map Prod.fst = ms.filterMap (checked? u) := by
    rw [findings, List.map_filterMap]
    refine List.filterMap_congr fun z _ => ?_
    cases checked? u z <;> rfl
  have once : ((findings u ms).map Prod.fst).Nodup := by
    rw [firsts]
    exact (List.nodup_append.1 (perm.nodup_iff.2 distinct)).1
  have found : (w, x.1.restsTooLong w) ∈ findings u ms :=
    List.mem_filterMap.2 ⟨x, hx, by rw [checks, Option.map_some]⟩
  have found' : (w, true) ∈ findings u ms := by
    rw [← order]
    exact List.mem_append_left _ (List.mem_filterMap.2 ⟨y, hy, deals⟩)
  have same := List.inj_on_of_nodup_map once found found' rfl
  have rests : x.1.restsTooLong w = true := congrArg Prod.snd same
  obtain ⟨k, worker, idle⟩ := (Option.any_eq_true ..).1 tooLong
  have stopped : k.isStopped = false :=
    Worker.idle_or_stopped (Bool.and_eq_true_iff.1 idle).1
  simp [restsTooLong, Pool.check, worker, stopped] at rests

/-- The watcher leaves a worker with a job where it is. -/
theorem Site.Reaps.spares (h : Reaps u start ms s) {x : Site × Move} {x' : Site} (hx : x ∈ ms)
    (moved : x.1.move x.2 = some x') (own : x.2 = .task (.watcher u)) {l : Loop}
    (hl : l ∈ x.1.pool.loops) (engaged : l.job? ≠ none)
    (registered : l.worker ∈ x.1.pool.registry) : l.worker ∈ x'.pool.registry := by
  rcases h.dismisses x hx x' moved own with ⟨w, -, -, dismissed⟩ | ⟨-, rests⟩
  · have other : l.worker ≠ w := fun same => engaged (dismissed.jobless l hl same)
    rw [dismissed.rest]
    exact (List.mem_erase_of_ne other).2 registered
  · rw [rests]
    exact registered

/-- A tick of the watcher begins a pass over all registered workers. -/
theorem Site.begins_of_tick {ticker : Ticker}
    (ticking : s.pool.watcherAt u = some (.ticking ticker))
    (ticked : s.move (.task (.watcher u)) = some s')
    (goes : s'.pool.watcherAt u ≠ some .ended) :
    s.pool.Rests s'.pool ∧ InPass u s' [] s' := by
  obtain ⟨k, found, watcher⟩ := Option.map_eq_some_iff.1 ticking
  have there : (s.pool.watcherAt u).isSome = true := by rw [ticking]; rfl
  have ended : (s.setWatcher u .ended).pool.watcherAt u = some .ended :=
    watcherAt_setWatcher rfl there _
  have stepped : s.stepWatcher u = some s' := ticked
  unfold stepWatcher at stepped
  simp only [found, watcher, Option.bind_eq_bind, Option.bind_some] at stepped
  split at stepped
  · cases stepped
    exact absurd ended goes
  · split at stepped
    · split at stepped
      · obtain rfl := Option.some.inj stepped
        refine ⟨rfl, s.pool.registry, [], ?_, .refl _, rfl⟩
        rw [watcherAt_setWatcher rfl there]
        rfl
      · cases stepped
        exact absurd ended goes
    · cases stepped

/-- Whatever is done to a pool before and during a reap pass: a check stops the worker if it is
idle for too long, and does nothing else; the watcher dismisses a worker that was found stopped for
too long if it is registered and stopped then, and does nothing else; no worker is both stopped
and dismissed; and when the pass is done, every worker registered at its beginning was checked
once and all that was found has been dealt with. A worker that is dismissed has no loop with a
job, and the others keep their places in the registry. -/
theorem reaps_of_path {name : String} {settings : Settings} {driver : Driver Job} {hub : Hub}
    {wall : Nat} {picks : Picks} {earlier ms : List (Site × Move)} {s₀ s₁ s : Site} {u : UpkeepId}
    {ticker : Ticker} (path : Path (.create name settings driver hub wall picks) earlier s₀)
    (ticking : s₀.pool.watcherAt u = some (.ticking ticker))
    (ticked : s₀.move (.task (.watcher u)) = some s₁)
    (goes : s₁.pool.watcherAt u ≠ some .ended) (pass : Path s₁ ms s)
    (unended : ∀ x ∈ ms, endsPass u x = false) :
    s₀.pool.Rests s₁.pool ∧ Reaps u s₁ ms s ∧
      ((s.pool.watcherAt u).any (·.hasReaped) = true →
        (ms.filterMap (checked? u)).Perm s₀.pool.registry ∧
        ms.filterMap (dealt? u) = findings u ms) := by
  have regular₀ := path.regular (Pool.regular_create name settings)
  have regular : s₁.pool.Regular := (Path.step _ .here ticked).regular regular₀
  obtain ⟨rests, begins⟩ := begins_of_tick ticking ticked goes
  have inPass := pass.inPass regular begins unended
  -- what the pass has come to where one of its moves is made
  have midway : ∀ x ∈ ms, x.1.pool.Regular ∧ ∃ ms', InPass u s₁ ms' x.1 := by
    intro x hx
    obtain ⟨ms', before, sub⟩ := pass.before hx
    exact ⟨before.regular regular, ms',
      before.inPass regular begins fun y hy => unended y (sub hy)⟩
  refine ⟨rests, ⟨inPass, fun x hx x' moved w checks => ?_, fun x hx x' moved own => ?_,
    fun x hx w checks tooLong y hy =>
      inPass.apart regular.sound.nodup hx hy checks tooLong⟩,
    fun done => ?_⟩
  · obtain ⟨regular', ms', inPass'⟩ := midway x hx
    rw [checked?_eq_some.1 checks] at moved
    exact inPass'.checks regular' moved
  · obtain ⟨regular', ms', inPass'⟩ := midway x hx
    have unended' := unended x hx
    obtain ⟨y, m⟩ := x
    obtain rfl : m = .task (.watcher u) := own
    exact inPass'.dismisses regular' moved unended'
  · obtain ⟨unchecked, waiting, reached, perm, order⟩ := inPass
    obtain ⟨watcher, at_u, reaped⟩ := (Option.any_eq_true ..).1 done
    obtain ⟨ticker', rfl⟩ := Watcher.hasReaped_iff.1 reaped
    rw [at_u, Option.bind_some] at reached
    obtain ⟨rfl, rfl⟩ : [] = unchecked ∧ [] = waiting := by
      simpa [Watcher.pass?] using reached
    have registry : s₁.pool.registry = s₀.pool.registry := (congrArg Pool.registry rests :)
    rw [List.append_nil, registry] at perm
    rw [List.append_nil] at order
    exact ⟨perm, order⟩

namespace Sample

/-- The watcher is about to tick a minute after one worker took a job and one was stopped. -/
def untilTick : List Move := staffThree ++ [.task (.watcher 0), .pass 0 60000000001]

/-- A pass in which the stopped worker is dismissed while another is still to be checked. -/
def reapPass : List Move :=
  [.task (.check 0 1), .task (.check 0 2), .task (.watcher 0), .task (.check 0 0),
   .task (.loop 1), .task (.watcher 0), .task (.watcher 0), .task (.watcher 0)]

end Sample

open Sample

/-- A move that can be made leads to where it leads when played. -/
theorem Site.move_eq_plays {m : Move} (able : (s.move m).isSome = true) :
    s.move m = some (s.plays [m]) := by
  obtain ⟨s', moved⟩ := Option.isSome_iff_exists.1 able
  simp [plays, moved]

namespace Sample

/-- The pass has just begun. -/
def passBegun : Site := (fiveWorkers.plays untilTick).plays [.task (.watcher 0)]

end Sample

/-- The stopped worker is dismissed, the idle one is stopped, and the one that works goes on. -/
theorem reaps_of_path_reaping :
    Reaps 0 passBegun (passBegun.trail reapPass) (passBegun.plays reapPass) ∧
      (passBegun.trail reapPass).filterMap (checked? 0) = [1, 2, 0] ∧
      (passBegun.trail reapPass).filterMap (dealt? 0) = findings 0 (passBegun.trail reapPass) ∧
      findings 0 (passBegun.trail reapPass) = [(1, true), (2, false), (0, false)] ∧
      (passBegun.plays reapPass).pool.registry = [0, 2] ∧
      (passBegun.plays reapPass).pool.workers.map (·.status) = [.working, .stopped, .stopped] := by
  have path := Site.path_of_plays untilTick fiveWorkers (by decide +kernel)
  have pass := Site.path_of_plays reapPass passBegun (by decide +kernel)
  have able : ((fiveWorkers.plays untilTick).move (.task (.watcher 0))).isSome = true := by
    decide +kernel
  have ticking : (fiveWorkers.plays untilTick).pool.watcherAt 0 =
      some (.ticking ⟨0, .ofMillis 100⟩) := by decide +kernel
  obtain ⟨-, reaps, done⟩ := reaps_of_path path ticking (move_eq_plays able) (by decide +kernel)
    pass (by decide +kernel)
  obtain ⟨-, dealt⟩ := done (by decide +kernel)
  exact ⟨reaps, by decide +kernel, dealt, by decide +kernel, by decide +kernel, by decide +kernel⟩

end
end JobPool
