/-
JobPool.Proofs.Pool.Winding — what a release does to the staff of a pool.

Until a release takes effect, a worker leaves the registry only when it is stopped, so the
registry has all workers that could still do something (`Pool.Serving`). The release
cancels the root, after which no worker starts, new or again, and no loop takes a job.
When upkeep has ended it empties the registry and waits for the loops of the workers that
were there; `Pool.Winding` says what is left of the staff at each stage of the call.

  §1 Before a release
  §2 While a release is under way
  §3 Paths
-/
import JobPool.Proofs.Pool.Standing

namespace JobPool

open Pool (Change Changes Deed)

namespace Pool

/-! ## §1 Before a release -/

/-- Only stopped workers left the registry, and no release is under way. -/
structure Serving (p : Pool) : Prop where
  stopped : ∀ (w : WorkerId) (k : Worker), p.workers[w]? = some k → w ∉ p.registry →
    k.isStopped = true
  calls : ∀ call ∈ p.calls, call.isRelease = false

theorem serving_create (name : String) (settings : Settings) : (create name settings).Serving where
  stopped _ _ found := by cases found
  calls := List.forall_mem_nil _

/-- A released pool stays released, and none of the calls takes effect on its status. -/
theorem released_of_change {p q : Pool} {d : Option Deed} (h : p.status = .released)
    (change : Change p d q) : q.status = .released := by
  cases change with
  | aside aside =>
    cases aside with
    | start wall ready => simp [h] at ready
    | beginStop _ running => simp [h] at running
    | beginRelease _ _ => rfl
    | _ => exact h
  | stop wall w => exact (congrArg Pool.status (p.asked_stopWorker wall w).rest :).trans h
  | halt wall _ _ asked => exact (congrArg Pool.status asked.rest :).trans h
  | drain wall _ _ asked _ => exact (congrArg Pool.status asked.rest :).trans h
  | _ => exact h

theorem release_of_mem_set {calls : List Call} {c : CallId} {call call' : Call}
    (h : call ∈ calls.set c call') (none_new : call'.isRelease = false)
    (calm : ∀ call ∈ calls, call.isRelease = false) : call.isRelease = false := by
  rcases List.mem_or_eq_of_mem_set h with h | rfl
  · exact calm call h
  · exact none_new

theorem Serving.of_change {p q : Pool} {d : Option Deed} (h : p.Serving) (sound : p.Sound)
    (change : Change p d q) (unreleased : q.status ≠ .released) : q.Serving := by
  refine ⟨fun w k' found' gone => ?_, ?_⟩
  · rcases sound.fate_of_change change found' with ⟨k, found, fate⟩ | new
    · by_cases registered : w ∈ p.registry
      · rcases (gone_of_change change registered gone found').2 with stopped | ⟨c, u, ls, waits, -⟩
        · exact stopped
        · cases h.calls _ (List.mem_of_getElem? waits)
      · exact fate.isStopped (h.stopped w k found registered)
    · exact absurd new.registered gone
  · have same : ∀ {r : Pool}, r.calls = p.calls → ∀ call ∈ r.calls, call.isRelease = false :=
      fun calls call hc => h.calls call (calls ▸ hc)
    cases change with
    | aside aside =>
      cases aside with
      | beginStop _ _ =>
        intro call hc
        rcases List.mem_append.1 hc with hc | hc
        · exact h.calls call hc
        · rw [List.mem_singleton.1 hc]
          rfl
      | beginRelease _ _ => exact absurd rfl unreleased
      | releaseReturns _ _ => exact fun _ hc => release_of_mem_set hc rfl h.calls
      | _ => exact same rfl
    | stop wall w => exact same (congrArg Pool.calls (p.asked_stopWorker wall w).rest :)
    | halt wall _ _ _ => exact fun _ hc => release_of_mem_set hc rfl h.calls
    | drain wall waits _ _ _ => cases h.calls _ (List.mem_of_getElem? waits)
    | _ => exact same rfl

/-! ## §2 While a release is under way -/

/-- What is left of the staff at a stage of a release. -/
def Stage (p : Pool) : Call → Prop
  | .stopping _ => False
  | .releasing _ => ∀ (w : WorkerId) (k : Worker), p.workers[w]? = some k → w ∉ p.registry →
      k.isStopped = true
  | .draining loops => p.registry = [] ∧ ∀ (w : WorkerId) (k : Worker), p.workers[w]? = some k →
      k.isStopped = true ∨ ∃ i ∈ loops, ∃ l : Loop, p.loops[i]? = some l ∧ p.Carries l w
  | .returned => p.registry = [] ∧ ∀ (w : WorkerId) (k : Worker), p.workers[w]? = some k →
      k.isStopped = true ∨ ∃ (i : LoopId) (l : Loop), p.loops[i]? = some l ∧ p.Carries l w ∧
        l.phase = .crashed

/-- Release number `c` has taken effect. -/
structure Winding (c : CallId) (p : Pool) : Prop where
  status : p.status = .released
  root : p.tokens.root = true
  only : ∀ (c' : CallId) (call : Call), p.calls[c']? = some call → call.isRelease = true → c' = c
  stage : ∃ call, p.calls[c]? = some call ∧ p.Stage call

/-- A release that is under way was under way before, unless it takes effect just now. -/
theorem release_of_change {p q : Pool} {d : Option Deed} (h : p.status = .released)
    (change : Change p d q) {c : CallId} {call' : Call} (found' : q.calls[c]? = some call')
    (release : call'.isRelease = true) :
    ∃ call, p.calls[c]? = some call ∧ call.isRelease = true := by
  have same : ∀ {r : Pool}, r.calls = p.calls → r.calls[c]? = some call' →
      ∃ call, p.calls[c]? = some call ∧ call.isRelease = true :=
    fun calls found => ⟨call', calls ▸ found, release⟩
  have set : ∀ {c' : CallId} {new old : Call}, p.calls[c']? = some old → old.isRelease = true ∨
      new.isRelease = false → (p.calls.set c' new)[c]? = some call' →
        ∃ call, p.calls[c]? = some call ∧ call.isRelease = true := by
    intro c' new old was kinds found
    by_cases own : c' = c
    · subst own
      rw [List.getElem?_set_self (List.getElem?_eq_some_iff.1 was).1] at found
      obtain rfl := Option.some.inj found
      rcases kinds with old_release | new_none
      · exact ⟨old, was, old_release⟩
      · rw [release] at new_none
        cases new_none
    · rw [List.getElem?_set_ne own] at found
      exact ⟨call', found, release⟩
  cases change with
  | aside aside =>
    cases aside with
    | beginStop _ running => simp [h] at running
    | beginRelease _ unreleased => exact absurd h unreleased
    | releaseReturns was _ => exact set was (.inl rfl) found'
    | _ => exact same rfl found'
  | stop wall w => exact same (congrArg Pool.calls (p.asked_stopWorker wall w).rest :) found'
  | halt wall was _ _ => exact set was (.inr rfl) found'
  | drain wall was _ _ _ => exact set was (.inl rfl) found'
  | _ => exact same rfl found'

/-- Where no worker starts, those that there are were there before. -/
theorem fate_of_released {p q : Pool} {d : Option Deed} (h : p.status = .released) (sound : p.Sound)
    (change : Change p d q) {w : WorkerId} {k' : Worker} (found' : q.workers[w]? = some k') :
    ∃ k, p.workers[w]? = some k ∧ Fate p q w k k' := by
  refine (sound.fate_of_change change found').resolve_right fun new => ?_
  have running := new.running
  rw [h] at running
  cases running

theorem registry_of_released {p q : Pool} {d : Option Deed} (h : p.status = .released)
    (sound : p.Sound) (change : Change p d q) (empty : p.registry = []) : q.registry = [] := by
  refine List.eq_nil_iff_forall_not_mem.2 fun w registered => ?_
  obtain ⟨k', found'⟩ := (sound.of_change change).created w registered
  obtain ⟨k, found, -⟩ := fate_of_released h sound change found'
  have was := registered_of_change change found registered
  rw [empty] at was
  cases was

/-- A stage of the call goes on while others take their steps. -/
theorem Stage.of_change {p q : Pool} {d : Option Deed} {c : CallId} {call : Call}
    (stage : p.Stage call) (h : p.Winding c) (sound : p.Sound) (change : Change p d q)
    (was : p.calls[c]? = some call) (stays : q.calls[c]? = some call) : q.Stage call := by
  have staff : ∀ {P Q : WorkerId → Prop},
      (∀ (w : WorkerId) (k : Worker), p.workers[w]? = some k → k.isStopped = true ∨ P w) →
      (∀ (w : WorkerId) (k k' : Worker), p.workers[w]? = some k → q.workers[w]? = some k' →
        Fate p q w k k' → P w → Q w) →
      ∀ (w : WorkerId) (k' : Worker), q.workers[w]? = some k' → k'.isStopped = true ∨ Q w := by
    intro P Q left goes w k' found'
    obtain ⟨k, found, fate⟩ := fate_of_released h.status sound change found'
    exact (left w k found).imp fate.isStopped (goes w k k' found found' fate)
  cases call with
  | stopping u => exact stage.elim
  | releasing u =>
    intro w k' found' gone
    obtain ⟨k, found, fate⟩ := fate_of_released h.status sound change found'
    by_cases registered : w ∈ p.registry
    · refine (gone_of_change change registered gone found').2.resolve_right ?_
      rintro ⟨c', u', ls, waits, drained⟩
      obtain rfl := h.only c' _ waits rfl
      rw [stays] at drained
      cases drained
    · exact fate.isStopped (stage w k found registered)
  | draining loops =>
    refine ⟨registry_of_released h.status sound change stage.1, staff stage.2 ?_⟩
    rintro w k k' found found' fate ⟨i, hi, l, at_i, carried⟩
    exact ⟨i, hi, fate.carries change found found' at_i carried⟩
  | returned =>
    refine ⟨registry_of_released h.status sound change stage.1, staff stage.2 ?_⟩
    rintro w k k' found found' fate ⟨i, l, at_i, carried, crashed⟩
    obtain ⟨l', at_i', carried'⟩ := fate.carries change found found' at_i carried
    refine ⟨i, l', at_i', carried', ?_⟩
    rcases goes_of_change change at_i' with ⟨l₀, at_i₀, goes⟩ | ⟨beyond, -⟩
    · obtain rfl := Option.some.inj (at_i.symm.trans at_i₀)
      rw [goes.stays (by simp [Loop.isOver, crashed]), crashed]
    · rw [at_i] at beyond
      cases beyond

/-- The workers of the registry are asked to end, and their loops are those to wait for. -/
theorem stage_of_drain {p r : Pool} {wall : Nat} {loops : List LoopId} {calls : List Call}
    (manned : p.Manned)
    (left : ∀ (w : WorkerId) (k : Worker), p.workers[w]? = some k → w ∉ p.registry →
      k.isStopped = true)
    (asked : Asked (retired wall) p p.registry r)
    (waits : ∀ w ∈ p.registry, ∀ k i, p.workers[w]? = some k → k.loop = some i → i ∈ loops) :
    ({ r with registry := [], calls } : Pool).Stage (.draining loops) := by
  refine ⟨rfl, fun w k' found' => ?_⟩
  have changed := asked.workers w
  rw [show r.workers[w]? = some k' from found'] at changed
  obtain ⟨k, found, same⟩ := Option.map_eq_some_iff.1 changed.symm
  by_cases registered : w ∈ p.registry
  · rw [if_pos registered] at same
    obtain ⟨i, l, handle, at_i, carried⟩ := manned.handle w registered k found
    refine .inr ⟨i, waits w registered k i found handle, l, ?_, ?_⟩
    · rw [show ({ r with registry := [], calls } : Pool).loops = p.loops from
        (congrArg Pool.loops asked.rest :)]
      exact at_i
    · refine (carries_iff found').2 ⟨((carries_iff found).1 carried).1, ?_⟩
      rw [((carries_iff found).1 carried).2, ← same]
      exact (k.generation_stop wall).symm
  · rw [if_neg registered] at same
    exact .inl (same ▸ left w k found registered)

/-- The loops that were waited for are over, and so the workers have stopped, or crashed. -/
theorem stage_of_return {p : Pool} {loops : List LoopId} {c : CallId} (manned : p.Manned)
    (stage : p.Stage (.draining loops)) (ended : loops.all p.loopIsOver = true) :
    (p.setCall c .returned).Stage .returned := by
  refine ⟨stage.1, fun w k found => ?_⟩
  rcases stage.2 w k found with stopped | ⟨i, hi, l, at_i, carried⟩
  · exact .inl stopped
  · have finished : l.isOver = true := by
      have all := List.all_eq_true.1 ended i hi
      rw [loopIsOver, at_i] at all
      exact all
    cases phase : l.phase with
    | ended => exact .inl (manned.ended w k found l (List.mem_of_getElem? at_i) carried phase)
    | crashed => exact .inr ⟨i, l, at_i, carried, phase⟩
    | _ => simp [Loop.isOver, phase] at finished

theorem Winding.of_change {c : CallId} {p q : Pool} {d : Option Deed} (h : p.Winding c)
    (regular : p.Regular) (change : Change p d q) : q.Winding c := by
  obtain ⟨call, was, stage⟩ := h.stage
  refine ⟨released_of_change h.status change, (before_of_change change).root_of_root h.root, ?_, ?_⟩
  · intro c' call' found' release
    obtain ⟨call, found, release⟩ := release_of_change h.status change found' release
    exact h.only c' call found release
  · by_cases called : d = some (.called c)
    · subst called
      have inRange : ∀ new : Call, (p.calls.set c new)[c]? = some new := fun new =>
        List.getElem?_set_self (List.getElem?_eq_some_iff.1 was).1
      cases change with
      | aside aside =>
        cases aside with
        | releaseReturns found ended =>
          obtain rfl := Option.some.inj (was.symm.trans found)
          exact ⟨_, inRange _, stage_of_return regular.manned stage ended⟩
      | halt wall found _ _ =>
        obtain rfl := Option.some.inj (was.symm.trans found)
        exact stage.elim
      | drain wall found _ asked waits =>
        obtain rfl := Option.some.inj (was.symm.trans found)
        exact ⟨_, inRange _, stage_of_drain regular.manned stage asked waits⟩
    · have stays := call_of_change change was called
      exact ⟨call, stays, stage.of_change h regular.sound change was stays⟩

/-- No loop of a released pool may take a job. -/
theorem Winding.closed {c : CallId} {p : Pool} (h : p.Winding c) : p.Closed where
  status := .inr h.status
  barred l _ := by simp [mayTake, Tokens.isCancelled, h.root]

end Pool

/-! ## §3 Paths -/

/-- The pool takes no jobs, and nothing starts, stops or releases it; all calls leave everything
as it is. -/
structure Site.Refuses (s : Site) : Prop where
  dispatch : ∀ job, s.dispatch job = (false, s)
  start : s.start = (false, s)
  stop : s.beginStop = (none, s)
  release : s.beginRelease = (none, s)
  spawn : s.spawnWorkers = (0, s)

theorem Site.refuses_of_released {s : Site} (released : s.pool.status = .released) : s.Refuses where
  dispatch job := by simp [Site.dispatch, released]
  start := by simp [Site.start, released]
  stop := by simp [Site.beginStop, released]
  release := by simp [Site.beginRelease, released]
  spawn := by simp [Site.spawnWorkers, released]

/-- Until a pool is released it serves. -/
theorem Path.serving {start s : Site} {ms : List (Site × Move)} (path : Path start ms s)
    (regular : start.pool.Regular) (serving : start.pool.Serving)
    (unreleased : s.pool.status ≠ .released) : s.pool.Serving := by
  have kept := path.keeps (P := fun p => p.Regular ∧ (p.status ≠ .released → p.Serving))
    ⟨regular, fun _ => serving⟩
    fun {p q d} change h => ⟨h.1.of_change change, fun still => ?_⟩
  · exact kept.2 unreleased
  · have before : p.status ≠ .released := fun released =>
      still (Pool.released_of_change released change)
    exact (h.2 before).of_change h.1.sound change still

theorem Site.winding_of_beginRelease {s : Site} {c : CallId} (begins : s.beginRelease.1 = some c)
    (serving : s.pool.Serving) : s.beginRelease.2.pool.Winding c := by
  unfold beginRelease at begins ⊢
  split at begins
  · cases begins
  · rename_i unreleased
    obtain rfl := Option.some.inj begins
    rw [if_neg unreleased]
    refine ⟨rfl, rfl, fun c' call found release => ?_, _, List.getElem?_concat_length, ?_⟩
    · have found : (s.pool.calls ++ [.releasing s.pool.current])[c']? = some call := found
      rw [List.getElem?_append] at found
      split at found
      · rw [serving.calls call (List.mem_of_getElem? found)] at release
        cases release
      · rename_i beyond
        have last := (List.getElem?_eq_some_iff.1 found).1
        rw [List.length_singleton] at last
        exact Nat.le_antisymm (Nat.le_of_sub_eq_zero (Nat.lt_one_iff.1 last))
          (Nat.le_of_not_lt beyond)
    · exact serving.stopped

/-- From the moment a release takes effect it is under way. -/
theorem Path.winding {name : String} {settings : Settings} {driver : Driver Job} {hub : Hub}
    {wall : Nat} {picks : Picks} {past ms : List (Site × Move)} {s s' : Site} {c : CallId}
    (came : Path (.create name settings driver hub wall picks) past s)
    (begins : s.beginRelease.1 = some c) (goes : Path s.beginRelease.2 ms s') :
    s'.pool.Regular ∧ s'.pool.Winding c := by
  have create := Pool.regular_create name settings
  have unreleased : s.pool.status ≠ .released := by
    intro released
    rw [(Site.refuses_of_released released).release] at begins
    cases begins
  have serving := came.serving create (Pool.serving_create name settings) unreleased
  have release : Path s [(s, .beginRelease)] s.beginRelease.2 := .step .beginRelease .here rfl
  exact goes.keeps (P := fun p => p.Regular ∧ p.Winding c)
    ⟨(came.trans release).regular create, Site.winding_of_beginRelease begins serving⟩
    fun change h => ⟨h.1.of_change change, h.2.of_change h.1 change⟩

end JobPool
