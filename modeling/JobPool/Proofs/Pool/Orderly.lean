/-
JobPool.Proofs.Pool.Orderly — what is true of a pool at any time, and why its calls return.

The invariants that a stop and a release need to return do not depend on how the pool came to
where it is: `Pool.Orderly` lists them, a new pool has them and every move keeps them. On a
strand on which all tasks have their turns a call of an orderly pool returns, a stop whatever
the jobs do and a release once the attempts in flight end, and no panic of a listener prevents
it.
-/
import JobPool.Proofs.Pool.Returning

namespace JobPool

open Pool (Change Changes Deed)

namespace Pool

/-- The invariants of a pool and of its calls. -/
structure Orderly (p : Pool) : Prop where
  regular : p.Regular
  patient : p.Patient
  faithful : p.Faithful
  serving : p.status ≠ .released → p.Serving
  winding : p.status = .released → ∃ c, p.Winding c
  /-- What a stop waits for has been told to end. -/
  dismissed : ∀ (c : CallId) (u : UpkeepId),
    p.calls[c]? = some (.stopping (some u)) → p.Dismisses u

theorem orderly_create (name : String) (settings : Settings) : (create name settings).Orderly where
  regular := regular_create name settings
  patient := patient_create name settings
  faithful := faithful_create name settings
  serving _ := serving_create name settings
  winding released := by cases released
  dismissed _ _ found := by cases found

/-- A call of stop or release that has not returned is a release only in a released pool. -/
theorem Orderly.released {p : Pool} (h : p.Orderly) {c : CallId} {call : Call}
    (found : p.calls[c]? = some call) (release : call.isRelease = true) : p.Winding c := by
  have released : p.status = .released := by
    by_contra unreleased
    rw [(h.serving unreleased).calls call (List.mem_of_getElem? found)] at release
    cases release
  obtain ⟨c', winding⟩ := h.winding released
  exact winding.only c call found release ▸ winding

end Pool

namespace Site

variable {s s' : Site} {m : Move} {c : CallId}

/-- A stop that is under way was under way before, or begins just now. -/
theorem stopping_of_move (moved : s.move m = some s') {u : Option UpkeepId}
    (found' : s'.pool.calls[c]? = some (.stopping u)) :
    s.pool.calls[c]? = some (.stopping u) ∨
      m = .beginStop ∧ s.beginStop.1 = some c ∧ s.pool.current = u := by
  have same : ∀ {p : Pool}, s'.pool.frame = p.frame → p.calls = s.pool.calls →
      s.pool.calls[c]? = some (.stopping u) := fun frame calls =>
    ((congrArg Pool.calls frame :).trans calls : s'.pool.calls = s.pool.calls) ▸ found'
  cases tends_of_move moved with
  | spares _ frame => exact .inl (same frame rfl)
  | refuses _ _ => exact .inl found'
  | watches _ _ _ frame => exact .inl (same frame rfl)
  | forwards _ _ frame => exact .inl (same frame rfl)
  | @goesOn _ c₀ _ call' found goes frame =>
    have calls : s'.pool.calls = s.pool.calls.set c₀ call' := (congrArg Pool.calls frame :)
    rw [calls, List.getElem?_set] at found'
    split at found'
    · rename_i own
      subst own
      rw [if_pos (List.getElem?_eq_some_iff.1 found).1] at found'
      obtain rfl := Option.some.inj found'
      cases goes
    · exact .inl found'
  | starts _ frame _ => exact .inl (same frame rfl)
  | stops running frame =>
    have calls : s'.pool.calls = s.pool.calls ++ [.stopping s.pool.current] :=
      (congrArg Pool.calls frame :)
    rw [calls, List.getElem?_append] at found'
    split at found'
    · exact .inl found'
    · rename_i beyond
      obtain ⟨last, same⟩ := List.getElem?_eq_some_iff.1 found'
      rw [List.length_singleton] at last
      have place : s.pool.calls.length = c := by omega
      refine .inr ⟨rfl, ?_, ?_⟩
      · rw [beginStop, if_pos running, ← place]
        rfl
      · rw [List.getElem_singleton] at same
        exact Call.stopping.inj same
  | releases _ frame =>
    have calls : s'.pool.calls = s.pool.calls ++ [.releasing s.pool.current] :=
      (congrArg Pool.calls frame :)
    rw [calls, List.getElem?_append] at found'
    split at found'
    · exact .inl found'
    · have last := List.mem_singleton.1 (List.mem_of_getElem? found')
      cases last
  | abandons frame => exact .inl (same frame rfl)

theorem begins_of_unreleased (unreleased : s.pool.status ≠ .released) :
    s.beginRelease.1 = some s.pool.calls.length := by
  rw [beginRelease, if_neg unreleased]
  rfl

/-- A pool is released by a release, and by nothing else. -/
theorem release_of_move (moved : s.move m = some s') (unreleased : s.pool.status ≠ .released)
    (released : s'.pool.status = .released) : s' = s.beginRelease.2 := by
  have not_same : ∀ {p : Pool}, s'.pool.frame = p.frame → p.status ≠ .released → False :=
    fun frame other => other ((congrArg Pool.status frame :).symm.trans released)
  cases tends_of_move moved with
  | spares _ frame => exact (not_same frame unreleased).elim
  | refuses _ _ => exact absurd released unreleased
  | watches _ _ _ frame => exact (not_same frame unreleased).elim
  | forwards _ _ frame => exact (not_same frame unreleased).elim
  | goesOn _ _ frame => exact (not_same frame unreleased).elim
  | starts _ frame _ => exact (not_same frame (by simp [Pool.started])).elim
  | stops _ frame => exact (not_same frame (by simp)).elim
  | releases _ _ => exact (Option.some.inj moved).symm
  | abandons frame => exact (not_same frame unreleased).elim

theorem orderly_of_move (h : s.pool.Orderly) (moved : s.move m = some s') : s'.pool.Orderly where
  regular := keeps_of_move moved h.regular fun change regular => regular.of_change change
  patient := patient_of_move h.patient h.regular moved
  faithful := keeps_of_move (P := Pool.Faithful) moved h.faithful
    fun change faithful => faithful.of_change change
  serving unreleased := by
    refine (keeps_of_move (P := fun p => p.Regular ∧ (p.status ≠ .released → p.Serving)) moved
      ⟨h.regular, h.serving⟩ fun {p q d} change kept => ?_).2 unreleased
    refine ⟨kept.1.of_change change, fun still => ?_⟩
    exact (kept.2 fun released => still (Pool.released_of_change released change)).of_change
      kept.1.sound change still
  winding released := by
    by_cases was : s.pool.status = .released
    · obtain ⟨c, winding⟩ := h.winding was
      exact ⟨c, (keeps_of_move (P := fun p => p.Regular ∧ p.Winding c) moved ⟨h.regular, winding⟩
        fun change kept => ⟨kept.1.of_change change, kept.2.of_change kept.1 change⟩).2⟩
    · rw [release_of_move moved was released]
      exact ⟨_, winding_of_beginRelease (begins_of_unreleased was) (h.serving was)⟩
  dismissed c u found' := by
    rcases stopping_of_move moved found' with found | ⟨rfl, begins, current⟩
    · exact keeps_of_move (P := fun p => p.Dismisses u) moved (h.dismissed c u found)
        fun change dismissed => dismissed.of_change change
    · obtain rfl := Option.some.inj moved
      obtain ⟨k, found⟩ := h.patient.current u current
      have used : k.token ∈ s.pool.inUse := List.mem_append_right _
        (List.mem_append_left _ (List.mem_map_of_mem (List.mem_of_getElem? found)))
      exact dismisses_of_beginStop begins (h.regular.apportioned.handedOut _ used) current found

end Site

theorem Path.orderly {start s : Site} {ms : List (Site × Move)} (path : Path start ms s)
    (h : start.pool.Orderly) : s.pool.Orderly := by
  induction path with
  | here => exact h
  | step m _ moved ih => exact Site.orderly_of_move ih moved

/-! ## Calls return -/

namespace Strand

variable {ς : Strand} {c : CallId}

theorem orderly (ς : Strand) (h : (ς.state 0).pool.Orderly) : ∀ n, (ς.state n).pool.Orderly
  | 0 => h
  | n + 1 => by
    cases own : ς.move n with
    | none =>
      rw [ς.rested own]
      exact ς.orderly h n
    | some m =>
      obtain ⟨s, moved, same⟩ := ς.moved own
      rw [same]
      exact Site.orderly_of_move (ς.orderly h n) moved

/-- A stop returns. -/
theorem returns_of_stop {u : Option UpkeepId} (h : (ς.state 0).pool.Orderly)
    (fair : ∀ t, ς.IsFair t) (waits : (ς.state 0).pool.calls[c]? = some (.stopping u)) :
    ∃ n, (ς.state n).pool.calls[c]? = some .returned := by
  refine returns_of_stopping (fair (.call c)) waits fun v same => ?_
  subst same
  exact endsUpkeep_of_dismissed fair (fun n => (ς.orderly h n).patient) (h.dismissed c v waits)

/-- A release returns if the attempts in flight end. -/
theorem returns_of_release {call : Call} (h : (ς.state 0).pool.Orderly) (fair : ∀ t, ς.IsFair t)
    (favours : ∀ i, ς.Favours i) (found : (ς.state 0).pool.calls[c]? = some call)
    (release : call.isRelease = true) : ∃ n, (ς.state n).pool.calls[c]? = some .returned := by
  have winding : ∀ n, (ς.state n).pool.Regular ∧ (ς.state n).pool.Winding c := fun n =>
    ς.stays (P := fun p => p.Regular ∧ p.Winding c) (Nat.zero_le n)
      ⟨h.regular, h.released found release⟩
      fun change kept => ⟨kept.1.of_change change, kept.2.of_change kept.1 change⟩
  exact WindsDown.returns
    ⟨fun n => (winding n).2, fun n => (ς.orderly h n).faithful, favours, fair⟩

/-- Any call returns if the attempts in flight end. -/
theorem returns (h : (ς.state 0).pool.Orderly) (fair : ∀ t, ς.IsFair t)
    (favours : ∀ i, ς.Favours i) {call : Call} (found : (ς.state 0).pool.calls[c]? = some call) :
    ∃ n, (ς.state n).pool.calls[c]? = some .returned := by
  cases call with
  | stopping u => exact returns_of_stop h fair found
  | releasing u => exact returns_of_release h fair favours found rfl
  | draining loops => exact returns_of_release h fair favours found rfl
  | returned => exact ⟨0, found⟩

end Strand

namespace Schedule

variable {name : String} {settings : Settings} {driver : Driver Job} {hub : Hub} {wall : Nat}
  {picks : Picks} {past : List (Site × Move)} {s : Site} {c : CallId} {σ : Schedule}

/-- A stop that was begun in some state of a pool returns on every schedule from there on that
lets all tasks have their turns. -/
theorem returns_of_beginStop (came : Path (.create name settings driver hub wall picks) past s)
    (begins : s.beginStop.1 = some c) (state : σ.state 0 = s.beginStop.2)
    (fair : ∀ t, σ.IsFair t) : ∃ n, (σ.state n).pool.calls[c]? = some .returned := by
  have orderly := Site.orderly_of_move (m := .beginStop)
    (came.orderly (Pool.orderly_create name settings)) rfl
  obtain ⟨-, waits⟩ := Site.begun_of_beginStop begins
  rw [← state] at orderly waits
  exact σ.strand.returns_of_stop orderly (fun t => (fair t).strand) waits

/-- A release that was begun in some state of a pool returns on every schedule from there on that
favours all tasks. -/
theorem returns_of_beginRelease (came : Path (.create name settings driver hub wall picks) past s)
    (begins : s.beginRelease.1 = some c) (state : σ.state 0 = s.beginRelease.2)
    (favours : σ.FavoursAll) : ∃ n, (σ.state n).pool.calls[c]? = some .returned := by
  have orderly := Site.orderly_of_move (m := .beginRelease)
    (came.orderly (Pool.orderly_create name settings)) rfl
  obtain ⟨call, found, stage⟩ := (came.winding begins .here).2.stage
  rw [← state] at orderly found
  exact σ.strand.returns orderly (fun t => (favours.fair t).strand)
    (fun i => (favours.loops i).strand) found

end Schedule
end JobPool
