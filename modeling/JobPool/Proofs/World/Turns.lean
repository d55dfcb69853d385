/-
JobPool.Proofs.World.Turns — each pool of a world goes its own way.

A turn either is a move of a pool or leaves the pool exactly as it is (`Turn.member`), whatever
it does to the driver and the bus that the pool works on. So a row of turns is a row of moves of
each pool by itself, as far as the pool goes, and what is known of any state of a pool from its
own moves holds in any company: the status machine, the invariants, and, on a schedule that is
fair to all, the return of its calls.

  §1 One turn
  §2 Rows of turns
  §3 Schedules
  §4 Schedules that come to rest
-/
import JobPool.Proofs.Manager.History
import JobPool.Proofs.Pool.Phases
import JobPool.World.Turns

namespace JobPool
namespace World

variable {w w' : World} {i : PoolId} {k : Member} {l : Label} {ls : List Label} {s s' : Site}

/-! ## §1 One turn -/

theorem site?_eq_some : w.site? i = some s ↔ ∃ k driver bus, w.members[i]? = some k ∧
    w.drivers[k.driver]? = some driver ∧ w.buses[k.bus]? = some bus ∧
    s = { pool := k.pool, driver, hub := { bus, journal := w.journal, now := w.now },
          wall := w.wall, picks := w.picks i } := by
  simp only [site?, Option.bind_eq_bind, Option.bind_eq_some_iff, Option.some.injEq,
    eq_comm (a := s)]
  constructor
  · rintro ⟨k, found, driver, hasDriver, bus, hasBus, same⟩
    exact ⟨k, driver, bus, found, hasDriver, hasBus, same⟩
  · rintro ⟨k, driver, bus, found, hasDriver, hasBus, same⟩
    exact ⟨k, found, driver, hasDriver, bus, hasBus, same⟩

/-- A pool has surroundings if its driver and its bus are there. -/
theorem isSome_site? : (w.site? i).isSome = true ↔ ∃ k, w.members[i]? = some k ∧
    k.driver < w.drivers.length ∧ k.bus < w.buses.length := by
  rw [Option.isSome_iff_exists]
  constructor
  · rintro ⟨s, found⟩
    obtain ⟨k, driver, bus, member, hasDriver, hasBus, -⟩ := site?_eq_some.1 found
    exact ⟨k, member, (List.getElem?_eq_some_iff.1 hasDriver).1,
      (List.getElem?_eq_some_iff.1 hasBus).1⟩
  · rintro ⟨k, member, hasDriver, hasBus⟩
    exact ⟨_, site?_eq_some.2 ⟨k, _, _, member, List.getElem?_eq_getElem hasDriver,
      List.getElem?_eq_getElem hasBus, rfl⟩⟩

theorem members_putSite (w : World) (i : PoolId) (s : Site) (j : PoolId) :
    (w.putSite i s).members[j]? =
      (w.members[j]?).map fun k => if i = j then { k with pool := s.pool } else k := by
  unfold putSite
  split
  · rename_i missing
    by_cases same : i = j
    · rw [← same, missing]
      rfl
    · simp [same]
  · rename_i k found
    rw [List.getElem?_set]
    split
    · rename_i same
      subst same
      rw [if_pos (List.getElem?_eq_some_iff.1 found).1, found, Option.map_some]
    · simp

/-- A turn is a move of the pool, or it leaves the pool as it is. -/
theorem Turn.member (turn : w.Turn l w') (found : w.members[i]? = some k) :
    (∃ m s s', l = some (i, m) ∧ w.site? i = some s ∧ s.move m = some s' ∧
        w'.members[i]? = some { k with pool := s'.pool }) ∨
      (∀ m, l ≠ some (i, m)) ∧ w'.members[i]? = some k := by
  cases turn with
  | @move j m s s' site moved =>
    have after := w.members_putSite j s' i
    rw [found, Option.map_some] at after
    by_cases same : j = i
    · subst same
      rw [if_pos rfl] at after
      exact .inl ⟨m, s, s', rfl, site, moved, after⟩
    · rw [if_neg same] at after
      refine .inr ⟨fun m' own => ?_, after⟩
      exact same (congrArg Prod.fst (Option.some.inj own))
  | build name settings driver bus =>
    refine .inr ⟨nofun, ?_⟩
    exact (List.getElem?_append_left (List.getElem?_eq_some_iff.1 found).1).trans found
  | beside members _ _ => exact .inr ⟨nofun, members ▸ found⟩

theorem Turn.goes (turn : w.Turn l w') : w.Goes w' := by
  cases turn with
  | move found moved => exact .move _ found moved
  | build name settings driver bus => exact .build name settings driver bus
  | beside members _ _ => exact .beside members

/-- The same of the pool in its surroundings. -/
theorem Turn.site (turn : w.Turn l w') (found : w.site? i = some s)
    (found' : w'.site? i = some s') :
    (∃ m s₁, l = some (i, m) ∧ s.move m = some s₁ ∧ s'.pool = s₁.pool) ∨
      (∀ m, l ≠ some (i, m)) ∧ s'.pool = s.pool := by
  obtain ⟨k, member, pool⟩ := members_of_site? found
  obtain ⟨k', member', pool'⟩ := members_of_site? found'
  rcases turn.member member with ⟨m, s₀, s₁, own, site, moved, after⟩ | ⟨other, after⟩
  · obtain rfl := Option.some.inj (found.symm.trans site)
    obtain rfl := Option.some.inj (member'.symm.trans after)
    exact .inl ⟨m, s₁, own, moved, pool'.symm⟩
  · obtain rfl := Option.some.inj (member'.symm.trans after)
    exact .inr ⟨other, pool'.symm.trans pool⟩

/-- Drivers and buses stay. -/
theorem Turn.length_le (turn : w.Turn l w') :
    w.drivers.length ≤ w'.drivers.length ∧ w.buses.length ≤ w'.buses.length := by
  cases turn with
  | @move i m s s' _ _ =>
    unfold putSite
    split <;> simp
  | build name settings driver bus => simp [addPool]
  | beside _ drivers buses => exact ⟨drivers, buses⟩

/-- A pool keeps its surroundings. -/
theorem Turn.sited (turn : w.Turn l w') (sited : (w.site? i).isSome = true) :
    (w'.site? i).isSome = true := by
  obtain ⟨k, found, hasDriver, hasBus⟩ := isSome_site?.1 sited
  obtain ⟨drivers, buses⟩ := turn.length_le
  have hasDriver := Nat.lt_of_lt_of_le hasDriver drivers
  have hasBus := Nat.lt_of_lt_of_le hasBus buses
  rcases turn.member found with ⟨m, s, s', -, -, -, after⟩ | ⟨-, after⟩
  · exact isSome_site?.2 ⟨_, after, hasDriver, hasBus⟩
  · exact isSome_site?.2 ⟨_, after, hasDriver, hasBus⟩

/-! ## §2 Rows of turns -/

theorem Turns.sited (turns : w.Turns ls w') (sited : (w.site? i).isSome = true) :
    (w'.site? i).isSome = true := by
  induction turns with
  | here => exact sited
  | turn _ turn ih => exact turn.sited ih

theorem movesOf_append (i : PoolId) (ls ls' : List Label) :
    movesOf i (ls ++ ls') = movesOf i ls ++ movesOf i ls' := List.filterMap_append

theorem movesOf_own (i : PoolId) (m : Move) : movesOf i [some (i, m)] = [m] := by
  simp [movesOf]

theorem movesOf_other (other : ∀ m, l ≠ some (i, m)) : movesOf i [l] = [] := by
  cases l with
  | none => rfl
  | some x =>
    have ne : x.1 ≠ i := fun same => other x.2 (by rw [← same])
    simp [movesOf, ne]

/-- A pool in a row of turns: its moves have led it where it is, and the invariants have held. -/
theorem Turns.member (turns : w.Turns ls w') (found : w.members[i]? = some k)
    (orderly : k.pool.Orderly) : ∃ k', w'.members[i]? = some k' ∧ k'.pool.Orderly ∧
      k'.pool.status = (movesOf i ls).foldl (fun status m => status.after m) k.pool.status ∧
      (movesOf i ls = [] → k' = k) := by
  induction turns with
  | here => exact ⟨k, found, orderly, rfl, fun _ => rfl⟩
  | @turn w₁ w₂ ls l turns turn ih =>
    obtain ⟨k₁, found₁, orderly₁, status, still⟩ := ih
    rw [movesOf_append, List.foldl_append, ← status]
    rcases turn.member found₁ with ⟨m, s, s', rfl, site, moved, after⟩ | ⟨other, after⟩
    · obtain ⟨k₀, found₀, pool⟩ := members_of_site? site
      obtain rfl := Option.some.inj (found₁.symm.trans found₀)
      rw [pool] at orderly₁
      refine ⟨_, after, Site.orderly_of_move orderly₁ moved, ?_, ?_⟩
      · rw [movesOf_own, pool]
        exact (Site.phased_of_move orderly₁.regular.sound moved).status
      · rw [movesOf_own]
        simp
    · rw [movesOf_other other, List.append_nil]
      exact ⟨k₁, after, orderly₁, rfl, still⟩

/-- The invariants hold of all pools. -/
def Orderly (w : World) : Prop :=
  ∀ (i : PoolId) (k : Member), w.members[i]? = some k → k.pool.Orderly

/-- In any company each pool goes its own way. -/
theorem Turns.apart (turns : w.Turns ls w') (orderly : w.Orderly) : w.Apart ls w' where
  status found := by
    obtain ⟨k', found', -, status, -⟩ := turns.member found (orderly _ _ found)
    exact ⟨k', found', status⟩
  untouched found unmoved := by
    obtain ⟨k', found', -, -, still⟩ := turns.member found (orderly _ _ found)
    rw [found', still unmoved]

/-! ## §3 Schedules -/

namespace Schedule

variable {Ω : Schedule}

theorem turns (Ω : Schedule) : ∀ n, (Ω.state 0).Turns ((List.range n).map Ω.label) (Ω.state n)
  | 0 => .here
  | n + 1 => by
    rw [List.range_succ, List.map_append]
    exact .turn (Ω.turns n) (Ω.goes n)

variable (sited : ((Ω.state 0).site? i).isSome = true)

/-- A pool with its surroundings at some time. -/
def siteAt (Ω : Schedule) (i : PoolId) (sited : ((Ω.state 0).site? i).isSome = true) (n : Nat) :
    Site :=
  ((Ω.state n).site? i).get ((Ω.turns n).sited sited)

theorem site?_siteAt (n : Nat) : (Ω.state n).site? i = some (Ω.siteAt i sited n) :=
  (Option.some_get _).symm

theorem member_siteAt (n : Nat) :
    ∃ k, (Ω.state n).members[i]? = some k ∧ k.pool = (Ω.siteAt i sited n).pool :=
  members_of_site? (site?_siteAt sited n)

/-- What one of the pools has of a schedule. -/
def strand (Ω : Schedule) (i : PoolId) (sited : ((Ω.state 0).site? i).isSome = true) : Strand where
  state := Ω.siteAt i sited
  move n := (Ω.label n).bind fun x => if x.1 = i then some x.2 else none
  moved {n m} own := by
    obtain ⟨x, label, its⟩ := Option.bind_eq_some_iff.1 own
    rcases (Ω.goes n).site (site?_siteAt sited n) (site?_siteAt sited (n + 1)) with
      ⟨m', s, label', moved, same⟩ | ⟨other, -⟩
    · obtain rfl := Option.some.inj (label.symm.trans label')
      rw [if_pos rfl] at its
      exact ⟨s, Option.some.inj its ▸ moved, same⟩
    · split at its
      · rename_i pool
        exact absurd label (by rw [← pool] at other; exact other x.2)
      · cases its
  rested {n} none_own := by
    rcases (Ω.goes n).site (site?_siteAt sited n) (site?_siteAt sited (n + 1)) with
      ⟨m, s, label, -, -⟩ | ⟨-, same⟩
    · simp [label] at none_own
    · exact same

theorem move_strand {n : Nat} {m : Move} :
    (Ω.strand i sited).move n = some m ↔ Ω.label n = some (i, m) := by
  show (Ω.label n).bind _ = some m ↔ _
  constructor
  · intro own
    obtain ⟨x, label, its⟩ := Option.bind_eq_some_iff.1 own
    split at its
    · rename_i pool
      rw [label, ← pool, ← Option.some.inj its]
    · cases its
  · intro label
    rw [label, Option.bind_some, if_pos rfl]

theorem IsFair.strand (fair : Ω.IsFair i) (t : PoolTask) : (Ω.strand i sited).IsFair t := by
  intro n
  obtain ⟨m, le, turn⟩ := fair t n
  refine ⟨m, le, turn.imp (move_strand sited).2 fun blocked => ?_⟩
  have found := site?_siteAt sited m
  by_contra steps
  obtain ⟨s', moved⟩ := Option.ne_none_iff_exists'.1 steps
  simp only [step, found, Option.bind_eq_bind, Option.bind_some] at blocked
  rw [show (Ω.siteAt i sited m).step t = some s' from moved] at blocked
  cases blocked

theorem TimeFlows.strand (time : Ω.TimeFlows) : (Ω.strand i sited).TimeFlows := by
  intro limit
  obtain ⟨n, late⟩ := time limit
  refine ⟨n, fun m le => ?_⟩
  obtain ⟨k, driver, bus, -, -, -, same⟩ := site?_eq_some.1 (site?_siteAt sited m)
  show limit ≤ (Ω.siteAt i sited m).now
  rw [same]
  exact late m le

/-- Something ends every attempt that the pool has in flight at some time. -/
def EndsAttempts (Ω : Schedule) (i : PoolId) : Prop :=
  ∀ (n : Nat) (k : Member) (j : LoopId) (r : Run) (a : Underway),
    (Ω.state n).members[i]? = some k → k.pool.runAt j = some r → r.phase = .attempting a →
      ¬ a.IsEndless (k.pool.tokens.isCancelled a.token)

theorem favours_strand (fair : Ω.IsFair i) (time : Ω.TimeFlows) (ends : Ω.EndsAttempts i)
    (j : LoopId) :
    (Ω.strand i sited).Favours j where
  fair := fair.strand sited (.loop j)
  time := time.strand sited
  ends n r a runs attempting := by
    obtain ⟨k, found, pool⟩ := member_siteAt sited n
    have same : ((Ω.strand i sited).state n).pool = k.pool := pool.symm
    rw [same] at runs ⊢
    exact ends n k j r a found runs attempting

include sited in
/-- On a schedule that is fair to a pool, a call on it returns if its attempts in flight end,
whatever is called meanwhile and whatever the other pools do. -/
theorem returns (orderly : ∀ k, (Ω.state 0).members[i]? = some k → k.pool.Orderly)
    (fair : Ω.IsFair i) (time : Ω.TimeFlows) (ends : Ω.EndsAttempts i) {d : CallId}
    (there : ((Ω.state 0).callAt i d).isSome = true) :
    ∃ late, ∀ n, late ≤ n → (Ω.state n).callAt i d = some .returned := by
  obtain ⟨call, found⟩ := Option.isSome_iff_exists.1 there
  obtain ⟨k, member, found⟩ := Option.bind_eq_some_iff.1 found
  obtain ⟨k', member', pool⟩ := member_siteAt sited 0
  obtain rfl := Option.some.inj (member.symm.trans member')
  have orderly : ((Ω.strand i sited).state 0).pool.Orderly := pool ▸ orderly k member
  obtain ⟨late, returned⟩ := (Ω.strand i sited).returns orderly (fair.strand sited)
    (favours_strand sited fair time ends) (pool ▸ found)
  refine ⟨late, fun n le => ?_⟩
  obtain ⟨k, member, pool⟩ := member_siteAt sited n
  rw [callAt, member, Option.bind_some, pool]
  exact (Ω.strand i sited).stays (P := fun p => p.calls[d]? = some .returned) le returned
    fun change => Pool.returned_of_change change

include sited in
/-- There comes a time when all the calls that a pool has to begin with have returned. -/
theorem returns_all (orderly : ∀ k, (Ω.state 0).members[i]? = some k → k.pool.Orderly)
    (fair : Ω.IsFair i) (time : Ω.TimeFlows) (ends : Ω.EndsAttempts i) :
    ∃ late, ∀ n, late ≤ n → ∀ d, ((Ω.state 0).callAt i d).isSome = true →
      (Ω.state n).callAt i d = some .returned := by
  obtain ⟨k, member, -⟩ := member_siteAt sited 0
  have callAt_eq : ∀ d, (Ω.state 0).callAt i d = k.pool.calls[d]? := fun d => by
    rw [callAt, member, Option.bind_some]
  obtain ⟨late, returned⟩ := late_of_forall
    (P := fun d n => (Ω.state n).callAt i d = some .returned)
    fun d (inRange : d ∈ List.range k.pool.calls.length) => by
      refine returns sited orderly fair time ends ?_
      rw [callAt_eq, List.getElem?_eq_getElem (List.mem_range.1 inRange)]
      rfl
  refine ⟨late, fun n le d there => returned n le d (List.mem_range.2 ?_)⟩
  rw [callAt_eq, isSome_getElem?] at there
  exact there

end Schedule

/-! ## §4 Schedules that come to rest -/

theorem stateIn_after (xs : List (PoolId × Move)) (w : World) (n : Nat) :
    w.stateIn xs (xs.length + n) = { w.plays xs with now := (w.plays xs).now + n } := by
  induction xs generalizing w with
  | nil =>
    rw [List.length_nil, Nat.zero_add]
    cases n <;> rfl
  | cons x xs ih =>
    rw [List.length_cons, Nat.succ_add_eq_add_succ]
    exact ih _

theorem stateIn_mem_trail (xs : List (PoolId × Move)) (w : World) (n : Nat) (lt : n < xs.length) :
    ∃ x, (w.stateIn xs n, x) ∈ w.trail xs := by
  induction xs generalizing w n with
  | nil => cases lt
  | cons x xs ih =>
    cases n with
    | zero => exact ⟨x, List.mem_cons_self⟩
    | succ n =>
      obtain ⟨y, mem⟩ := ih ((w.make? x).getD w) n (Nat.lt_of_succ_lt_succ lt)
      exact ⟨y, List.mem_cons_of_mem _ mem⟩

/-- A schedule on which all pools come to rest is fair to each, and if all attempts on the way end
by themselves, it is one on which attempts end. -/
theorem schedule_comes_to_rest {xs : List (PoolId × Move)}
    (able : (w.trail xs).all (fun x => (x.1.make? x.2).isSome) = true)
    (ends : ∀ x ∈ w.trail xs, ∀ k ∈ x.1.members, ∀ l ∈ k.pool.loops, l.endsByItself = true)
    (rest : ∀ k ∈ (w.plays xs).members, k.pool.isAtRest = true) (i : PoolId) :
    (w.schedule xs able).IsFair i ∧ (w.schedule xs able).TimeFlows ∧
      (w.schedule xs able).EndsAttempts i := by
  refine ⟨fun t n => ⟨xs.length + n, Nat.le_add_left .., .inr ?_⟩, fun time => ?_,
    fun n k j r a found runs attempting => ?_⟩
  · show (w.stateIn xs (xs.length + n)).step i t = none
    rw [stateIn_after]
    unfold step
    cases found : site? _ i with
    | none => rfl
    | some s =>
      obtain ⟨k, member, pool⟩ := members_of_site? found
      have rests := Site.step_of_isAtRest (pool ▸ rest k (List.mem_of_getElem? member)) t
      simp [rests]
  · refine ⟨xs.length + time, fun m le => ?_⟩
    obtain ⟨n, rfl⟩ := Nat.exists_eq_add_of_le (Nat.le_of_add_right_le le)
    show time ≤ (w.stateIn xs (xs.length + n)).now
    rw [stateIn_after]
    show time ≤ (w.plays xs).now + n
    omega
  · rcases Nat.lt_or_ge n xs.length with lt | le
    · intro endless
      obtain ⟨x, mem⟩ := stateIn_mem_trail xs w n lt
      obtain ⟨l, there, running⟩ := Pool.runAt_eq_some.1 runs
      have bound := ends _ mem k (List.mem_of_getElem? found) l (List.mem_of_getElem? there)
      simp [Loop.endsByItself, Loop.run?, running, Run.underway?, attempting, endless.1] at bound
    · obtain ⟨d, rfl⟩ := Nat.exists_eq_add_of_le le
      have found : (w.stateIn xs (xs.length + d)).members[i]? = some k := found
      rw [stateIn_after] at found
      rw [Pool.runAt_of_isAtRest (rest k (List.mem_of_getElem? found))] at runs
      cases runs

end World
end JobPool
