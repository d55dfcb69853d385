/-
JobPool.Proofs.Manager.History — a manager and its pools agree on the names.

Only two things name a pool that exists: a manager that takes it in, and another one that
does. So the register stays in step with the pools if nothing else that happens to them
touches a name, which is what `World.nameOf_goes` says for all that goes on beside the calls
and `World.nameOf_beginAll`, `World.nameOf_startAll` for the calls that reach several pools.
That no pool is kept twice is a consequence: it has one name.

  §1 What leaves names alone
  §2 Calls
  §3 Histories
-/
import JobPool.Manager.History
import JobPool.Proofs.Pool.Upkeep

namespace JobPool

/-! ## §1 What leaves names alone -/

theorem Site.name_of_move {s s' : Site} {m : Move} (moved : s.move m = some s') :
    s'.pool.name = s.pool.name := by
  cases tends_of_move moved with
  | spares _ frame => exact (congrArg Pool.name frame :)
  | refuses => rfl
  | watches _ _ _ frame => exact (congrArg Pool.name frame :)
  | forwards _ _ frame => exact (congrArg Pool.name frame :)
  | goesOn _ _ frame => exact (congrArg Pool.name frame :)
  | starts _ frame _ => exact (congrArg Pool.name frame :)
  | stops _ frame => exact (congrArg Pool.name frame :)
  | releases _ frame => exact (congrArg Pool.name frame :)
  | abandons frame => exact (congrArg Pool.name frame :)

namespace World

variable {w w' : World} {i j : PoolId} {s s' : Site}

theorem members_of_site? (found : w.site? i = some s) :
    ∃ member, w.members[i]? = some member ∧ member.pool = s.pool := by
  obtain ⟨member, here, rest⟩ := Option.bind_eq_some_iff.1 found
  obtain ⟨driver, -, rest⟩ := Option.bind_eq_some_iff.1 rest
  obtain ⟨bus, -, rest⟩ := Option.bind_eq_some_iff.1 rest
  obtain rfl := Option.some.inj rest
  exact ⟨member, here, rfl⟩

theorem nameOf_putSite (found : w.site? i = some s) (name : s'.pool.name = s.pool.name)
    (j : PoolId) : (w.putSite i s').nameOf j = w.nameOf j := by
  obtain ⟨member, here, pool⟩ := members_of_site? found
  simp only [nameOf, putSite, here, List.getElem?_set]
  by_cases same : i = j
  · subst same
    obtain ⟨lt, rfl⟩ := List.getElem?_eq_some_iff.1 here
    simp [lt, name, pool]
  · simp [same]

/-- Pools come after those that are there. -/
theorem nameOf_addPool (w : World) (name : String) (settings : Settings) (driver : DriverId)
    (bus : BusId) (lt : j < w.members.length) :
    (w.addPool name settings driver bus).2.nameOf j = w.nameOf j := by
  simp [nameOf, addPool, List.getElem?_append_left lt]

theorem nameOf_goes (goes : w.Goes w') (lt : j < w.members.length) :
    w'.nameOf j = w.nameOf j := by
  cases goes with
  | move m found moved => exact nameOf_putSite found (Site.name_of_move moved) j
  | build name settings driver bus => exact nameOf_addPool w name settings driver bus lt
  | beside members => simp only [nameOf, members]

theorem modify_of_getElem? {ms : List Member} {member : Member} (here : ms[i]? = some member)
    (f : Member → Member) : ms.modify i f = ms.set i (f member) := by
  obtain ⟨lt, rfl⟩ := List.getElem?_eq_some_iff.1 here
  refine List.ext_getElem? fun j => ?_
  rw [List.getElem?_modify, List.getElem?_set]
  by_cases same : i = j
  · subst same
    simp [lt]
  · simp [same]

theorem nameOf_rename (w : World) (i : PoolId) (name : String) (j : PoolId) :
    (w.rename i name).nameOf j = if i = j then (w.nameOf j).map fun _ => name else w.nameOf j := by
  simp only [nameOf, rename, List.getElem?_modify]
  cases w.members[j]? with
  | none => simp
  | some member => by_cases same : i = j <;> simp [same]

theorem nameOf_beginAll {f : Site → Option CallId × Site}
    (name : ∀ s, (f s).2.pool.name = s.pool.name) (j : PoolId) :
    ∀ (is : List PoolId) (w : World), (w.beginAll f is).2.nameOf j = w.nameOf j
  | [], _ => rfl
  | i :: rest, w => by
    cases found : w.site? i with
    | none => simpa [beginAll, atSite, found] using nameOf_beginAll name j rest w
    | some s =>
      have first := nameOf_putSite found (name s) j
      simpa [beginAll, atSite, found, first] using
        nameOf_beginAll name j rest (w.putSite i (f s).2)

theorem nameOf_startAll (j : PoolId) :
    ∀ (is : List PoolId) (w : World), (w.startAll is).nameOf j = w.nameOf j
  | [], _ => rfl
  | i :: rest, w => by
    cases found : w.site? i with
    | none => simpa [startAll, atSite, found] using nameOf_startAll j rest w
    | some s =>
      have first := nameOf_putSite found (Site.name_of_move (m := .start) rfl) j
      simpa [startAll, atSite, found, first] using nameOf_startAll j rest (w.putSite i s.start.2)

end World

/-! ## §2 Calls -/

namespace Manager

variable {m : Manager} {w w' : World} {bus : BusId}

theorem lt_of_named {i : PoolId} {name : String} (named : w.nameOf i = some name) :
    i < w.members.length := by
  obtain ⟨member, here, -⟩ := Option.map_eq_some_iff.1 named
  exact (List.getElem?_eq_some_iff.1 here).1

/-- It is enough that every pool has the name that it is kept under. -/
theorem Keeps.of_named (onBus : m.bus = bus)
    (named : ∀ {name : String} {i : PoolId}, m.get? name = some i → w.nameOf i = some name) :
    m.Keeps bus w where
  bus := onBus
  named := named
  once here there := Option.some.inj ((named here).symm.trans (named there))
  rising := m.pools.rising_names
  listed := m.pools.mem_names_iff

/-- A register that lost names, over pools that kept theirs. -/
theorem Keeps.shrink {m' : Manager} (keeps : m.Keeps bus w) (onBus : m'.bus = m.bus)
    (less : ∀ {name i}, m'.get? name = some i → m.get? name = some i)
    (same : ∀ j < w.members.length, w'.nameOf j = w.nameOf j) : m'.Keeps bus w' :=
  .of_named (onBus.trans keeps.bus) fun here =>
    have named := keeps.named (less here)
    (same _ (lt_of_named named)).trans named

/-- A register with one more name, that of its pool. -/
theorem Keeps.grow {m' : Manager} {name : String} {i : PoolId} (keeps : m.Keeps bus w)
    (onBus : m'.bus = m.bus)
    (more : ∀ k, m'.get? k = if k = name then some i else m.get? k)
    (own : w'.nameOf i = some name)
    (same : ∀ j < w.members.length, j ≠ i → w'.nameOf j = w.nameOf j)
    (absent : ∀ other, m.get? other ≠ some i) : m'.Keeps bus w' :=
  .of_named (onBus.trans keeps.bus) fun {k j} here => by
    rw [more] at here
    split at here
    · rename_i eq
      obtain rfl := Option.some.inj here
      exact eq ▸ own
    · have named := keeps.named here
      exact (same j (lt_of_named named) fun eq => absurd (eq ▸ here) (absent k)).trans named

/-- The only name under which a kept pool can be found. -/
theorem Keeps.findName?_eq {other : String} {i : PoolId} (keeps : m.Keeps bus w)
    (here : m.get? other = some i) : m.pools.findName? (· == i) = some other := by
  have mem := m.pools.get?_eq_some_iff.1 here
  unfold NameMap.findName?
  cases first : m.pools.entries.find? fun e => e.2 == i with
  | none => simpa using List.find?_eq_none.1 first (other, i) mem
  | some e =>
    have own : e.2 = i := by simpa using List.find?_some first
    have there : m.get? e.1 = some i :=
      m.pools.get?_eq_some_iff.2 (own ▸ List.mem_of_find?_eq_some first)
    rw [Option.map_some, keeps.once there here]

theorem findName?_eq_none {i : PoolId} (absent : ∀ other, m.get? other ≠ some i) :
    m.pools.findName? (· == i) = none := by
  refine Option.map_eq_none_iff.2 (List.find?_eq_none.2 fun e mem same => ?_)
  have own : e.2 = i := by simpa using same
  exact absent e.1 (m.pools.get?_eq_some_iff.2 (own ▸ mem))

theorem create_of_none {name : String} (free : m.get? name = none) (w : World)
    (driver : DriverId) (choices : List Choice) :
    m.create w name driver choices =
      ((w.members.length, true), { m with pools := m.pools.insert name w.members.length },
        (w.addPool name (.ofChoices choices) driver m.bus).2) := by
  simp only [create, free]
  rfl

theorem add_of_absent {name : String} {i : PoolId} (free : m.get? name = none)
    (absent : ∀ other, m.get? other ≠ some i) (w : World) :
    m.add w name i = (.ok (), { m with pools := m.pools.insert name i }, w.rename i name) := by
  have notThere : m.pools.contains name = false := congrArg Option.isSome free
  simp only [add, notThere, findName?_eq_none absent, Bool.false_eq_true, if_false]

theorem add_of_some {name : String} (taken : (m.get? name).isSome = true) (w : World)
    (i : PoolId) : m.add w name i = (.error (.nameExists name), m, w) := by
  have there : m.pools.contains name = true := taken
  simp only [add, there, if_true]

theorem Keeps.add_of_kept {name other : String} {i : PoolId} (keeps : m.Keeps bus w)
    (free : m.get? name = none) (here : m.get? other = some i) :
    m.add w name i = (.error (.instanceExists other), m, w) := by
  have notThere : m.pools.contains name = false := congrArg Option.isSome free
  simp only [add, notThere, keeps.findName?_eq here, Bool.false_eq_true, if_false]

/-- A call that reaches several pools gives none of them another name. -/
theorem nameOf_beginStop (j : PoolId) (is : List PoolId) (w : World) :
    (w.beginAll Site.beginStop is).2.nameOf j = w.nameOf j :=
  World.nameOf_beginAll (fun _ => Site.name_of_move (m := .beginStop) rfl) j is w

theorem nameOf_beginRelease (j : PoolId) (is : List PoolId) (w : World) :
    (w.beginAll Site.beginRelease is).2.nameOf j = w.nameOf j :=
  World.nameOf_beginAll (fun _ => Site.name_of_move (m := .beginRelease) rfl) j is w

theorem get?_of_erase {name k : String} {i : PoolId}
    (here : (m.pools.erase name).get? k = some i) : m.get? k = some i := by
  rw [NameMap.get?_erase] at here
  split at here
  · cases here
  · exact here

theorem Keeps.carryOut (keeps : m.Keeps bus w) {c : ManagerCall} (known : c.isOf w) :
    (m.carryOut w c).1.Keeps bus (m.carryOut w c).2 := by
  cases c with
  | create name driver choices =>
    simp only [Manager.carryOut]
    cases taken : m.get? name with
    | some i => simpa only [create, taken] using keeps
    | none =>
      rw [create_of_none taken]
      -- a kept pool is of this world, so the one that is built now is not kept
      have fresh (other : String) : m.get? other ≠ some w.members.length :=
        fun here => Nat.lt_irrefl _ (lt_of_named (keeps.named here))
      exact keeps.grow rfl (m.pools.get?_insert name _)
        (by simp [World.nameOf, World.addPool, Pool.create])
        (fun j lt _ => World.nameOf_addPool w name _ driver m.bus lt) fresh
  | add name i =>
    simp only [Manager.carryOut]
    cases taken : m.get? name with
    | some other => rw [add_of_some (by simp [taken])]; exact keeps
    | none =>
      by_cases kept : ∃ other, m.get? other = some i
      · obtain ⟨other, here⟩ := kept
        rw [keeps.add_of_kept taken here]
        exact keeps
      · have absent : ∀ other, m.get? other ≠ some i := fun other here => kept ⟨other, here⟩
        rw [add_of_absent taken absent]
        refine keeps.grow rfl (m.pools.get?_insert name i) ?_
          (fun j _ ne => by rw [World.nameOf_rename, if_neg (Ne.symm ne)]) absent
        obtain ⟨member, here⟩ : ∃ member, w.members[i]? = some member :=
          ⟨_, List.getElem?_eq_getElem known⟩
        rw [World.nameOf_rename, if_pos rfl, World.nameOf, here]
        rfl
  | remove name => exact keeps.shrink rfl get?_of_erase fun _ _ => rfl
  | release name =>
    exact keeps.shrink rfl get?_of_erase fun j _ => nameOf_beginRelease j _ w
  | releaseAll =>
    exact keeps.shrink rfl (fun here => by cases here) fun j _ => nameOf_beginRelease j _ w
  | start name => exact keeps.shrink rfl id fun j _ => World.nameOf_startAll j _ w
  | stop name => exact keeps.shrink rfl id fun j _ => nameOf_beginStop j _ w
  | startAll => exact keeps.shrink rfl id fun j _ => World.nameOf_startAll j _ w
  | stopAll => exact keeps.shrink rfl id fun j _ => nameOf_beginStop j _ w

theorem Keeps.answers (keeps : m.Keeps bus w) : m.Answers w where
  create_taken driver choices taken := by simp only [create, taken]
  create_free driver choices free :=
    ⟨_, _, _, create_of_none free w driver choices, rfl, m.pools.get?_insert _ _, rfl,
      rfl, rfl, rfl⟩
  add_taken i taken := add_of_some taken w i
  add_kept free here := keeps.add_of_kept free here
  add_new {name i member} free absent here := by
    refine ⟨_, _, add_of_absent free absent w, rfl, m.pools.get?_insert name i, ?_⟩
    exact congrArg (fun members => { w with members }) (World.modify_of_getElem? here _)
  remove name := ⟨rfl, m.pools.get?_erase name, rfl⟩
  release name := m.pools.get?_erase name
  releaseAll _ := rfl
  spares c spares := by cases c <;> first | rfl | cases spares

/-! ## §3 Histories -/

theorem History.keeps {start : World} (history : History start bus m w) : m.Keeps bus w := by
  induction history with
  | opened => exact .of_named rfl fun here => by cases here
  | call c _ known ih => exact ih.carryOut known
  | goes _ goes ih => exact ih.shrink rfl id fun j lt => World.nameOf_goes goes lt
  | other name i _ absent ih =>
    refine .of_named ih.bus fun {own j} here => ?_
    have ne : i ≠ j := fun eq => absent own (eq ▸ here)
    rw [World.nameOf_rename, if_neg ne]
    exact ih.named here

/-- Whatever was called on a manager and whatever happened beside, its names rise, each
stands for a pool of its own that has this name, and the calls to come are answered by the
register alone: a taken name is refused before a kept pool, a refusal changes nothing, and
what leaves the register is as it was. -/
theorem keeps_of_history {start : World} (history : History start bus m w) :
    m.Keeps bus w ∧ m.Answers w :=
  ⟨history.keeps, history.keeps.answers⟩

/-- A pool is created, taken out, and taken in again under another name: that is its name
now, and it is refused under a third one. -/
theorem keeps_of_history_renamed : ∃ m w, History { buses := [.empty] } 0 m w ∧
    m.get? "mail" = none ∧ m.get? "post" = some 0 ∧ w.nameOf 0 = some "post" ∧
    m.add w "copy" 0 = (.error (.instanceExists "post"), m, w) := by
  have history := History.call (.add "post" 0) (.call (.remove "mail")
    (.call (.create "mail" 0 []) (@History.opened { buses := [.empty] } 0) trivial)
    trivial) Nat.zero_lt_one
  obtain ⟨keeps, answers⟩ := keeps_of_history history
  exact ⟨_, _, history, rfl, rfl, keeps.named rfl, answers.add_kept rfl rfl⟩

end Manager
end JobPool
