/-
JobPool.Proofs.Manager.Lifting — a manager's lifecycle calls are those on its pools, one by one.

Each of the six calls is one command told to some pools (`Manager.carryOut_eq`), so all is said
about `World.beginAll` of a command. A command touches nothing but the pool, and it does nothing
where it leaves the status as it is; hence pools can be told in any order, and to tell them again
changes nothing. What happens in between and after is left to `World.Turns.apart` and
`World.Schedule.settles`, which know each pool by itself.

  §1 Worlds in which pools live
  §2 Commands
  §3 Telling pools
  §4 Calls on a manager
  §5 Whatever goes on
-/
import JobPool.Manager.Lifting
import JobPool.Proofs.World.Turns

namespace JobPool

/-! ## §1 Worlds in which pools live -/

/-- Nothing that is known of a pool has to do with its name. -/
theorem Pool.Orderly.rename {p : Pool} (h : p.Orderly) (name : String) :
    ({ p with name } : Pool).Orderly where
  regular :=
    { sound := { h.regular.sound with }
      manned := { h.regular.manned with }
      apportioned := { h.regular.apportioned with }
      unhindered := { h.regular.unhindered with } }
  patient := { h.patient with }
  faithful := h.faithful
  serving unreleased := { h.serving unreleased with }
  winding released := by
    obtain ⟨c, winding⟩ := h.winding released
    exact ⟨c, { winding with }⟩
  dismissed := h.dismissed

namespace World

theorem Lived.orderly {w : World} (lived : w.Lived) : w.Orderly := by
  induction lived with
  | bare poolless => exact fun i k found => by simp [poolless] at found
  | goes _ goes ih =>
    intro j k' found'
    cases goes with
    | @move i s s' m site moved =>
      obtain ⟨k₀, found₀, pool⟩ := members_of_site? site
      rw [members_putSite] at found'
      obtain ⟨k, found, rfl⟩ := Option.map_eq_some_iff.1 found'
      split
      · exact Site.orderly_of_move (pool ▸ ih i k₀ found₀) moved
      · exact ih j k found
    | build name settings driver bus =>
      rcases List.mem_append.1 (List.mem_of_getElem? found') with old | new
      · obtain ⟨i, found⟩ := List.mem_iff_getElem?.1 old
        exact ih i k' found
      · rw [List.mem_singleton.1 new]
        exact Pool.orderly_create name settings
    | beside members => exact ih j k' (members ▸ found')
  | renamed _ i name ih =>
    intro j k' found'
    rw [rename, List.getElem?_modify] at found'
    obtain ⟨k, found, rfl⟩ := Option.map_eq_some_iff.1 found'
    split
    · exact (ih j k found).rename name
    · exact ih j k found

end World

/-! ## §2 Commands -/

namespace Pool.Command

variable {c : Pool.Command} {s : Site} {d : CallId}

theorem move_eq (c : Pool.Command) (s : Site) : s.move c.move = some (c.begin s).2 := by
  cases c <;> rfl

theorem leaves_eq (c : Pool.Command) (status : Pool.Status) :
    c.leaves status = status.after c.move := by
  cases c <;> cases status <;> rfl

/-- The status that a command leaves it leaves alone. -/
theorem leaves_leaves (c : Pool.Command) (status : Pool.Status) :
    c.leaves (c.leaves status) = c.leaves status := by
  cases c <;> cases status <;> rfl

/-- A command that leaves the status as it is does nothing. -/
theorem begin_of_fixed (fixed : c.leaves s.pool.status = s.pool.status) :
    c.begin s = (none, s) := by
  cases c with
  | start =>
    cases status : s.pool.status with
    | running => simp only [begin, s.answers.startAgain status]
    | released => simp only [begin, (Site.refuses_of_released status).start]
    | _ => simp [leaves, status] at fixed
  | stop =>
    refine s.answers.stopRefused fun running => ?_
    simp [leaves, running] at fixed
  | release => exact s.answers.releaseAgain fixed.symm

/-- Nothing but the pool changes when a command takes effect. -/
theorem withPool_begin (c : Pool.Command) (s : Site) :
    (c.begin s).2 = s.withPool (c.begin s).2.pool := by
  cases c with
  | start =>
    simp only [begin, Site.start]
    split
    · rfl
    · rfl
    all_goals
      simp only [Site.spawnWorkers]
      split <;> rfl
  | stop =>
    simp only [begin, Site.beginStop]
    split <;> rfl
  | release =>
    simp only [begin, Site.beginRelease]
    split <;> rfl

/-- A command that has to be waited for has made a call. -/
theorem call_of_begin (begins : (c.begin s).1 = some d) :
    ∃ call, (c.begin s).2.pool.calls[d]? = some call := by
  cases c with
  | start => cases begins
  | stop => exact ⟨_, (Site.begun_of_beginStop begins).2⟩
  | release =>
    simp only [begin, Site.beginRelease] at begins ⊢
    split at begins
    · cases begins
    · rw [if_neg (by assumption)]
      obtain rfl := Option.some.inj begins
      exact ⟨_, List.getElem?_concat_length⟩

end Pool.Command

/-! ## §3 Telling pools -/

namespace World

variable {w : World} {i j : PoolId} {s : Site} {c : Pool.Command} {is : List PoolId}

/-- Where only the pool of a site changed, only the pool changes in the world. -/
theorem putSite_withPool (found : w.site? i = some s) (p : Pool) :
    w.putSite i (s.withPool p) =
      { w with members := w.members.modify i fun k => { k with pool := p } } := by
  obtain ⟨k, driver, bus, member, hasDriver, hasBus, rfl⟩ := site?_eq_some.1 found
  have drivers : w.drivers.set k.driver driver = w.drivers := by
    obtain ⟨lt, rfl⟩ := List.getElem?_eq_some_iff.1 hasDriver
    exact List.set_getElem_self lt
  have buses : w.buses.set k.bus bus = w.buses := by
    obtain ⟨lt, rfl⟩ := List.getElem?_eq_some_iff.1 hasBus
    exact List.set_getElem_self lt
  simp only [putSite, member, Site.withPool, drivers, buses, modify_of_getElem? member]

/-- A pool that is put back as it was. -/
theorem putSite_self (found : w.site? i = some s) : w.putSite i s = w := by
  obtain ⟨k, member, pool⟩ := members_of_site? found
  have members : w.members.modify i (fun k => { k with pool := s.pool }) = w.members := by
    rw [modify_of_getElem? member, ← pool]
    obtain ⟨lt, rfl⟩ := List.getElem?_eq_some_iff.1 member
    exact List.set_getElem_self lt
  have same := putSite_withPool found s.pool
  rw [members] at same
  exact same

theorem site?_of_members {ms : List Member} (same : ms[j]? = w.members[j]?) :
    ({ w with members := ms } : World).site? j = w.site? j := by
  simp only [site?, same]

/-- To begin with, the first pool is told. -/
theorem beginAll_cons (found : w.site? i = some s) (c : Pool.Command) (is : List PoolId) :
    w.beginAll c.begin (i :: is) =
      (((c.begin s).1.toList.map fun d => (i, d)) ++
          ((w.putSite i (c.begin s).2).beginAll c.begin is).1,
        ((w.putSite i (c.begin s).2).beginAll c.begin is).2) := by
  simp only [beginAll, atSite, found, Option.bind_eq_bind, Option.bind_some]

/-- The other pools do not see what one of them is told. -/
theorem site?_putSite_begin (found : w.site? i = some s) (c : Pool.Command) (ne : i ≠ j) :
    (w.putSite i (c.begin s).2).site? j = w.site? j := by
  rw [c.withPool_begin s, putSite_withPool found]
  exact site?_of_members (List.getElem?_modify_ne _ _ ne)

/-- Once the first pool is told the others are where they were. -/
theorem sited_putSite_begin (found : w.site? i = some s) (c : Pool.Command)
    (nodup : (i :: is).Nodup) (sited : ∀ j ∈ i :: is, (w.site? j).isSome = true) :
    ∀ j ∈ is, i ≠ j ∧ ((w.putSite i (c.begin s).2).site? j).isSome = true := by
  intro j mem
  have ne : i ≠ j := fun same => (List.nodup_cons.1 nodup).1 (same ▸ mem)
  rw [site?_putSite_begin found c ne]
  exact ⟨ne, sited j (List.mem_cons_of_mem i mem)⟩

/-- Each pool that is told changes by itself, and nothing else in the world changes. -/
theorem members_beginAll (nodup : is.Nodup) (sited : ∀ i ∈ is, (w.site? i).isSome = true) :
    ∃ members, (w.beginAll c.begin is).2 = { w with members } ∧
      (∀ i ∈ is, ∀ s, w.site? i = some s → ∃ k, w.members[i]? = some k ∧
        members[i]? = some { k with pool := (c.begin s).2.pool }) ∧
      ∀ i, i ∉ is → members[i]? = w.members[i]? := by
  induction is generalizing w with
  | nil => exact ⟨w.members, rfl, by simp, fun _ _ => rfl⟩
  | cons i is ih =>
    obtain ⟨s, found⟩ := Option.isSome_iff_exists.1 (sited i List.mem_cons_self)
    obtain ⟨k, member, -⟩ := members_of_site? found
    have apart := sited_putSite_begin found c nodup sited
    obtain ⟨fresh, nodup⟩ := List.nodup_cons.1 nodup
    obtain ⟨members, state, each, still⟩ := ih nodup fun j mem => (apart j mem).2
    have before : ∀ j, (w.putSite i (c.begin s).2).members[j]? = _ := w.members_putSite i _
    rw [beginAll_cons found]
    refine ⟨members, ?_, fun j mem s' found' => ?_, fun j absent => ?_⟩
    · rw [state, c.withPool_begin s, putSite_withPool found]
    · rcases List.mem_cons.1 mem with rfl | mem
      · obtain rfl := Option.some.inj (found.symm.trans found')
        refine ⟨k, member, ?_⟩
        rw [still j fresh, before, member, Option.map_some, if_pos rfl]
      · have ne := (apart j mem).1
        obtain ⟨k', member', after⟩ := each j mem s' ((site?_putSite_begin found c ne).trans found')
        rw [before] at member'
        obtain ⟨k₀, member₀, rfl⟩ := Option.map_eq_some_iff.1 member'
        rw [if_neg ne] at after
        exact ⟨k₀, member₀, after⟩
    · obtain ⟨ne, absent⟩ := not_or.1 (mt List.mem_cons.2 absent)
      rw [still j absent, before]
      simp [Ne.symm ne]

/-- What has to be waited for is what each pool answers where it stands. -/
theorem mem_beginAll (nodup : is.Nodup) (sited : ∀ i ∈ is, (w.site? i).isSome = true)
    (j : PoolId) (d : CallId) :
    (j, d) ∈ (w.beginAll c.begin is).1 ↔
      j ∈ is ∧ ∃ s, w.site? j = some s ∧ (c.begin s).1 = some d := by
  induction is generalizing w with
  | nil => simp [beginAll]
  | cons i is ih =>
    obtain ⟨s, found⟩ := Option.isSome_iff_exists.1 (sited i List.mem_cons_self)
    have apart := sited_putSite_begin found c nodup sited
    rw [beginAll_cons found, List.mem_append, List.mem_cons,
      ih (List.nodup_cons.1 nodup).2 fun j mem => (apart j mem).2]
    constructor
    · rintro (own | ⟨mem, s', found', begins⟩)
      · obtain ⟨d', begins, same⟩ := List.mem_map.1 own
        obtain ⟨rfl, rfl⟩ := Prod.mk.inj same
        exact ⟨.inl rfl, s, found, Option.mem_toList.1 begins⟩
      · have unseen := site?_putSite_begin found c (apart j mem).1
        exact ⟨.inr mem, s', unseen.symm.trans found', begins⟩
    · rintro ⟨rfl | mem, s', found', begins⟩
      · obtain rfl := Option.some.inj (found.symm.trans found')
        exact .inl (List.mem_map.2 ⟨d, Option.mem_toList.2 begins, rfl⟩)
      · have unseen := site?_putSite_begin found c (apart j mem).1
        exact .inr ⟨mem, s', unseen.trans found', begins⟩

theorem tells_beginAll (nodup : is.Nodup) (sited : ∀ i ∈ is, (w.site? i).isSome = true) :
    w.Tells c is (w.beginAll c.begin is).1 (w.beginAll c.begin is).2 where
  members := members_beginAll nodup sited
  calls := mem_beginAll nodup sited

/-- What has to be waited for is there. -/
theorem Tells.there {w' : World} {calls : List (PoolId × CallId)} (h : w.Tells c is calls w')
    {d : CallId} (mem : (i, d) ∈ calls) : (w'.callAt i d).isSome = true := by
  obtain ⟨told, s, found, begins⟩ := (h.calls i d).1 mem
  obtain ⟨members, rfl, each, -⟩ := h.members
  obtain ⟨k, -, after⟩ := each i told s found
  obtain ⟨call, made⟩ := Pool.Command.call_of_begin begins
  show (Option.bind members[i]? _).isSome = true
  rw [after, Option.bind_some, made]
  rfl

/-- Pools can be told in any order. -/
theorem beginAll_perm {is' : List PoolId} (perm : is'.Perm is) (nodup : is.Nodup)
    (sited : ∀ i ∈ is, (w.site? i).isSome = true) :
    (w.beginAll c.begin is').2 = (w.beginAll c.begin is).2 := by
  obtain ⟨members', state', each', still'⟩ := members_beginAll (c := c) (perm.nodup_iff.2 nodup)
    fun i mem => sited i (perm.mem_iff.1 mem)
  obtain ⟨members, state, each, still⟩ := members_beginAll (c := c) nodup sited
  rw [state', state]
  congr 1
  refine List.ext_getElem? fun j => ?_
  by_cases mem : j ∈ is
  · obtain ⟨s, found⟩ := Option.isSome_iff_exists.1 (sited j mem)
    obtain ⟨k', member', after'⟩ := each' j (perm.mem_iff.2 mem) s found
    obtain ⟨k, member, after⟩ := each j mem s found
    obtain rfl := Option.some.inj (member'.symm.trans member)
    rw [after', after]
  · rw [still' j fun mem' => mem (perm.mem_iff.1 mem'), still j mem]

/-- To tell pools is a row of turns, one for each. -/
theorem turns_beginAll (sited : ∀ i ∈ is, (w.site? i).isSome = true) :
    w.Turns (is.map fun i => some (i, c.move)) (w.beginAll c.begin is).2 := by
  induction is generalizing w with
  | nil => exact .here
  | cons i is ih =>
    obtain ⟨s, found⟩ := Option.isSome_iff_exists.1 (sited i List.mem_cons_self)
    have turn : w.Turn (some (i, c.move)) (w.putSite i (c.begin s).2) := .move found (c.move_eq s)
    rw [beginAll_cons found]
    exact turn.turns.trans (ih fun j mem => turn.sited (sited j (List.mem_cons_of_mem i mem)))

/-- To tell pools what leaves their status as it is does nothing. -/
theorem beginAll_of_fixed
    (fixed : ∀ i ∈ is, ∀ s, w.site? i = some s → c.leaves s.pool.status = s.pool.status) :
    w.beginAll c.begin is = ([], w) := by
  induction is with
  | nil => rfl
  | cons i is ih =>
    have rest := ih fun j mem => fixed j (List.mem_cons_of_mem i mem)
    cases found : w.site? i with
    | none => simpa [beginAll, atSite, found] using rest
    | some s =>
      rw [beginAll_cons found, Pool.Command.begin_of_fixed (fixed i List.mem_cons_self s found),
        putSite_self found, rest]
      rfl

/-- A start has nothing to wait for. -/
theorem startAll_eq : ∀ (is : List PoolId) (w : World),
    w.beginAll Pool.Command.start.begin is = ([], w.startAll is)
  | [], _ => rfl
  | i :: is, w => by
    cases found : w.site? i with
    | none => simpa [beginAll, startAll, atSite, found] using startAll_eq is w
    | some s =>
      rw [beginAll_cons found, startAll_eq is]
      simp [startAll, atSite, found, Pool.Command.begin]

end World

/-! ## §4 Calls on a manager -/

namespace Manager

variable {m : Manager} {w w' : World} {bus : BusId} {call : ManagerCall} {c : Pool.Command}

/-- The register once a lifecycle call has begun. -/
def without (m : Manager) : ManagerCall → Manager
  | .release name => { m with pools := m.pools.erase name }
  | .releaseAll => { m with pools := .empty }
  | _ => m

/-- A lifecycle call is to tell pools, and to give up names. -/
theorem carryOut_eq (is_command : call.command? = some c) (w : World) :
    m.carryOut w call = (m.without call, (w.beginAll c.begin (m.told call)).2) ∧
      m.awaited w call = (w.beginAll c.begin (m.told call)).1 := by
  cases call with
  | start name =>
    obtain rfl := Option.some.inj is_command
    rw [World.startAll_eq]
    exact ⟨rfl, rfl⟩
  | startAll =>
    obtain rfl := Option.some.inj is_command
    rw [World.startAll_eq]
    exact ⟨rfl, rfl⟩
  | create | add | remove => cases is_command
  | _ =>
    obtain rfl := Option.some.inj is_command
    exact ⟨rfl, rfl⟩

theorem get?_without (m : Manager) (call : ManagerCall) (k : String) :
    (m.without call).get? k = if call.givesUp k then none else m.get? k := by
  cases call with
  | release name =>
    refine (m.pools.get?_erase name k).trans ?_
    simp only [ManagerCall.givesUp, beq_iff_eq]
    rfl
  | releaseAll => rfl
  | _ => rfl

/-- Names that are not there cannot be given up. -/
theorem without_of_none (free : ∀ k, call.givesUp k = true → m.get? k = none) :
    m.without call = m := by
  cases call with
  | release name =>
    have same : m.pools.erase name = m.pools := NameMap.eq_of_entries <|
      List.filter_eq_self.2 fun e mem => bne_iff_ne.2 fun own => by
        have found := m.pools.get?_eq_some_iff.2 (own ▸ mem : (name, e.2) ∈ m.pools.entries)
        have none_there := free name (beq_self_eq_true name)
        rw [get?, found] at none_there
        cases none_there
    rw [without, same]
  | releaseAll =>
    have same : m.pools = .empty := NameMap.eq_of_entries <|
      List.eq_nil_iff_forall_not_mem.2 fun e mem => by
        have none_there := free e.1 rfl
        rw [get?, m.pools.get?_eq_some_iff.2 mem] at none_there
        cases none_there
    rw [without, ← same]
  | _ => rfl

theorem mem_values {i : PoolId} : i ∈ m.pools.values ↔ ∃ name, m.get? name = some i := by
  constructor
  · intro mem
    obtain ⟨e, there, rfl⟩ := List.mem_map.1 mem
    exact ⟨e.1, m.pools.get?_eq_some_iff.2 there⟩
  · rintro ⟨name, found⟩
    exact List.mem_map.2 ⟨(name, i), m.pools.get?_eq_some_iff.1 found, rfl⟩

/-- A call reaches only pools that the manager keeps. -/
theorem kept_of_told {i : PoolId} (mem : i ∈ m.told call) : ∃ name, m.get? name = some i := by
  cases call with
  | start name | stop name | release name => exact ⟨name, Option.mem_toList.1 mem⟩
  | startAll | stopAll | releaseAll => exact mem_values.1 mem
  | create | add | remove => cases mem

theorem told_without_subset {i : PoolId} (mem : i ∈ (m.without call).told call) :
    i ∈ m.told call := by
  cases call with
  | release name =>
    have found : (m.pools.erase name).get? name = some i := Option.mem_toList.1 mem
    rw [m.pools.get?_erase, if_pos rfl] at found
    cases found
  | releaseAll => cases mem
  | _ => exact mem

/-- No pool is told twice. -/
theorem Keeps.nodup_told (keeps : m.Keeps bus w) (call : ManagerCall) : (m.told call).Nodup := by
  have all : m.pools.values.Nodup := by
    refine List.pairwise_map.2 (m.pools.rising.imp_of_mem fun {a b} here there lt same => ?_)
    have one := keeps.once (m.pools.get?_eq_some_iff.2 here)
      (same ▸ m.pools.get?_eq_some_iff.2 there)
    exact String.lt_irrefl _ (one ▸ lt)
  cases call with
  | start name | stop name | release name =>
    show (m.get? name).toList.Nodup
    cases m.get? name <;> simp
  | startAll | stopAll | releaseAll => exact all
  | create | add | remove => exact List.nodup_nil

end Manager

/-! ## §5 Whatever goes on -/

/-- A move that is no other command leaves alone what the command would leave. -/
theorem Pool.Command.leaves_after {c : Pool.Command} {m : Move}
    (only : m.isCommand = true → m = c.move) (status : Pool.Status) :
    c.leaves (status.after m) = c.leaves status ∧
      (c.leaves status = status → status.after m = status) := by
  cases is_command : m.isCommand with
  | true =>
    rw [only is_command, ← c.leaves_eq]
    exact ⟨c.leaves_leaves status, id⟩
  | false =>
    have same : status.after m = status := by
      cases m with
      | start | beginStop | beginRelease => cases is_command
      | _ => cases status <;> rfl
    rw [same]
    exact ⟨rfl, fun _ => rfl⟩

theorem Pool.Command.leaves_foldl {c : Pool.Command} : ∀ {ms : List Move},
    (∀ m ∈ ms, m.isCommand = true → m = c.move) → ∀ status : Pool.Status,
      c.leaves (ms.foldl (fun status m => status.after m) status) = c.leaves status ∧
        (c.leaves status = status → ms.foldl (fun status m => status.after m) status = status)
  | [], _, _ => ⟨rfl, fun _ => rfl⟩
  | m :: ms, only, status => by
    obtain ⟨leaves, fixed⟩ := leaves_after (only m List.mem_cons_self) status
    obtain ⟨leaves', fixed'⟩ :=
      leaves_foldl (fun m' mem => only m' (List.mem_cons_of_mem m mem)) (status.after m)
    refine ⟨leaves'.trans leaves, fun left => ?_⟩
    rw [List.foldl_cons, fixed' (by rw [leaves, fixed left, left]), fixed left]

namespace World

variable {w w' : World} {c : Pool.Command} {is : List PoolId} {ls : List Label} {i : PoolId}

/-- A pool that was told, and nothing else, has the status that the command leaves. -/
theorem Told.status_eq (told : Told c is ls) (mem : i ∈ is) (status : Pool.Status) :
    (movesOf i ls).foldl (fun status m => status.after m) status = c.leaves status := by
  have only := told.only i mem
  obtain ⟨before, after, moves⟩ := List.append_of_mem (told.each i mem)
  rw [moves] at only ⊢
  rw [List.foldl_append, List.foldl_cons, ← c.leaves_eq]
  obtain ⟨leaves, -⟩ := Pool.Command.leaves_foldl
    (fun m mem => only m (List.mem_append_left _ mem)) status
  obtain ⟨-, fixed⟩ := Pool.Command.leaves_foldl
    (fun m mem => only m (List.mem_append_right _ (List.mem_cons_of_mem _ mem)))
    (c.leaves status)
  rw [leaves]
  exact fixed (c.leaves_leaves status)

/-- Where the pools that are told are before and after. -/
theorem Told.member (told : Told c is ls) (turns : w.Turns ls w') (orderly : w.Orderly)
    (sited : ∀ i ∈ is, (w.site? i).isSome = true) (mem : i ∈ is) :
    ∃ s k, w.site? i = some s ∧ w'.members[i]? = some k ∧ s.pool.Orderly ∧ k.pool.Orderly ∧
      k.pool.status = c.leaves s.pool.status := by
  obtain ⟨s, found⟩ := Option.isSome_iff_exists.1 (sited i mem)
  obtain ⟨k, member, pool⟩ := members_of_site? found
  have before := orderly i k member
  obtain ⟨k', member', after, status, -⟩ := turns.member member before
  rw [told.status_eq mem] at status
  exact ⟨s, k', found, member', pool ▸ before, after, pool ▸ status⟩

theorem Lived.beginAll (lived : w.Lived) : (w.beginAll c.begin is).2.Lived := by
  induction is generalizing w with
  | nil => exact lived
  | cons i is ih =>
    cases found : w.site? i with
    | none => simpa [World.beginAll, atSite, found] using ih lived
    | some s =>
      rw [beginAll_cons found]
      exact ih (lived.goes (.move c.move found (c.move_eq s)))

end World

namespace Manager

/-- Where the world is once all pools that a call reaches were told, whatever else went on. -/
structure Reaches (m : Manager) (w : World) (call : ManagerCall) (c : Pool.Command) (w' : World) :
    Prop where
  /-- Each of the pools has the status that the command alone would have given it. -/
  alone : ∀ i ∈ m.told call, ∃ s s' k, w.site? i = some s ∧ s.move c.move = some s' ∧
    w'.members[i]? = some k ∧ k.pool.status = s'.pool.status ∧
    k.pool.status = c.leaves s.pool.status
  /-- The same call once more comes to nothing. -/
  again : (m.carryOut w call).1.carryOut w' call = ((m.carryOut w call).1, w') ∧
    (m.carryOut w call).1.awaited w' call = []
  /-- The calls on these pools return, if their tasks have their turns and their attempts in flight
  end, whatever goes on beside. -/
  returns : ∀ Ω : World.Schedule, Ω.state 0 = w' → Ω.TimeFlows →
    (∀ i ∈ m.told call, Ω.IsFair i ∧ Ω.EndsAttempts i) →
    ∃ late, ∀ n, late ≤ n → ∀ i ∈ m.told call, ∀ d, (w'.callAt i d).isSome = true →
      (Ω.state n).callAt i d = some .returned

/-- A call on a manager is to tell `c` to the pools that it reaches, and no more. -/
structure Lifts (m : Manager) (w : World) (call : ManagerCall) (c : Pool.Command) : Prop where
  register : ∀ k, (m.carryOut w call).1.get? k = if call.givesUp k then none else m.get? k
  tells : w.Tells c (m.told call) (m.awaited w call) (m.carryOut w call).2
  anyOrder : ∀ is : List PoolId, is.Perm (m.told call) →
    (w.beginAll c.begin is).2 = (m.carryOut w call).2
  /-- Names that are not there cannot be given up. -/
  unknown : (∀ k, call.givesUp k = true → m.get? k = none) → (m.carryOut w call).1 = m
  /-- Where the pools have the status already nothing is done, and there is nothing to wait for. -/
  idle : (∀ i ∈ m.told call, ∀ k, w.members[i]? = some k →
      c.leaves k.pool.status = k.pool.status) →
    (m.carryOut w call).2 = w ∧ m.awaited w call = []
  /-- It is a row of turns, one for each pool; and any row of turns will do in which the pools are
  told. -/
  turns : w.Turns ((m.told call).map fun i => some (i, c.move)) (m.carryOut w call).2
  reaches : ∀ {ls : List Label} {w' : World}, w.Turns ls w' → World.Told c (m.told call) ls →
    m.Reaches w call c w'
  /-- What the call waits for comes. -/
  returns : ∀ Ω : World.Schedule, Ω.state 0 = (m.carryOut w call).2 → Ω.TimeFlows →
    (∀ i ∈ m.told call, Ω.IsFair i ∧ Ω.EndsAttempts i) →
    ∃ late, ∀ n, late ≤ n → ∀ i d, (i, d) ∈ m.awaited w call →
      (Ω.state n).callAt i d = some .returned

variable {m : Manager} {w w' : World} {bus : BusId} {call : ManagerCall} {c : Pool.Command}

theorem idle_of_fixed (is_command : call.command? = some c)
    (fixed : ∀ i ∈ m.told call, ∀ k, w.members[i]? = some k →
      c.leaves k.pool.status = k.pool.status) :
    (m.carryOut w call).2 = w ∧ m.awaited w call = [] := by
  obtain ⟨carries, awaits⟩ := carryOut_eq (m := m) is_command w
  rw [carries, awaits, World.beginAll_of_fixed fun i mem s found => ?_]
  · exact ⟨rfl, rfl⟩
  · obtain ⟨k, member, pool⟩ := World.members_of_site? found
    rw [← pool]
    exact fixed i mem k member

/-- The pools that are told one after another are told. -/
theorem told_each (c : Pool.Command) (is : List PoolId) :
    World.Told c is (is.map fun i => some (i, c.move)) where
  each i mem := by
    refine List.mem_filterMap.2 ⟨some (i, c.move), List.mem_map_of_mem mem, ?_⟩
    rw [Option.bind_some, if_pos rfl]
  only i mem m made _ := by
    obtain ⟨l, there, own⟩ := List.mem_filterMap.1 made
    obtain ⟨j, -, rfl⟩ := List.mem_map.1 there
    rw [Option.bind_some] at own
    split at own
    · exact (Option.some.inj own).symm
    · cases own

theorem reaches_of_turns (is_command : call.command? = some c) (orderly : w.Orderly)
    (sited : ∀ i ∈ m.told call, (w.site? i).isSome = true) {ls : List Label}
    (turns : w.Turns ls w') (told : World.Told c (m.told call) ls) : m.Reaches w call c w' := by
  have fate := fun i (mem : i ∈ m.told call) => told.member turns orderly sited mem
  obtain ⟨carries, -⟩ := carryOut_eq (m := m) is_command w
  refine ⟨fun i mem => ?_, ?_, fun Ω begins time even => ?_⟩
  · obtain ⟨s, k, found, member, sound, -, status⟩ := fate i mem
    have alone := (Site.phased_of_move sound.regular.sound (c.move_eq s)).status
    rw [← c.leaves_eq] at alone
    exact ⟨s, _, k, found, c.move_eq s, member, status.trans alone.symm, status⟩
  · obtain ⟨world, awaits⟩ := idle_of_fixed (m := m.without call) (w := w') is_command
      fun i mem k member => by
        obtain ⟨s, k', -, member', -, -, status⟩ := fate i (told_without_subset mem)
        obtain rfl := Option.some.inj (member.symm.trans member')
        rw [status]
        exact c.leaves_leaves _
    have register : ((m.without call).carryOut w' call).1 = m.without call := by
      rw [(carryOut_eq is_command w').1]
      refine without_of_none fun k gives => ?_
      rw [get?_without, gives]
      rfl
    rw [carries]
    exact ⟨Prod.ext register world, awaits⟩
  · subst begins
    refine late_of_forall fun i mem => ?_
    obtain ⟨s, k, -, member, -, after, -⟩ := fate i mem
    obtain ⟨fair, ends⟩ := even i mem
    refine Ω.returns_all (turns.sited (sited i mem)) (fun k' member' => ?_) fair time ends
    obtain rfl := Option.some.inj (member.symm.trans member')
    exact after

theorem lifts_of_keeps (is_command : call.command? = some c) (keeps : m.Keeps bus w)
    (orderly : w.Orderly) (sited : ∀ i ∈ m.told call, (w.site? i).isSome = true) :
    m.Lifts w call c := by
  obtain ⟨carries, awaits⟩ := carryOut_eq (m := m) is_command w
  have nodup := keeps.nodup_told call
  have tells := World.tells_beginAll (c := c) nodup sited
  have turns := World.turns_beginAll (c := c) sited
  have reaches : ∀ {ls : List Label} {w' : World}, w.Turns ls w' →
      World.Told c (m.told call) ls → m.Reaches w call c w' :=
    reaches_of_turns is_command orderly sited
  refine ⟨fun k => ?_, ?_, fun is perm => ?_, fun free => ?_, idle_of_fixed is_command, ?_,
    reaches, fun Ω begins time even => ?_⟩
  · rw [carries]
    exact m.get?_without call k
  · rw [carries, awaits]
    exact tells
  · rw [carries]
    exact World.beginAll_perm perm nodup sited
  · rw [carries]
    exact without_of_none free
  · rw [carries]
    exact turns
  · rw [carries] at begins
    obtain ⟨late, returned⟩ := (reaches turns (told_each c _)).returns Ω begins time even
    refine ⟨late, fun n le i d waits => ?_⟩
    rw [awaits] at waits
    exact returned n le i ((tells.calls i d).1 waits).1 d (tells.there waits)

theorem History.lived {start : World} (history : History start bus m w) (lived : start.Lived) :
    w.Lived := by
  induction history with
  | opened => exact lived.goes (.beside rfl)
  | @call m w call _ _ ih =>
    cases is_command : call.command? with
    | some c =>
      rw [(carryOut_eq is_command w).1]
      exact ih.beginAll
    | none =>
      cases call with
      | create name driver choices =>
        simp only [carryOut, create]
        split
        · exact ih
        · exact ih.goes (.build ..)
      | add name i =>
        simp only [carryOut, add]
        split
        · exact ih
        · split
          · exact ih
          · exact ih.renamed i name
      | remove name => exact ih
      | _ => cases is_command
  | goes _ goes ih => exact ih.goes goes
  | other name i _ _ ih => exact ih.renamed i name

theorem History.turns {start : World} (history : History start bus m w) {ls : List Label}
    (turns : w.Turns ls w') : History start bus m w' := by
  induction turns with
  | here => exact history
  | turn _ turn ih => exact ih.goes turn.goes

/-- Whatever was called on a manager and whatever happened beside, each pool of the world goes its
own way from there on, whatever the others do to the bus and the drivers that it works on; and to
start, stop or release pools, one by name or all, is to tell each of them, in any order, with
anything in between: each comes to the status that the command alone would have given it, the
others and the rest of the world stay as they are, the calls return, and the same call once more
changes nothing. A release takes out the names of the pools that it reaches, and no others. -/
theorem lifts_of_history {start : World} (lived : start.Lived) (history : History start bus m w)
    (sited : ∀ name i, m.get? name = some i → (w.site? i).isSome = true) :
    (∀ ls w', w.Turns ls w' → w.Apart ls w') ∧
      ∀ call c, call.command? = some c → m.Lifts w call c := by
  have orderly := (history.lived lived).orderly
  refine ⟨fun ls w' turns => turns.apart orderly, fun call c is_command => ?_⟩
  refine lifts_of_keeps is_command history.keeps orderly fun i mem => ?_
  obtain ⟨name, found⟩ := kept_of_told mem
  exact sited name i found

namespace Sample

/-- Two pools on one driver and one bus. The first was started. -/
def twoPools : Manager × World :=
  [.create "mail" 0 [.maxWorkers 1], .create "post" 0 [], .start "mail"].foldl
    (fun x call => x.1.carryOut x.2 call) (onBus { drivers := [.memory {}], buses := [.empty] } 0)

/-- The same when the only worker of the first pool has a job in hand and another one waits. -/
def twoPoolsAtWork : World :=
  twoPools.2.plays
    [(0, .dispatch Sample.quickJob), (0, .dispatch Sample.quickJob), (0, .task (.loop 0))]

/-- Both pools are told to be released, the second one first; meanwhile the job goes on. -/
def releaseBoth : List (PoolId × Move) :=
  [(1, .beginRelease), (0, .task (.loop 0)), (0, .beginRelease)]

/-- What happens until both releases return, now here, now there. -/
def untilBothReturn : List (PoolId × Move) :=
  [(0, .task (.watcher 0)), (1, .task (.call 0)), (0, .task (.watcher 0)),
    (0, .task (.forwarder 0)), (1, .task (.call 0)), (0, .task (.forwarder 0)),
    (0, .task (.call 0)), (0, .task (.loop 0)), (0, .task (.call 0))]

end Sample

open JobPool.Sample Manager.Sample

/-- Each pool is released as it would be alone, the manager keeps none, to release them again
changes nothing, and both releases return, the first one after the job in hand has ended. -/
theorem lifts_of_history_paired :
    ∃ m w, History { drivers := [.memory {}], buses := [.empty] } 0 m w ∧
      m.told .releaseAll = [0, 1] ∧
      w.members.map (·.pool.status) = [.running, .pending] ∧
      (∀ k, (m.carryOut w .releaseAll).1.get? k = none) ∧
      ∃ ls w', w.Turns ls w' ∧
        (∀ i ∈ [0, 1], ∃ k, w'.members[i]? = some k ∧ k.pool.status = .released) ∧
        (m.carryOut w .releaseAll).1.carryOut w' .releaseAll =
          ((m.carryOut w .releaseAll).1, w') ∧
        ∃ Ω : World.Schedule, Ω.state 0 = w' ∧ ∃ n, (Ω.state n).callAt 0 0 = some .returned ∧
          (Ω.state n).callAt 1 0 = some .returned := by
  have built : History { drivers := [.memory {}], buses := [.empty] } 0 twoPools.1 twoPools.2 :=
    .call (.start "mail") (.call (.create "post" 0 [])
      (.call (.create "mail" 0 [.maxWorkers 1]) .opened trivial) trivial) trivial
  have history := built.turns (World.turns_of_plays
    [(0, .dispatch quickJob), (0, .dispatch quickJob), (0, .task (.loop 0))] twoPools.2
    (by decide +kernel))
  have pools : twoPools.1.told .releaseAll = [0, 1] := by decide +kernel
  have sited : ∀ i ∈ [0, 1], (twoPoolsAtWork.site? i).isSome = true := by decide +kernel
  obtain ⟨-, lifts⟩ := lifts_of_history (w := twoPoolsAtWork) (.bare rfl) history
    fun name i found => sited i (pools ▸ mem_values.2 ⟨name, found⟩)
  have releases := lifts .releaseAll .release rfl
  have turns := World.turns_of_plays releaseBoth twoPoolsAtWork (by decide +kernel)
  have told : World.Told .release (twoPools.1.told .releaseAll) (releaseBoth.map some) := by
    rw [pools]
    have first : World.movesOf 0 (releaseBoth.map some) = [.task (.loop 0), .beginRelease] := rfl
    have second : World.movesOf 1 (releaseBoth.map some) = [.beginRelease] := rfl
    refine ⟨fun i mem => ?_, fun i mem => ?_⟩
    · rcases List.mem_pair.1 mem with rfl | rfl
      · simp [first, Pool.Command.move]
      · simp [second, Pool.Command.move]
    · rcases List.mem_pair.1 mem with rfl | rfl
      · rw [first]
        exact List.forall_mem_cons.2
          ⟨fun no_command => (by cases no_command), by simp [Pool.Command.move]⟩
      · simp [second, Pool.Command.move]
  have reaches := releases.reaches turns told
  have able : ((twoPoolsAtWork.plays releaseBoth).trail untilBothReturn).all
      (fun x => (x.1.make? x.2).isSome) = true := by decide +kernel
  have rests := World.schedule_comes_to_rest able (by decide +kernel) (by decide +kernel)
  obtain ⟨late, returned⟩ := reaches.returns _ rfl (rests 0).2.1 fun i _ =>
    ⟨(rests i).1, (rests i).2.2⟩
  have back := returned late (Nat.le_refl late)
  rw [pools] at back
  refine ⟨_, _, history, pools, by decide +kernel, releases.register, _, _, turns,
    fun i mem => ?_, reaches.again.1, _, rfl, late, back 0 (by decide) 0 (by decide +kernel),
    back 1 (by decide) 0 (by decide +kernel)⟩
  obtain ⟨s, s', k, -, -, member, -, status⟩ := reaches.alone i (pools ▸ mem)
  exact ⟨k, member, status⟩

end Manager
end JobPool
