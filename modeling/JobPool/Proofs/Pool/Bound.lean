/-
JobPool.Proofs.Pool.Bound — how many workers and jobs a pool has at a time.

Every state that moves lead to is sound, whatever the moves are, and the books are
balanced on the way. So no more loops are busy than the bound on workers says, and
neither are more jobs taken and not finished. `Pool.Later` adds what holds between two
states: worker and generation of a loop are fixed, generations only grow, and who left
the registry does not come back.

  §1 From state to state
  §2 Runs of a pool
-/
import JobPool.Proofs.Pool.Account
import JobPool.Proofs.Pool.Step

namespace JobPool
namespace Pool

/-! ## §1 From state to state -/

/-- `q` may be a later state of the pool `p`. -/
structure Later (p q : Pool) : Prop where
  settings : q.settings = p.settings
  length_le : p.workers.length ≤ q.workers.length
  generations : ∀ (w : WorkerId) (k : Worker), p.workers[w]? = some k →
    ∃ k', q.workers[w]? = some k' ∧ k.generation ≤ k'.generation
  loops : ∀ (i : LoopId) (l : Loop), p.loops[i]? = some l →
    ∃ l', q.loops[i]? = some l' ∧ l'.worker = l.worker ∧ l'.generation = l.generation
  registry : ∀ w ∈ q.registry, w ∈ p.registry ∨ p.workers.length ≤ w

namespace Later

theorem refl (p : Pool) : p.Later p where
  settings := rfl
  length_le := Nat.le_refl _
  generations _ k found := ⟨k, found, Nat.le_refl _⟩
  loops _ l found := ⟨l, found, rfl, rfl⟩
  registry _ := .inl

theorem trans {p q r : Pool} (h : p.Later q) (h' : q.Later r) : p.Later r where
  settings := h'.settings.trans h.settings
  length_le := Nat.le_trans h.length_le h'.length_le
  generations w k found := by
    obtain ⟨k', found', le⟩ := h.generations w k found
    obtain ⟨k'', found'', le'⟩ := h'.generations w k' found'
    exact ⟨k'', found'', Nat.le_trans le le'⟩
  loops i l found := by
    obtain ⟨l', found', worker, generation⟩ := h.loops i l found
    obtain ⟨l'', found'', worker', generation'⟩ := h'.loops i l' found'
    exact ⟨l'', found'', worker'.trans worker, generation'.trans generation⟩
  registry w hw := by
    rcases h'.registry w hw with hw | beyond
    · exact h.registry w hw
    · exact .inr (Nat.le_trans h.length_le beyond)

end Later

theorem later_modifyWorker (p : Pool) (w : WorkerId) {f : Worker → Worker}
    (keeps : ∀ k, (f k).generation = k.generation) : p.Later (p.modifyWorker w f) where
  settings := rfl
  length_le := by simp [modifyWorker]
  generations v k found := by
    refine ⟨if w = v then f k else k, ?_, ?_⟩
    · rw [workers_modifyWorker, found]
      rfl
    · split <;> simp [keeps]
  loops _ l found := ⟨l, found, rfl, rfl⟩
  registry _ := .inl

theorem later_setPhase (p : Pool) (i : LoopId) (phase : Loop.Phase) :
    p.Later (p.setPhase i phase) where
  settings := rfl
  length_le := Nat.le_refl _
  generations _ k found := ⟨k, found, Nat.le_refl _⟩
  loops j l found := by
    refine ⟨if i = j then { l with phase } else l, ?_, ?_, ?_⟩
    · simp [setPhase, List.getElem?_modify, found]
    · split <;> rfl
    · split <;> rfl
  registry _ := .inl

theorem later_afterTurn (p : Pool) (i : LoopId) (t : Run.Turn) (run : Run) :
    p.Later (p.afterTurn i t run) :=
  let later := p.later_setPhase i (.running run)
  ⟨later.settings, later.length_le, later.generations, later.loops, later.registry⟩

theorem later_of_asked {p q : Pool} {f : Worker → Worker} {ws : List WorkerId}
    (asked : Asked f p ws q) (generation : ∀ k, (f k).generation = k.generation) : p.Later q where
  settings := (congrArg Pool.settings asked.rest :)
  length_le := by
    apply Nat.le_of_not_lt
    intro lt
    have := asked.workers q.workers.length
    simp [List.getElem?_eq_getElem lt] at this
  generations w k found := by
    refine ⟨if w ∈ ws then f k else k, by rw [asked.workers, found]; rfl, ?_⟩
    split
    · exact Nat.le_of_eq (generation k).symm
    · exact Nat.le_refl _
  loops i l found := ⟨l, by rw [asked.rest]; exact found, rfl, rfl⟩
  registry w hw := .inl (by rw [asked.rest] at hw; exact hw)

theorem later_of_change {p q : Pool} {d : Option Deed} (h : Change p d q) : p.Later q := by
  cases h with
  | aside aside =>
    obtain ⟨settings, workers, registry, loops, -, -⟩ := aside.beside
    refine ⟨settings, ?_, ?_, ?_, ?_⟩
    · rw [workers]
    · rw [workers]
      exact (Later.refl p).generations
    · rw [loops]
      exact (Later.refl p).loops
    · rw [registry]
      exact (Later.refl p).registry
  | add wall _ _ =>
    refine ⟨rfl, by simp [addWorker], fun w k found => ⟨k, ?_, Nat.le_refl _⟩,
      fun i l found => ⟨l, ?_, rfl, rfl⟩, fun w hw => ?_⟩
    · exact (List.getElem?_append_left (List.getElem?_eq_some_iff.1 found).1).trans found
    · exact (List.getElem?_append_left (List.getElem?_eq_some_iff.1 found).1).trans found
    · refine (List.mem_append.1 hw).imp_right fun hw => ?_
      rw [List.mem_singleton.1 hw]
  | @restart w k wall _ _ found _ _ =>
    refine ⟨rfl, by simp, fun v k' found' => ?_, fun i l found => ⟨l, ?_, rfl, rfl⟩, fun _ => .inl⟩
    · by_cases same : v = w
      · subst same
        obtain rfl := Option.some.inj (found.symm.trans found')
        have hv := (List.getElem?_eq_some_iff.1 found).1
        exact ⟨_, List.getElem?_set_self hv, Nat.le_succ _⟩
      · exact ⟨k', (List.getElem?_set_ne (Ne.symm same)).trans found', Nat.le_refl _⟩
    · exact (List.getElem?_append_left (List.getElem?_eq_some_iff.1 found).1).trans found
  | stop wall w =>
    exact later_of_asked (p.asked_stopWorker wall w) (·.generation_stop wall)
  | leave _ =>
    exact { p.later_modifyWorker _ (f := fun k => { k with loop := none }) fun _ => rfl with
      registry := fun w hw => .inl (List.mem_of_mem_erase hw) }
  | halt wall _ _ asked =>
    have later := later_of_asked asked (·.generation_stop wall)
    exact ⟨later.settings, later.length_le, later.generations, later.loops, later.registry⟩
  | drain wall _ _ asked _ =>
    have later := later_of_asked asked (·.generation_stop wall)
    exact ⟨later.settings, later.length_le, later.generations, later.loops,
      fun _ hw => absurd hw List.not_mem_nil⟩
  | notify =>
    refine { Later.refl p with loops := fun i l found => ⟨l.notify, ?_, ?_, ?_⟩ }
    · simp [notifyAll, found]
    · exact (alike_notify l).worker
    · exact (alike_notify l).generation
  | park _ _ _ => exact p.later_setPhase ..
  | wake _ _ => exact p.later_setPhase ..
  | endLoop wall _ _ _ =>
    exact (p.later_modifyWorker _ fun k => k.generation_markStopped ..).trans (later_setPhase ..)
  | take job now _ _ _ =>
    exact (p.later_modifyWorker _ (f := (·.take)) fun _ => rfl).trans (later_setPhase ..)
  | run _ _ _ => exact later_afterTurn ..
  | cutShort _ _ _ => exact later_afterTurn ..
  | crash _ _ _ => exact p.later_setPhase ..
  | finish wall _ _ _ _ =>
    exact (p.later_modifyWorker _ fun k => k.generation_finish ..).trans (later_setPhase ..)
  | finishLate wall _ _ _ _ =>
    exact (p.later_modifyWorker _ fun k => k.generation_markStopped ..).trans (later_setPhase ..)

theorem later_of_changes {p q : Pool} {ds : List Deed} (h : Changes p ds q) : p.Later q := by
  induction h with
  | refl p => exact .refl p
  | head first _ ih => exact (later_of_change first).trans ih

/-! ## §2 Who may not take jobs any more -/

/-- The loop belongs to an older generation of its worker. -/
def Outdated (p : Pool) (i : LoopId) : Prop :=
  ∃ l k, p.loops[i]? = some l ∧ p.workers[l.worker]? = some k ∧ l.generation < k.generation

/-- The worker was taken out of the registry. -/
def Removed (p : Pool) (w : WorkerId) : Prop := w < p.workers.length ∧ w ∉ p.registry

theorem Later.outdated {p q : Pool} (h : p.Later q) {i : LoopId} (out : p.Outdated i) :
    q.Outdated i := by
  obtain ⟨l, k, found, carrier, lt⟩ := out
  obtain ⟨l', found', worker, generation⟩ := h.loops i l found
  obtain ⟨k', carrier', le⟩ := h.generations _ k carrier
  refine ⟨l', k', found', worker ▸ carrier', ?_⟩
  rw [generation]
  exact Nat.lt_of_lt_of_le lt le

theorem Later.removed {p q : Pool} (h : p.Later q) {w : WorkerId} (out : p.Removed w) :
    q.Removed w := by
  refine ⟨Nat.lt_of_lt_of_le out.1 h.length_le, fun hw => ?_⟩
  rcases h.registry w hw with hw | beyond
  · exact out.2 hw
  · exact Nat.not_le_of_lt out.1 beyond

theorem Outdated.mayTake {p : Pool} {i : LoopId} {l : Loop} (out : p.Outdated i)
    (found : p.loops[i]? = some l) : p.mayTake l = false := by
  obtain ⟨l', k, found', carrier, lt⟩ := out
  obtain rfl := Option.some.inj (found.symm.trans found')
  rw [← Bool.not_eq_true, mayTake_iff carrier]
  intro may
  exact Nat.ne_of_gt lt may.1

theorem Sound.mayTake_of_removed {p : Pool} (h : p.Sound) {l : Loop} (hl : l ∈ p.loops)
    (out : p.Removed l.worker) : p.mayTake l = false := by
  obtain ⟨k, carrier, fits⟩ := h.fits l hl
  rw [← Bool.not_eq_true, mayTake_iff carrier]
  rintro ⟨current, live⟩
  have := h.cancelled _ k carrier (.inr out.2)
  rw [← fits.token_eq current.symm, live] at this
  cases this

end Pool

theorem Site.takes_of_not_mayTake {s : Site} {i : LoopId} {l : Loop}
    (found : s.pool.loops[i]? = some l) (barred : s.pool.mayTake l = false) :
    s.takes (.loop i) = none := by
  cases phase : l.phase <;> simp [takes, found, phase, barred]

/-! ## §3 The bound -/

theorem Site.held_eq (s : Site) : (s.held : Multiset Job) = s.pool.inHand := rfl

/-- However a pool is used, and in whatever order its tasks take their steps: its
registry has different workers, no more than the bound says; jobs that were taken and
are not finished, lost ones included, are no more than that either; and from then on
neither a loop of an older generation nor any loop of a worker that was taken out of
the registry takes a job. -/
theorem within_bound {name : String} {settings : Settings} {driver : Driver Job} {hub : Hub}
    {wall : Nat} {picks : Picks} {s : Site} {r : Record}
    (reached : Reached (.create name settings driver hub wall picks) (fun _ _ => True) s r) :
    s.pool.registry.Nodup ∧
    s.pool.registry.length ≤ max settings.worker.maxWorkers 1 ∧
    (∃ lost, r.taken.Perm (r.finished.map Prod.fst ++ (s.held ++ lost)) ∧
      (s.held ++ lost).length ≤ max settings.worker.maxWorkers 1) ∧
    ∀ s' r', Reached s (fun _ _ => True) s' r' →
      (∀ i, s.pool.Outdated i → s'.takes (.loop i) = none) ∧
      ∀ w, s.pool.Removed w → ∀ i l, s'.pool.loops[i]? = some l → l.worker = w →
        s'.takes (.loop i) = none := by
  obtain ⟨ds, changes, taken, finished⟩ := changes_of_reached reached
  have sound := (Pool.sound_create name settings).of_changes changes
  have bound : s.pool.settings.worker.bound = max settings.worker.maxWorkers 1 := by
    rw [(Pool.later_of_changes changes).settings]
    rfl
  have accounts := Pool.accounts_of_changes changes
  have balance : (r.taken : Multiset Job) =
      ↑(r.finished.map Prod.fst ++ (s.held ++ Pool.Deed.lostIn ds)) := by
    have jobs := accounts.jobs
    rw [taken, finished, ← s.held_eq] at jobs
    calc (r.taken : Multiset Job) = 0 + ↑r.taken := (zero_add _).symm
      _ = ↑s.held + ↑(r.finished.map Prod.fst) + ↑(Pool.Deed.lostIn ds) := jobs
      _ = ↑(r.finished.map Prod.fst) + (↑s.held + ↑(Pool.Deed.lostIn ds)) := by ac_rfl
      _ = _ := by rw [Multiset.coe_add, Multiset.coe_add]
  have perm := Multiset.coe_eq_coe.1 balance
  rw [← bound]
  refine ⟨sound.nodup, sound.within, ⟨Pool.Deed.lostIn ds, perm, ?_⟩, ?_⟩
  · have busy := accounts.busy
    rw [taken, finished] at busy
    have none_busy : (Site.create name settings driver hub wall picks).pool.busyCount = 0 := rfl
    have length := perm.length_eq
    rw [List.length_append, List.length_map] at length
    calc (s.held ++ Pool.Deed.lostIn ds).length = s.pool.busyCount := by omega
      _ ≤ s.pool.settings.worker.bound := sound.busy
  · intro s' r' reached'
    obtain ⟨es, changes', -, -⟩ := changes_of_reached reached'
    have later := Pool.later_of_changes changes'
    have sound' := sound.of_changes changes'
    constructor
    · intro i out
      obtain ⟨l, -, found, -⟩ := later.outdated out
      exact Site.takes_of_not_mayTake found ((later.outdated out).mayTake found)
    · rintro w out i l found rfl
      have barred := sound'.mayTake_of_removed (List.mem_of_getElem? found) (later.removed out)
      exact Site.takes_of_not_mayTake found barred

namespace Sample

/-- A pool that asks for no worker at all, which counts as one. -/
def oneWorker : Site :=
  .create "one worker" { worker := { maxWorkers := 0, batch := 0 } } (.memory {}) {} 0 .least

/-- A job that succeeds at once. -/
def quickJob : Job where
  id := 0
  name := "quick"
  overrides := {}
  shouldRetry := fun _ => false
  attempt := fun _ => .runs (some 0) .success none

end Sample

open Sample

/-- The worker is stopped and started again, and its new loop takes a job. -/
theorem reached_oneWorker : ∃ s r, Reached oneWorker (fun _ _ => True) s r ∧ r.taken.length = 1 ∧
    s.pool.Outdated 0 := by
  have started : Reached oneWorker (fun _ _ => True) _ _ := .step .start .here trivial rfl
  have first := Reached.step (.dispatch quickJob) started trivial rfl
  have stopped := Reached.step (.stopWorker 0) first trivial rfl
  have again := Reached.step (.dispatch quickJob) stopped trivial rfl
  have taken := Reached.step (.task (.loop 1)) again trivial rfl
  exact ⟨_, _, taken, rfl, _, _, rfl, rfl, by decide⟩

theorem within_bound_modest : ∃ s r, Reached oneWorker (fun _ _ => True) s r ∧ r.taken.length = 1 ∧
    s.pool.registry.length ≤ 1 ∧
    ∀ s' r', Reached s (fun _ _ => True) s' r' → s'.takes (.loop 0) = none := by
  obtain ⟨s, r, reached, taken, outdated⟩ := reached_oneWorker
  obtain ⟨-, registry, -, never⟩ := within_bound reached
  exact ⟨s, r, reached, taken, registry, fun s' r' later => (never s' r' later).1 0 outdated⟩

end JobPool
