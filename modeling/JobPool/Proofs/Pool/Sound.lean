/-
JobPool.Proofs.Pool.Sound — the invariant that ties workers, loops and tokens.

A bound on the registry is no bound on running jobs by itself, for workers that
left the registry and loops of older generations are still there. What closes the
gap is `Pool.Sound`: a busy loop is the current one of a working worker, and no two
loops are the current one of a worker; a worker that is stopped or has left the
registry has a cancelled token; and while the root is not cancelled, workers that
are not stopped are registered. So a loop that may take a job is the loop of an idle
registered worker, and the busy loops belong to others of the registry.

  §1 Lists
  §2 The invariant
  §3 Changes that leave every loop as busy as it was
  §4 Workers leave
  §5 A loop and its worker change together
  §6 Workers and loops are added
  §7 All changes
-/
import Mathlib.Data.List.Perm.Subperm
import JobPool.Proofs.Pool.Change

namespace JobPool

/-! ## §1 Lists -/

/-- A change at one place of a list, up to the order. -/
theorem exists_perm_modify {α : Type} {xs : List α} {i : Nat} {a : α} (found : xs[i]? = some a) :
    ∃ rest, xs.Perm (a :: rest) ∧ ∀ f, (xs.modify i f).Perm (f a :: rest) := by
  obtain ⟨hi, ha⟩ := List.getElem?_eq_some_iff.1 found
  refine ⟨xs.take i ++ xs.drop (i + 1), ?_, fun f => ?_⟩
  · calc xs.Perm (xs.take i ++ a :: xs.drop (i + 1)) := by
          rw [← ha, ← List.drop_eq_getElem_cons hi, List.take_append_drop]
      _ |>.Perm (a :: (xs.take i ++ xs.drop (i + 1))) := List.perm_middle
  · rw [List.modify_eq_take_cons_drop hi, ha]
    exact List.perm_middle

/-- Where one element is replaced, no more than `n` satisfy `f` if that was so before and
an element that comes to satisfy it finds room. -/
theorem countP_le_of_replaced {α : Type} {xs ys rest : List α} {a b : α} {f : α → Bool} {n : Nat}
    (perm : xs.Perm (a :: rest)) (perm' : ys.Perm (b :: rest)) (le : xs.countP f ≤ n)
    (room : f b = true → f a = true ∨ xs.countP f < n) : ys.countP f ≤ n := by
  rw [perm.countP_eq, List.countP_cons] at le room
  rw [perm'.countP_eq, List.countP_cons]
  cases hb : f b with
  | false =>
    simp only [Bool.false_eq_true, if_false]
    omega
  | true =>
    rcases room hb with ha | lt
    · simp only [ha, if_true] at le ⊢
      exact le
    · simp only [if_true]
      omega

/-! ## §2 The invariant -/

/-- A loop fits its worker: it is no newer, and if it is the current loop it has
the worker's token and is busy just as the worker works. -/
structure Loop.Fits (l : Loop) (k : Worker) : Prop where
  generation_le : l.generation ≤ k.generation
  current_of_busy : l.isBusy = true → l.generation = k.generation
  token_eq : l.generation = k.generation → l.token = k.token
  working_eq : l.generation = k.generation → k.isWorking = l.isBusy

/-- Two loops are not both the loop of one generation of a worker. -/
def Loop.Apart (a b : Loop) : Prop := a.worker = b.worker → a.generation ≠ b.generation

theorem Loop.Apart.symm {a b : Loop} (h : a.Apart b) : b.Apart a := fun same => (h same.symm).symm

namespace Pool

/-- Every loop fits its worker, and no two loops are the loop of one generation. -/
structure Matched (p : Pool) : Prop where
  fits : ∀ l ∈ p.loops, ∃ k, p.workers[l.worker]? = some k ∧ l.Fits k
  apart : p.loops.Pairwise Loop.Apart

theorem Matched.fitting {p : Pool} (h : p.Matched) {i : LoopId} {l : Loop}
    (found : p.loops[i]? = some l) : ∃ k, p.workers[l.worker]? = some k ∧ l.Fits k :=
  h.fits l (List.mem_of_getElem? found)

/-- The invariant of a pool. -/
structure Sound (p : Pool) : Prop where
  nodup : p.registry.Nodup
  created : ∀ w ∈ p.registry, ∃ k, p.workers[w]? = some k
  within : p.registry.length ≤ p.settings.worker.bound
  handedOut : ∀ (w : WorkerId) (k : Worker), p.workers[w]? = some k →
    k.token < p.tokens.children.length
  fits : ∀ l ∈ p.loops, ∃ k, p.workers[l.worker]? = some k ∧ l.Fits k
  apart : p.loops.Pairwise Loop.Apart
  cancelled : ∀ (w : WorkerId) (k : Worker), p.workers[w]? = some k →
    k.isStopped = true ∨ w ∉ p.registry → p.tokens.isCancelled k.token = true
  registered : p.tokens.root = false → ∀ (w : WorkerId) (k : Worker), p.workers[w]? = some k →
    k.isStopped = false → w ∈ p.registry
  busy : p.loops.countP (·.isBusy) ≤ p.settings.worker.bound
  releasing : ∀ u, .releasing u ∈ p.calls → p.tokens.root = true

theorem Sound.matched {p : Pool} (h : p.Sound) : p.Matched := ⟨h.fits, h.apart⟩

theorem sound_create (name : String) (settings : Settings) : (create name settings).Sound where
  nodup := List.nodup_nil
  created := by simp [create]
  within := Nat.zero_le _
  handedOut := by simp [create]
  fits := by simp [create]
  apart := List.Pairwise.nil
  cancelled := by simp [create]
  registered := by simp [create]
  busy := Nat.zero_le _
  releasing := by simp [create]

/-! ## §3 Changes that leave every loop as busy as it was -/

/-- Two loops look alike to the invariant. -/
structure Alike (a b : Loop) : Prop where
  worker : a.worker = b.worker
  generation : a.generation = b.generation
  token : a.token = b.token
  busy : a.isBusy = b.isBusy

theorem alike_notify (l : Loop) : Alike l.notify l := by
  cases h : l.phase <;> simp only [Loop.notify, h] <;> constructor <;> simp [Loop.isBusy, h]

/-- What may become of a worker whose loops are left alone: it can only be stopped,
and only with its token cancelled. -/
structure Remains (tokens : Tokens) (k k' : Worker) : Prop where
  generation : k'.generation = k.generation
  token : k'.token = k.token
  working : k'.isWorking = k.isWorking
  stopped : k.isStopped = true → k'.isStopped = true
  cancelled : k'.isStopped = true → k.isStopped = true ∨ tokens.isCancelled k.token = true

theorem Remains.refl (tokens : Tokens) (k : Worker) : Remains tokens k k :=
  ⟨rfl, rfl, rfl, id, .inl⟩

/-- Loops that stay alike keep fitting workers that work or not as before. -/
theorem Matched.of_alike {p q : Pool} (h : p.Matched) {f : Loop → Loop}
    (loops : q.loops = p.loops.map f) (alike : ∀ l, Alike (f l) l) {g : WorkerId → Worker → Worker}
    (workers : ∀ w, q.workers[w]? = (p.workers[w]?).map (g w))
    (same : ∀ (w : WorkerId) (k : Worker), p.workers[w]? = some k →
      (g w k).generation = k.generation ∧ (g w k).token = k.token ∧
        (g w k).isWorking = k.isWorking) : q.Matched where
  fits := by
    rw [loops, List.forall_mem_map]
    intro l hl
    obtain ⟨k, found, fits⟩ := h.fits l hl
    obtain ⟨generation, token, working⟩ := same _ k found
    refine ⟨g l.worker k, ?_, ?_, ?_, ?_, ?_⟩
    · rw [workers, (alike l).worker, found]
      rfl
    · rw [(alike l).generation, generation]
      exact fits.generation_le
    · rw [(alike l).generation, generation, (alike l).busy]
      exact fits.current_of_busy
    · rw [(alike l).generation, generation, (alike l).token, token]
      exact fits.token_eq
    · rw [(alike l).generation, generation, (alike l).busy, working]
      exact fits.working_eq
  apart := by
    rw [loops, List.pairwise_map]
    refine h.apart.imp fun {a b} apart => ?_
    unfold Loop.Apart
    rw [(alike a).worker, (alike b).worker, (alike a).generation, (alike b).generation]
    exact apart

/-- The invariant is kept if loops stay alike and workers remain. -/
theorem Sound.of_remains {p q : Pool} (h : p.Sound) (settings : q.settings = p.settings)
    (registry : q.registry = p.registry) {f : Loop → Loop} (loops : q.loops = p.loops.map f)
    (alike : ∀ l, Alike (f l) l) {g : WorkerId → Worker → Worker}
    (workers : ∀ w, q.workers[w]? = (p.workers[w]?).map (g w))
    (remains : ∀ (w : WorkerId) (k : Worker), p.workers[w]? = some k → Remains q.tokens k (g w k))
    (tokens : p.tokens.Before q.tokens)
    (releasing : ∀ u, .releasing u ∈ q.calls → .releasing u ∈ p.calls ∨ q.tokens.root = true) :
    q.Sound where
  nodup := registry ▸ h.nodup
  created := by
    intro w hw
    obtain ⟨k, found⟩ := h.created w (registry ▸ hw)
    exact ⟨g w k, by rw [workers, found]; rfl⟩
  within := by
    rw [registry, settings]
    exact h.within
  handedOut := by
    intro w k' found'
    rw [workers] at found'
    obtain ⟨k, found, rfl⟩ := Option.map_eq_some_iff.1 found'
    rw [(remains w k found).token]
    exact Nat.lt_of_lt_of_le (h.handedOut w k found) tokens.length_le
  fits := (h.matched.of_alike loops alike workers fun w k found =>
    let remains := remains w k found
    ⟨remains.generation, remains.token, remains.working⟩).fits
  apart := (h.matched.of_alike loops alike workers fun w k found =>
    let remains := remains w k found
    ⟨remains.generation, remains.token, remains.working⟩).apart
  cancelled := by
    intro w k' found' out
    rw [workers] at found'
    obtain ⟨k, found, rfl⟩ := Option.map_eq_some_iff.1 found'
    have remains := remains w k found
    rw [remains.token]
    rw [registry] at out
    rcases out with stopped | left
    · rcases remains.cancelled stopped with stopped | cancelled
      · exact tokens.cancelled_of_cancelled _ (h.cancelled w k found (.inl stopped))
      · exact cancelled
    · exact tokens.cancelled_of_cancelled _ (h.cancelled w k found (.inr left))
  registered := by
    intro live w k' found' goes
    rw [workers] at found'
    obtain ⟨k, found, rfl⟩ := Option.map_eq_some_iff.1 found'
    rw [registry]
    refine h.registered ?_ w k found ?_
    · exact Bool.eq_false_iff.2 fun root => by simp [tokens.root_of_root root] at live
    · exact Bool.eq_false_iff.2 fun stopped => by
        simp [(remains w k found).stopped stopped] at goes
  busy := by
    rw [loops, settings, List.countP_map]
    have same : (fun l => l.isBusy) ∘ f = fun l : Loop => l.isBusy := funext fun l => (alike l).busy
    rw [same]
    exact h.busy
  releasing := by
    intro u hu
    rcases releasing u hu with hu | root
    · exact tokens.root_of_root (h.releasing u hu)
    · exact root

theorem Sound.beside {p q : Pool} (h : p.Sound) (beside : Beside p q) : q.Sound := by
  refine h.of_remains beside.settings beside.registry (f := id) (g := fun _ k => k) ?_
    (fun _ => ⟨rfl, rfl, rfl, rfl⟩) ?_ (fun _ k _ => .refl _ k) beside.tokens beside.releasing
  · rw [List.map_id, beside.loops]
  · simp [beside.workers]

theorem Sound.notifyAll {p : Pool} (h : p.Sound) : p.notifyAll.Sound :=
  h.of_remains rfl rfl rfl alike_notify (g := fun _ k => k) (by simp [Pool.notifyAll])
    (fun _ k _ => .refl _ k) (.refl _) fun _ => .inl

/-- Workers are asked to stop or to end, which at most stops them. -/
theorem Sound.asked {p q : Pool} (h : p.Sound) {f : Worker → Worker} {ws : List WorkerId}
    (asked : Asked f p ws q) (generation : ∀ k, (f k).generation = k.generation)
    (token : ∀ k, (f k).token = k.token) (working : ∀ k, (f k).isWorking = k.isWorking)
    (stopped : ∀ k : Worker, k.isStopped = true → (f k).isStopped = true) : q.Sound := by
  refine h.of_remains (congrArg Pool.settings asked.rest :) (congrArg Pool.registry asked.rest :)
    (f := id) ?_ (fun _ => ⟨rfl, rfl, rfl, rfl⟩) asked.workers ?_ asked.before ?_
  · rw [List.map_id]
    exact (congrArg Pool.loops asked.rest :)
  · intro w k found
    split
    · rename_i hw
      exact ⟨generation k, token k, working k, stopped k,
        fun _ => .inr (asked.cancelled w hw k found (h.handedOut w k found))⟩
    · exact .refl _ k
  · rw [asked.rest]
    exact fun _ => .inl

theorem isStopped_stop_of_isStopped (wall : Nat) {k : Worker} (h : k.isStopped = true) :
    (k.stop wall).isStopped = true := by
  rw [k.isStopped_stop, h, Bool.true_or]

theorem Sound.stopped {p q : Pool} (h : p.Sound) {wall : Nat} {ws : List WorkerId}
    (asked : Asked (·.stop wall) p ws q) : q.Sound :=
  h.asked asked (·.generation_stop wall) (·.token_stop wall) (·.isWorking_stop wall)
    fun _ => isStopped_stop_of_isStopped wall

/-- A call that has returned is no release. -/
theorem Sound.returned {p : Pool} (h : p.Sound) (c : CallId) : (p.setCall c .returned).Sound :=
  h.beside ⟨rfl, rfl, rfl, rfl, .refl _, fun _ hu =>
    .inl ((List.mem_or_eq_of_mem_set hu).resolve_right nofun)⟩

theorem Sound.takeLoop {p : Pool} (h : p.Sound) (w : WorkerId) : (p.takeLoop w).2.Sound := by
  refine h.of_remains rfl rfl (f := id) (List.map_id _).symm (fun _ => ⟨rfl, rfl, rfl, rfl⟩)
    (g := fun v k => if w = v then { k with loop := none } else k) ?_ ?_ (.refl _) fun _ => .inl
  · exact p.workers_modifyWorker w fun k => { k with loop := none }
  · intro v k _
    split
    · exact ⟨rfl, rfl, rfl, id, .inl⟩
    · exact .refl _ k

/-! ## §4 Workers leave -/

/-- The token of the worker is cancelled, and it is stopped unless a release is
under way: it may leave the registry. -/
def Dismissed (p : Pool) (w : WorkerId) : Prop :=
  ∀ k, p.workers[w]? = some k →
    (k.token < p.tokens.children.length → p.tokens.isCancelled k.token = true) ∧
    (k.isStopped = true ∨ ∃ u, .releasing u ∈ p.calls)

/-- Workers that are dismissed may leave the registry. -/
theorem Sound.unregister {p : Pool} (h : p.Sound) {registry : List WorkerId}
    (sub : registry.Sublist p.registry)
    (dismissed : ∀ w ∈ p.registry, w ∉ registry → p.Dismissed w) :
    ({ p with registry } : Pool).Sound where
  nodup := h.nodup.sublist sub
  created w hw := h.created w (sub.subset hw)
  within := Nat.le_trans sub.length_le h.within
  handedOut := h.handedOut
  fits := h.fits
  apart := h.apart
  cancelled w k found out := by
    rcases out with stopped | left
    · exact h.cancelled w k found (.inl stopped)
    · by_cases hw : w ∈ p.registry
      · exact (dismissed w hw left k found).1 (h.handedOut w k found)
      · exact h.cancelled w k found (.inr hw)
  registered live w k found goes := by
    have live : p.tokens.root = false := live
    by_contra left
    rcases (dismissed w (h.registered live w k found goes) left k found).2 with stopped | ⟨u, hu⟩
    · simp [stopped] at goes
    · simp [h.releasing u hu] at live
  busy := h.busy
  releasing := h.releasing

theorem Sound.leave {p : Pool} (h : p.Sound) {w : WorkerId}
    (stopped : ∀ k, p.workers[w]? = some k → k.isStopped = true ∧
      (k.token < p.tokens.children.length → p.tokens.isCancelled k.token = true)) :
    (({ p with registry := p.registry.erase w } : Pool).takeLoop w).2.Sound := by
  refine Sound.takeLoop (h.unregister List.erase_sublist fun v hv erased k found => ?_) w
  obtain rfl : v = w :=
    Decidable.byContradiction fun hne => erased ((List.mem_erase_of_ne hne).2 hv)
  exact ⟨(stopped k found).2, .inl (stopped k found).1⟩

theorem Sound.drain {p q : Pool} (h : p.Sound) {c : CallId} {u : Option UpkeepId} {wall : Nat}
    {loops : List LoopId} (found : p.calls[c]? = some (.releasing u))
    (asked : Asked (retired wall) p p.registry q) :
    ({ q with registry := [], calls := p.calls.set c (.draining loops) } : Pool).Sound := by
  have retired : q.Sound :=
    h.asked asked (·.generation_stop wall) (·.token_stop wall) (·.isWorking_stop wall)
      fun _ => isStopped_stop_of_isStopped wall
  have registry : q.registry = p.registry := (congrArg Pool.registry asked.rest :)
  have calls : q.calls = p.calls := (congrArg Pool.calls asked.rest :)
  have empty := retired.unregister (List.nil_sublist _) fun w hw _ k' found' => by
    refine ⟨fun _ => ?_, .inr ⟨u, calls ▸ List.mem_of_getElem? found⟩⟩
    rw [registry] at hw
    rw [asked.workers] at found'
    obtain ⟨k, found, rfl⟩ := Option.map_eq_some_iff.1 found'
    rw [if_pos hw]
    exact (congrArg q.tokens.isCancelled (k.token_stop wall)).trans
      (asked.cancelled w hw k found (h.handedOut w k found))
  refine empty.beside ⟨rfl, rfl, rfl, rfl, .refl _, fun v hv => .inl ?_⟩
  exact calls ▸ (List.mem_or_eq_of_mem_set hv).resolve_right nofun

/-! ## §5 A loop and its worker change together -/

theorem Sound.fitting {p : Pool} (h : p.Sound) {i : LoopId} {l : Loop}
    (found : p.loops[i]? = some l) : ∃ k, p.workers[l.worker]? = some k ∧ l.Fits k :=
  h.matched.fitting found

section Exchange

variable {p q : Pool} {i : LoopId} {l : Loop} {k : Worker} {phase : Loop.Phase}
  {f : Worker → Worker}

/-- What is found after a change of one worker was there before, or is that worker. -/
theorem found_modifyWorker (carrier : p.workers[l.worker]? = some k) {w : WorkerId} {k' : Worker}
    (found' : (p.modifyWorker l.worker f).workers[w]? = some k') :
    p.workers[w]? = some k' ∨ (w = l.worker ∧ k' = f k) := by
  rw [workers_modifyWorker] at found'
  by_cases hw : l.worker = w
  · subst hw
    rw [carrier] at found'
    exact .inr ⟨rfl, by simpa using found'.symm⟩
  · exact .inl (by simpa [hw] using found')

/-- A loop changes its phase and its worker changes by `f`. They have to fit again, and a
worker whose current loop is another one keeps working or not. -/
theorem Matched.exchange (h : p.Matched) (found : p.loops[i]? = some l)
    (carrier : p.workers[l.worker]? = some k) (generation : (f k).generation = k.generation)
    (token : (f k).token = k.token) (fits : Loop.Fits { l with phase } (f k))
    (others : l.generation ≠ k.generation → (f k).isWorking = k.isWorking)
    (workers : q.workers = (p.modifyWorker l.worker f).workers)
    (loops : q.loops = (p.setPhase i phase).loops) : q.Matched := by
  obtain ⟨rest, perm, perm'⟩ := exists_perm_modify found
  have perm' := perm' fun l => { l with phase }
  obtain ⟨apart, restApart⟩ : (∀ l' ∈ rest, l.Apart l') ∧ rest.Pairwise Loop.Apart :=
    List.pairwise_cons.1 ((List.Perm.pairwise_iff Loop.Apart.symm perm).1 h.apart)
  have lookup := p.workers_modifyWorker l.worker f
  constructor
  · intro l' hl'
    rw [workers]
    rw [loops] at hl'
    rcases List.mem_cons.1 (perm'.subset hl') with rfl | hl'
    · exact ⟨f k, (lookup _).trans (by simp [carrier]), fits⟩
    · obtain ⟨k', found', fits'⟩ := h.fits l' (perm.symm.subset (List.mem_cons_of_mem _ hl'))
      by_cases hw : l.worker = l'.worker
      · rw [← hw, carrier] at found'
        obtain rfl := Option.some.inj found'
        have differ := apart l' hl' hw
        refine ⟨f k, (lookup _).trans (by simp [← hw, carrier]), ?_⟩
        refine ⟨?_, ?_, ?_, ?_⟩
        · rw [generation]
          exact fits'.generation_le
        · rw [generation]
          exact fits'.current_of_busy
        · rw [generation, token]
          exact fits'.token_eq
        · rw [generation]
          intro current
          rw [others (by rw [← current]; exact differ)]
          exact fits'.working_eq current
      · exact ⟨k', (lookup _).trans (by simp [hw, found']), fits'⟩
  · rw [loops]
    exact (List.Perm.pairwise_iff Loop.Apart.symm perm').2
      (List.pairwise_cons.2 ⟨apart, restApart⟩)

/-- A loop and its worker change together, and a loop may get busy only where there is room. -/
theorem Sound.exchange (h : p.Sound) (found : p.loops[i]? = some l)
    (carrier : p.workers[l.worker]? = some k) (generation : (f k).generation = k.generation)
    (token : (f k).token = k.token) (fits : Loop.Fits { l with phase } (f k))
    (others : l.generation ≠ k.generation → (f k).isWorking = k.isWorking)
    (cancelled : (f k).isStopped = true → p.tokens.isCancelled k.token = true)
    (stopped : k.isStopped = true → (f k).isStopped = true)
    (room : ({ l with phase } : Loop).isBusy = true →
      l.isBusy = true ∨ p.loops.countP (·.isBusy) < p.settings.worker.bound) :
    ((p.modifyWorker l.worker f).setPhase i phase).Sound := by
  obtain ⟨rest, perm, perm'⟩ := exists_perm_modify found
  have perm' := perm' fun l => { l with phase }
  obtain ⟨fits, apart⟩ := h.matched.exchange (q := (p.modifyWorker l.worker f).setPhase i phase)
    found carrier generation token fits others rfl rfl
  refine ⟨h.nodup, ?_, h.within, ?_, fits, apart, ?_, ?_, ?_, h.releasing⟩
  · intro w hw
    obtain ⟨k', found'⟩ := h.created w hw
    exact ⟨_, (p.workers_modifyWorker l.worker f w).trans (by rw [found']; rfl)⟩
  · intro w k' found'
    rcases found_modifyWorker carrier found' with found' | ⟨rfl, rfl⟩
    · exact h.handedOut w k' found'
    · rw [token]
      exact h.handedOut _ k carrier
  · intro w k' found' out
    rcases found_modifyWorker carrier found' with found' | ⟨rfl, rfl⟩
    · exact h.cancelled w k' found' out
    · rw [token]
      rcases out with stopped | left
      · exact cancelled stopped
      · exact h.cancelled _ k carrier (.inr left)
  · intro live w k' found' goes
    rcases found_modifyWorker carrier found' with found' | ⟨rfl, rfl⟩
    · exact h.registered live w k' found' goes
    · refine h.registered live _ k carrier ?_
      exact Bool.eq_false_iff.2 fun was => by simp [stopped was] at goes
  · exact countP_le_of_replaced perm perm' h.busy room

end Exchange

theorem Sound.setPhase {p : Pool} (h : p.Sound) {i : LoopId} {l : Loop} {phase : Loop.Phase}
    (found : p.loops[i]? = some l) (same : ({ l with phase } : Loop).isBusy = l.isBusy) :
    (p.setPhase i phase).Sound := by
  obtain ⟨k, carrier, fits⟩ := h.fitting found
  have unmoved : p.modifyWorker l.worker id = p := by simp [modifyWorker, List.modify_id]
  rw [← unmoved]
  refine h.exchange (f := id) found carrier rfl rfl ⟨fits.generation_le, ?_, fits.token_eq, ?_⟩
    (fun _ => rfl) ?_ id ?_
  · rw [same]
    exact fits.current_of_busy
  · rw [same]
    exact fits.working_eq
  · intro stopped
    exact h.cancelled _ k carrier (.inl stopped)
  · rw [same]
    exact .inl

theorem mayTake_iff {p : Pool} {l : Loop} {k : Worker} (carrier : p.workers[l.worker]? = some k) :
    p.mayTake l = true ↔ k.generation = l.generation ∧ p.tokens.isCancelled l.token = false := by
  simp [Pool.mayTake, check, carrier]

theorem root_of_live {t : Tokens} {i : TokenId} (h : t.isCancelled i = false) : t.root = false := by
  unfold Tokens.isCancelled at h
  exact (Bool.or_eq_false_iff.1 h).1

/-- The workers of the busy loops. -/
def holders (p : Pool) : List WorkerId := (p.loops.filter (·.isBusy)).map (·.worker)

theorem length_holders (p : Pool) : p.holders.length = p.loops.countP (·.isBusy) := by
  rw [holders, List.length_map, List.countP_eq_length_filter]

/-- No worker has two busy loops. -/
theorem Sound.nodup_holders {p : Pool} (h : p.Sound) : p.holders.Nodup := by
  unfold holders
  refine List.pairwise_map.2 ((h.apart.sublist List.filter_sublist).imp_of_mem ?_)
  intro a b ha hb apart same
  obtain ⟨ha, busyA⟩ := List.mem_filter.1 ha
  obtain ⟨hb, busyB⟩ := List.mem_filter.1 hb
  obtain ⟨k, carrier, fitsA⟩ := h.fits a ha
  obtain ⟨k', carrier', fitsB⟩ := h.fits b hb
  rw [← same, carrier] at carrier'
  obtain rfl := Option.some.inj carrier'
  exact apart same ((fitsA.current_of_busy busyA).trans (fitsB.current_of_busy busyB).symm)

theorem Sound.working_of_mem_holders {p : Pool} (h : p.Sound) {w : WorkerId} (hw : w ∈ p.holders) :
    ∃ k, p.workers[w]? = some k ∧ k.isWorking = true := by
  obtain ⟨l, hl, rfl⟩ := List.mem_map.1 hw
  obtain ⟨hl, busy⟩ := List.mem_filter.1 hl
  obtain ⟨k, carrier, fits⟩ := h.fits l hl
  exact ⟨k, carrier, (fits.working_eq (fits.current_of_busy busy)).trans busy⟩

theorem isStopped_of_isWorking {k : Worker} (h : k.isWorking = true) : k.isStopped = false := by
  rw [Bool.eq_false_iff]
  intro stopped
  rw [Worker.isWorking_of_isStopped stopped] at h
  cases h

/-- A loop that may take a job finds its worker idle, and fewer loops are busy than
the bound says: the busy ones belong to other workers of the registry. -/
theorem Sound.room_of_mayTake {p : Pool} (h : p.Sound) {i : LoopId} {l : Loop} {k : Worker}
    (found : p.loops[i]? = some l) (carrier : p.workers[l.worker]? = some k)
    (free : l.isBusy = false) (mayTake : p.mayTake l = true) :
    k.isStopped = false ∧ k.isWorking = false ∧
      p.loops.countP (·.isBusy) < p.settings.worker.bound := by
  obtain ⟨k', carrier', fits⟩ := h.fitting found
  rw [carrier] at carrier'
  obtain rfl := Option.some.inj carrier'
  obtain ⟨current, live⟩ := (mayTake_iff carrier).1 mayTake
  have root := root_of_live live
  have goes : k.isStopped = false := by
    rw [Bool.eq_false_iff]
    intro stopped
    have := h.cancelled _ k carrier (.inl stopped)
    rw [← fits.token_eq current.symm, live] at this
    cases this
  have idle : k.isWorking = false := (fits.working_eq current.symm).trans free
  refine ⟨goes, idle, ?_⟩
  have distinct : (l.worker :: p.holders).Nodup := by
    refine List.nodup_cons.2 ⟨?_, h.nodup_holders⟩
    intro held
    obtain ⟨k', carrier', working⟩ := h.working_of_mem_holders held
    rw [carrier] at carrier'
    obtain rfl := Option.some.inj carrier'
    rw [idle] at working
    cases working
  have registered : l.worker :: p.holders ⊆ p.registry := by
    intro w hw
    rcases List.mem_cons.1 hw with rfl | hw
    · exact h.registered root _ k carrier goes
    · obtain ⟨k', carrier', working⟩ := h.working_of_mem_holders hw
      exact h.registered root w k' carrier' (isStopped_of_isWorking working)
  calc p.loops.countP (·.isBusy) < (l.worker :: p.holders).length := by
        rw [List.length_cons, p.length_holders]
        exact Nat.lt_succ_self _
    _ ≤ p.registry.length := (distinct.subperm registered).length_le
    _ ≤ p.settings.worker.bound := h.within

theorem Sound.take {p : Pool} (h : p.Sound) {i : LoopId} {l : Loop} (run : Run)
    (found : p.loops[i]? = some l) (looking : l.phase = .looking) (mayTake : p.mayTake l = true) :
    ((p.modifyWorker l.worker (·.take)).setPhase i (.running run)).Sound := by
  obtain ⟨k, carrier, fits⟩ := h.fitting found
  have free := Loop.free_of_looking looking
  obtain ⟨goes, idle, room⟩ := h.room_of_mayTake found carrier free mayTake
  have current := ((mayTake_iff carrier).1 mayTake).1.symm
  refine h.exchange (f := (·.take)) found carrier rfl rfl
    ⟨fits.generation_le, fun _ => current, fits.token_eq, fun _ => rfl⟩
    (absurd current) nofun ?_ fun _ => .inr room
  intro stopped
  rw [goes] at stopped
  cases stopped

theorem Sound.finish {p : Pool} (h : p.Sound) {i : LoopId} {l : Loop} {r : Run} (wall : Nat)
    (found : p.loops[i]? = some l) (running : l.phase = .running r) :
    ((p.modifyWorker l.worker (·.finish (p.tokens.isCancelled l.token) wall)).setPhase i
      (if p.tokens.isCancelled l.token then .ended else .looking)).Sound := by
  obtain ⟨k, carrier, fits⟩ := h.fitting found
  have busy := Loop.busy_of_running running
  have current := fits.current_of_busy busy
  have working : k.isWorking = true := (fits.working_eq current).trans busy
  have token := fits.token_eq current
  cases cancelled : p.tokens.isCancelled l.token with
  | true =>
    refine h.exchange (f := (·.finish true wall)) found carrier rfl rfl
      ⟨fits.generation_le, nofun, fits.token_eq, fun _ => rfl⟩ (absurd current) ?_
      (fun _ => rfl) nofun
    intro _
    rw [← token]
    exact cancelled
  | false =>
    refine h.exchange (f := (·.finish false wall)) found carrier rfl rfl
      ⟨fits.generation_le, nofun, fits.token_eq, fun _ => rfl⟩ (absurd current) nofun ?_ nofun
    intro stopped
    rw [isStopped_of_isWorking working] at stopped
    cases stopped

theorem Sound.endLoop {p : Pool} (h : p.Sound) {i : LoopId} {l : Loop} (wall : Nat)
    (found : p.loops[i]? = some l) (barred : p.mayTake l = false) :
    ((p.modifyWorker l.worker (·.markStopped l.generation wall)).setPhase i .ended).Sound := by
  obtain ⟨k, carrier, fits⟩ := h.fitting found
  have generation := k.generation_markStopped l.generation wall
  have token := k.token_markStopped l.generation wall
  by_cases current : l.generation = k.generation
  · have stopped : (k.markStopped l.generation wall).isStopped = true := by
      rw [current]
      exact k.isStopped_markStopped wall
    have cancelled : p.tokens.isCancelled k.token = true := by
      rw [← fits.token_eq current, ← Bool.not_eq_false]
      intro live
      rw [(mayTake_iff carrier).2 ⟨current.symm, live⟩] at barred
      cases barred
    refine h.exchange (f := (·.markStopped l.generation wall)) found carrier generation token
      ⟨?_, nofun, ?_, fun _ => Worker.isWorking_of_isStopped stopped⟩ (absurd current)
      (fun _ => cancelled) (fun _ => stopped) nofun
    · rw [generation]
      exact fits.generation_le
    · rw [generation, token]
      exact fits.token_eq
  · have unmoved : k.markStopped l.generation wall = k :=
      Worker.markStopped_of_ne (Ne.symm current) wall
    refine h.exchange (f := (·.markStopped l.generation wall)) found carrier generation token
      ⟨?_, nofun, ?_, ?_⟩ (fun _ => by rw [unmoved]) ?_ ?_ nofun
    · rw [generation]
      exact fits.generation_le
    · rw [generation, token]
      exact fits.token_eq
    · rw [generation]
      exact fun same => absurd same current
    · rw [unmoved]
      exact fun stopped => h.cancelled _ k carrier (.inl stopped)
    · rw [unmoved]
      exact id

/-! ## §6 Workers and loops are added -/

/-- The loop that a worker is started with, or started again with. -/
def firstLoop (p : Pool) (w : WorkerId) (generation : Nat) : Loop :=
  ⟨w, generation, p.tokens.child.1, .looking⟩

/-- Worker `w` gets a new loop that is not older than any other of its loops. -/
theorem Matched.start {p q : Pool} (h : p.Matched) {w : WorkerId} {k : Worker}
    (workers : ∀ v, q.workers[v]? = if v = w then some k else p.workers[v]?)
    (loops : q.loops = p.loops ++ [p.firstLoop w k.generation])
    (token : k.token = p.tokens.child.1) (working : k.isWorking = false)
    (older : ∀ l ∈ p.loops, l.worker = w → l.generation < k.generation ∧ l.isBusy = false) :
    q.Matched := by
  constructor
  · intro l hl
    rw [loops] at hl
    rcases List.mem_append.1 hl with hl | hl
    · rw [workers]
      split
      · rename_i same
        obtain ⟨lt, free⟩ := older l hl same
        refine ⟨k, rfl, Nat.le_of_lt lt, ?_, fun eq => absurd eq (Nat.ne_of_lt lt),
          fun eq => absurd eq (Nat.ne_of_lt lt)⟩
        simp [free]
      · exact h.fits l hl
    · obtain rfl := List.mem_singleton.1 hl
      refine ⟨k, ?_, Nat.le_refl _, ?_, fun _ => token.symm, fun _ => working⟩
      · rw [workers]
        exact if_pos rfl
      · simp [firstLoop, Loop.isBusy]
  · rw [loops]
    refine List.pairwise_append.2 ⟨h.apart, List.pairwise_singleton .., ?_⟩
    intro l hl l' hl' same
    obtain rfl := List.mem_singleton.1 hl'
    exact Nat.ne_of_lt (older l hl same).1

/-- No loop of a worker that does not work is busy, and none is newer than the worker. -/
theorem Matched.older {p : Pool} (h : p.Matched) {w : WorkerId} {k : Worker}
    (found : p.workers[w]? = some k) (stopped : k.isStopped = true) :
    ∀ l ∈ p.loops, l.worker = w → l.generation < k.generation + 1 ∧ l.isBusy = false := by
  intro l hl same
  obtain ⟨k', carrier, fits⟩ := h.fits l hl
  rw [same, found] at carrier
  obtain rfl := Option.some.inj carrier
  refine ⟨Nat.lt_succ_of_le fits.generation_le, ?_⟩
  rw [Bool.eq_false_iff]
  intro busy
  have working := (fits.working_eq (fits.current_of_busy busy)).trans busy
  rw [isStopped_of_isWorking working] at stopped
  cases stopped

/-- A worker `w` is started, new or again: older loops of it are free, and it is
registered. -/
theorem Sound.start {p q : Pool} (h : p.Sound) {w : WorkerId} {k : Worker}
    (settings : q.settings = p.settings) (calls : q.calls = p.calls)
    (tokens : q.tokens = p.tokens.child.2)
    (workers : ∀ v, q.workers[v]? = if v = w then some k else p.workers[v]?)
    (loops : q.loops = p.loops ++ [p.firstLoop w k.generation])
    (token : k.token = p.tokens.child.1) (idle : k.status = .idle)
    (older : ∀ l ∈ p.loops, l.worker = w → l.generation < k.generation ∧ l.isBusy = false)
    (nodup : q.registry.Nodup) (within : q.registry.length ≤ p.settings.worker.bound)
    (registry : ∀ v, v ∈ q.registry ↔ v = w ∨ v ∈ p.registry) : q.Sound := by
  have stopped : k.isStopped = false := by simp [Worker.isStopped, idle]
  have working : k.isWorking = false := by simp [Worker.isWorking, idle]
  have length : q.tokens.children.length = p.tokens.children.length + 1 := by
    simp [tokens, Tokens.child]
  have before : p.tokens.Before q.tokens := tokens ▸ p.tokens.before_child
  obtain ⟨fits, apart⟩ := h.matched.start workers loops token working older
  refine ⟨nodup, ?_, settings ▸ within, ?_, fits, apart, ?_, ?_, ?_, ?_⟩
  · intro v hv
    rw [workers]
    split
    · exact ⟨k, rfl⟩
    · rename_i hne
      exact h.created v (((registry v).1 hv).resolve_left hne)
  · intro v k' found
    rw [workers] at found
    rw [length]
    split at found
    · obtain rfl := Option.some.inj found
      rw [token]
      exact Nat.lt_succ_self _
    · exact Nat.lt_succ_of_lt (h.handedOut v k' found)
  · intro v k' found out
    rw [workers] at found
    split at found
    · rename_i same
      obtain rfl := Option.some.inj found
      rcases out with out | out
      · rw [stopped] at out
        cases out
      · exact absurd ((registry v).2 (.inl same)) out
    · refine before.cancelled_of_cancelled _ (h.cancelled v k' found (out.imp_right ?_))
      exact fun left hv => left ((registry v).2 (.inr hv))
  · intro live v k' found goes
    rw [workers] at found
    rw [registry]
    split at found
    · exact .inl (by assumption)
    · refine .inr (h.registered ?_ v k' found goes)
      rw [tokens] at live
      exact live
  · rw [loops, settings, List.countP_append]
    exact h.busy
  · intro u hu
    rw [calls] at hu
    exact before.root_of_root (h.releasing u hu)

theorem workers_addWorker (p : Pool) (wall : Nat) (w : WorkerId) :
    (p.addWorker wall).workers[w]? =
      if w = p.workers.length then some (.create wall p.tokens.child.1 p.loops.length)
      else p.workers[w]? := by
  simp only [Pool.addWorker]
  rcases Nat.lt_trichotomy w p.workers.length with lt | eq | gt
  · rw [List.getElem?_append_left lt, if_neg (Nat.ne_of_lt lt)]
  · subst eq
    simp [Tokens.child]
  · rw [if_neg (Nat.ne_of_gt gt), List.getElem?_eq_none (Nat.le_of_lt gt), List.getElem?_eq_none]
    rw [List.length_append]
    exact gt

theorem workers_set {p : Pool} {w : WorkerId} {k : Worker} (found : p.workers[w]? = some k)
    (k' : Worker) (v : WorkerId) :
    (p.workers.set w k')[v]? = if v = w then some k' else p.workers[v]? := by
  have hw := (List.getElem?_eq_some_iff.1 found).1
  by_cases same : v = w
  · subst same
    simp [hw]
  · rw [if_neg same, List.getElem?_set_ne (Ne.symm same)]

theorem Sound.addWorker {p : Pool} (h : p.Sound) (wall : Nat)
    (room : p.registry.length < p.settings.worker.bound) : (p.addWorker wall).Sound := by
  have fresh : p.workers.length ∉ p.registry := by
    intro hw
    obtain ⟨k, found⟩ := h.created _ hw
    simp at found
  refine h.start (w := p.workers.length) (k := .create wall p.tokens.child.1 p.loops.length)
    rfl rfl rfl (p.workers_addWorker wall) rfl rfl rfl ?_ ?_ ?_ ?_
  · intro l hl same
    obtain ⟨k, carrier, -⟩ := h.fits l hl
    simp [same] at carrier
  · refine List.nodup_append.2 ⟨h.nodup, List.pairwise_singleton .., ?_⟩
    intro v hv v' hv' same
    rw [List.mem_singleton.1 hv'] at same
    exact fresh (same ▸ hv)
  · simp only [Pool.addWorker, List.length_append, List.length_singleton]
    exact room
  · intro v
    simp only [Pool.addWorker, List.mem_append, List.mem_singleton]
    exact Or.comm

theorem Sound.restart {p : Pool} (h : p.Sound) {w : WorkerId} {k : Worker} (wall : Nat)
    (registered : w ∈ p.registry) (found : p.workers[w]? = some k) (stopped : k.isStopped = true) :
    ({ p with
        tokens := p.tokens.child.2
        workers := p.workers.set w (k.restart wall p.tokens.child.1 p.loops.length)
        loops := p.loops ++ [p.firstLoop w (k.generation + 1)] } : Pool).Sound := by
  refine h.start (w := w) (k := k.restart wall p.tokens.child.1 p.loops.length) rfl rfl rfl
    (workers_set found _) rfl rfl rfl (h.matched.older found stopped) h.nodup h.within ?_
  intro v
  constructor
  · exact .inr
  · rintro (rfl | hv)
    · exact registered
    · exact hv

/-! ## §7 All changes -/

theorem Sound.of_change {p q : Pool} {d : Option Deed} (h : p.Sound) (change : Change p d q) :
    q.Sound := by
  cases change with
  | aside aside => exact h.beside aside.beside
  | add wall _ room => exact h.addWorker wall room
  | restart wall _ registered found stopped _ => exact h.restart wall registered found stopped
  | stop wall w => exact h.stopped (p.asked_stopWorker wall w)
  | leave stopped => exact h.leave stopped
  | @halt c _ _ _ _ _ asked =>
    rw [← (congrArg Pool.calls asked.rest :)]
    exact (h.stopped asked).returned c
  | drain wall found _ asked _ => exact h.drain found asked
  | notify => exact h.notifyAll
  | park wake found looking => exact h.setPhase found (by simp [Loop.isBusy, looking])
  | wake found parked => exact h.setPhase found (by simp [Loop.isBusy, parked])
  | endLoop wall found _ barred => exact h.endLoop wall found barred
  | take job now found looking mayTake => exact h.take _ found looking mayTake
  | run found running turn =>
    exact (h.setPhase found (by simp [Loop.isBusy, running])).beside (beside_afterTurn turn _)
  | cutShort found running turn =>
    exact (h.setPhase found (by simp [Loop.isBusy, running])).beside (beside_afterTurn turn _)
  | crash found running _ => exact h.setPhase found (by simp [Loop.isBusy, running])
  | finish wall found running _ _ => exact h.finish wall found running
  | finishLate wall found _ _ outdated => exact h.endLoop wall found (by simp [mayTake, outdated])

theorem Sound.of_changes {p q : Pool} {ds : List Deed} (h : p.Sound) (changes : Changes p ds q) :
    q.Sound :=
  changes.keeps h fun change _ h => h.of_change change

end Pool
end JobPool
