/-
JobPool.Proofs.Pool.Signals — nothing else cancels the token of an attempt.

A move makes runs go on only where a loop takes its step (`Site.Advances`): its run takes a turn,
or it takes up a job and announces it. Any other change spares the tokens of attempts, and a turn
cancels no token but that of the attempt that overran (`Run.Abides.isCancelled_turn`). So
`Pool.Signalled` is kept, where `cut` says which attempts were dropped so far, and with it the
token of an attempt is live as long as the root is and the attempt was not dropped.

  §1 What a turn does to tokens
  §2 Moves and runs
  §3 The invariant
  §4 The root
  §5 Paths
-/
import JobPool.Pool.Attempts
import JobPool.Proofs.Pool.Forwarding
import JobPool.Proofs.Pool.Standing
import JobPool.Proofs.Pool.Upkeep
import JobPool.Proofs.Run.Bouts

namespace JobPool

open Pool (Change Changes Deed)

/-! ## §1 What a turn does to tokens -/

namespace Run

variable {job : Job} {terms : Terms} {start now : Nat} {r : Run} {picks : Picks} {tokens : Tokens}
  {t : Turn}

/-- A turn cancels no token that was handed out before but that of the attempt that overran. -/
theorem Abides.isCancelled_turn (h : Abides job terms start now r)
    (taken : r.turn picks now tokens = some t) {i : TokenId}
    (handedOut : i < tokens.children.length) :
    t.tokens.isCancelled i = true ↔ tokens.isCancelled i = true ∨
      ∃ a, r.phase = .attempting a ∧ a.token = i ∧ r.ComesTo tokens now .overrun := by
  by_cases own : ∃ a, r.phase = .attempting a ∧ a.token = i
  · obtain ⟨a, attempting, rfl⟩ := own
    obtain ⟨e, ends, -, -⟩ := ends_of_attempting attempting taken
    obtain ⟨result, comes, -, after⟩ := h.comesTo_of_ends attempting ends
    by_cases overran : result = .overrun
    · subst overran
      rw [if_pos rfl] at after
      rw [after, tokens.isCancelled_cancel handedOut]
      exact ⟨fun _ => .inr ⟨a, attempting, rfl, comes⟩, fun _ => rfl⟩
    · rw [if_neg overran] at after
      rw [after]
      refine ⟨.inl, fun cancelled => cancelled.resolve_right ?_⟩
      rintro ⟨-, -, -, comes'⟩
      exact overran (comes'.unique comes)
  · have apart : ∀ a ∈ r.underway?, a.token ≠ i := fun a ha same =>
      own ⟨a, underway?_eq_some.1 ha, same⟩
    rw [(turned_of_turn taken).spares.others i handedOut apart]
    refine ⟨.inl, fun cancelled => cancelled.resolve_right ?_⟩
    rintro ⟨a, attempting, same, -⟩
    exact own ⟨a, attempting, same⟩

/-- An attempt that begins has a new token, which is cancelled just if the root is. -/
theorem Abides.begun_turn (h : Abides job terms start now r)
    (positive : ∀ limit ∈ terms.attemptTimeout, 0 < limit.nanos)
    (taken : r.turn picks now tokens = some t) {b : Begun} (begun : t.begun = some b) :
    b = ⟨r.job, r.attempt, tokens.children.length⟩ ∧
      t.tokens.isCancelled b.token = tokens.root := by
  have new : ∀ {b' : Begun}, t.begun = some b' → b = b' := fun begun' =>
    Option.some.inj (begun.symm.trans begun')
  cases turned_of_turn taken with
  | announced _ _ unbegun _ _ | woken _ _ _ unbegun _ _ | expired _ _ _ unbegun _
  | ended _ _ unbegun _ => simp [begun] at unbegun
  | begun _ _ _ _ same begun' _ _ | stillborn _ _ _ same begun' _ =>
    obtain rfl := new begun'
    exact ⟨rfl, by rw [same]; exact tokens.isCancelled_child⟩
  | «instant» ready inTime attempt ends begun' _ =>
    obtain rfl := new begun'
    obtain ⟨result, comes, -, same⟩ := (Underway.ends_iff (Nat.le_refl now)).1 ends
    have comes := ComesTo.atOnce ready inTime ((comesTo_underway attempt).1 comes)
    rw [← h.inRound.terms_eq] at positive
    have other : result ≠ .overrun := by
      rintro rfl
      exact not_overrun_of_ready positive ready comes
    rw [if_neg other] at same
    exact ⟨rfl, by rw [same]; exact tokens.isCancelled_child⟩

/-- An attempt that is being made after a turn was begun in it. -/
theorem Abides.begun_of_attempting (h : Abides job terms start now r)
    (positive : ∀ limit ∈ terms.attemptTimeout, 0 < limit.nanos)
    (taken : r.turn picks now tokens = some t) {a : Underway}
    (attempting : t.next.phase = .attempting a) :
    t.begun = some ⟨t.next.job, t.next.attempt, a.token⟩ := by
  have turned := turned_of_turn taken
  obtain ⟨-, b, begun, token⟩ := turned.spares.underway a (underway?_eq_some.2 attempting)
  obtain ⟨length, ending, onCancel, -, -, -, next⟩ := turned.underway_of_attempting attempting
  rw [begun, token, next, (h.begun_turn positive taken begun).1]

end Run

/-! ## §2 Moves and runs -/

/-- A deed after which a run is not what it was. -/
def Pool.Deed.isOfRun : Deed → Bool
  | took _ _ _ | ran _ _ | broke _ _ => true
  | _ => false

namespace Site

/-- What a move does to the runs of loops. -/
inductive Advances (s : Site) (m : Move) (s' : Site) : Prop where
  /-- No run goes on; that of the loop that steps, if any, has no turn left to take. -/
  | rests {ds : List Deed} (changes : Changes s.pool ds s'.pool)
      (quiet : ∀ d ∈ ds, d.isOfRun = false)
      (done : ∀ i r, m = .task (.loop i) → s.pool.runAt i = some r →
        r.turn s.picks s.now s.pool.tokens = none)
  /-- A run takes a turn; a panic out of an event chain may cut it short. -/
  | turns {i : LoopId} {r run : Run} {t : Run.Turn} (own : m = .task (.loop i))
      (runs : s.pool.runAt i = some r) (turn : r.turn s.picks s.now s.pool.tokens = some t)
      (pool : s'.pool = s.pool.afterTurn i t run)
      (goes : run = t.next ∨ run = { t.next with phase := .unwound })
  /-- A loop takes up a job whose deadline is not on the clock, and there the run of it ends. -/
  | strays {i : LoopId} {job : Job} (own : m = .task (.loop i)) (idle : s.pool.runAt i = none)
      (change : s.pool.Change (some (.took i job false)) s'.pool)
      (runs : s'.pool.runAt i = some (.start job s.pool.settings.job s.now))
      (cut : (Run.start job s.pool.settings.job s.now).phase = .unwound)
  /-- A loop takes up a job, and the run of it takes its first turn. -/
  | begins {i : LoopId} {job : Job} {p : Pool} {run : Run} {t : Run.Turn}
      (own : m = .task (.loop i)) (idle : s.pool.runAt i = none)
      (change : s.pool.Change (some (.took i job true)) p)
      (runs : p.runAt i = some (.start job s.pool.settings.job s.now))
      (turn : (Run.start job s.pool.settings.job s.now).turn s.picks s.now p.tokens = some t)
      (pool : s'.pool = p.afterTurn i t run)
      (goes : run = t.next ∨ run = { t.next with phase := .unwound }) : Advances s m s'

variable {s s' : Site} {i : LoopId} {m : Move}

theorem advances_of_stepLoop (h : s.stepLoop i = some s') : s.Advances (.task (.loop i)) s' := by
  obtain ⟨l, found, cycles⟩ := cycles_of_stepLoop h
  have runAt := Pool.runAt_of_found found
  -- a step in which the run of the loop, if any, has no turn left to take
  have rests : ∀ {s' : Site} {ds : List Deed}, Changes s.pool ds s'.pool →
      (∀ d ∈ ds, d.isOfRun = false) →
      (∀ r, l.run? = some r → r.turn s.picks s.now s.pool.tokens = none) →
      s.Advances (.task (.loop i)) s' := by
    intro s' ds changes quiet done
    refine .rests changes quiet fun j r own runs => ?_
    obtain rfl : i = j := by simpa using own
    exact done r (runAt.symm.trans runs)
  have runless (free : l.isBusy = false) : l.run? = none := by
    cases phase : l.phase <;> simp [Loop.run?, Loop.isBusy, phase] at free ⊢
  have idle (free : l.isBusy = false) :
      ∀ r, l.run? = some r → r.turn s.picks s.now s.pool.tokens = none := by
    simp [runless free]
  have still {run : Run} (running : l.phase = .running run)
      (still : run.turn s.picks s.now s.pool.tokens = none) :
      ∀ r, l.run? = some r → r.turn s.picks s.now s.pool.tokens = none := by
    simp [Loop.run?, running, still]
  have taken (job : Job) (driver : Driver Job) : (s.inHand i l job driver).pool.runAt i =
      some (.start job s.pool.settings.job s.now) := by
    rw [inHand, Pool.runAt_setPhase (p := s.pool.modifyWorker ..) _ found rfl, if_pos rfl]
    rfl
  cases cycles with
  | ends free barred =>
    exact rests (.silent (.endLoop s.wall found free barred)) (List.forall_mem_nil _) (idle free)
  | parks looking =>
    exact rests (.single (.park _ found looking)) (by simp [Deed.isOfRun])
      (idle (Loop.free_of_looking looking))
  | wakes parked =>
    exact rests (.silent (.wake found parked)) (List.forall_mem_nil _)
      (idle (Loop.free_of_parked parked))
  | @strays job driver looking mayTake oldest offClock =>
    have take : s.pool.Change (some (.took i job false)) (s.inHand i l job driver).pool :=
      offClock ▸ .take job s.now found looking mayTake
    exact .strays rfl (runAt.trans (runless (Loop.free_of_looking looking))) take
      (taken job driver) (Run.phase_start_of_offClock offClock)
  | @begins job driver _ looking mayTake oldest onClock announces =>
    have take : s.pool.Change (some (.took i job true)) (s.inHand i l job driver).pool :=
      onClock ▸ .take job s.now found looking mayTake
    obtain ⟨-, t, run', turn, pool, goes, -⟩ := turn_of_stepRun announces
    exact .begins rfl (runAt.trans (runless (Loop.free_of_looking looking))) take
      (taken job driver) turn pool goes
  | runs running goes =>
    obtain ⟨-, t, run', turn, pool, goes, -⟩ := turn_of_stepRun goes
    exact .turns rfl (Pool.runAt_eq_some.2 ⟨l, found, running⟩) turn pool goes
  | crashes running unwound =>
    exact rests (.single (.crash found running unwound)) (by simp [Deed.isOfRun])
      (still running (by rw [Run.turn, unwound]))
  | finishes running done current =>
    exact rests (.single (.finish s.wall found running done current)) (by simp [Deed.isOfRun])
      (still running (by rw [Run.turn, done]))
  | finishesLate running done outdated =>
    exact rests (.single (.finishLate s.wall found running done outdated))
      (by simp [Deed.isOfRun]) (still running (by rw [Run.turn, done]))

theorem advances_of_move (moved : s.move m = some s') : s.Advances m s' := by
  by_cases ofLoop : ∃ i, m = .task (.loop i)
  · obtain ⟨i, rfl⟩ := ofLoop
    exact advances_of_stepLoop moved
  · obtain ⟨ds, does⟩ := changes_of_move moved
    refine .rests does.changes (fun d hd => ?_) fun i _ own => absurd ⟨i, own⟩ ofLoop
    have none_own : ∀ i, d.loop? ≠ some i := by
      intro i own
      have done := Path.doneBy_of_does does i
      rw [if_neg fun step => ofLoop ⟨i, Path.isStepOf_iff.1 step⟩] at done
      exact List.filter_eq_nil_iff.1 done d hd (by simp [own])
    cases d with
    | took i _ _ => exact absurd rfl (none_own i)
    | ran i _ => exact absurd rfl (none_own i)
    | broke i _ => exact absurd rfl (none_own i)
    | _ => rfl

end Site

/-! ## §3 The invariant -/

namespace Pool

/-- At `now` the runs of loops abide by their terms, their attempts were begun here, and the tokens
of attempts are live as long as the root is and the attempt is not among those that were `cut`. -/
structure Signalled (now : Nat) (cut : Begun → Prop) (p : Pool) : Prop where
  abides : ∀ i r, p.runAt i = some r →
    ∃ job start, Run.Abides job (.resolve job.overrides p.settings.job) start now r
  making : ∀ i r a, p.runAt i = some r → r.phase = .attempting a →
    ⟨r.job, r.attempt, a.token⟩ ∈ p.begun
  begun : ∀ b, cut b → b ∈ p.begun
  cancelled : p.tokens.root = false → ∀ b ∈ p.begun,
    (p.tokens.isCancelled b.token = true ↔ cut b)

variable {p q : Pool} {now : Nat} {cut : Begun → Prop} {i : LoopId} {r : Run}

theorem signalled_create (name : String) (settings : Settings) (now : Nat) :
    (create name settings).Signalled now fun _ => False := by
  have none_run : ∀ i, (create name settings).runAt i = none := fun i => rfl
  refine ⟨fun i r runs => ?_, fun i r a runs => ?_, fun _ => False.elim, fun _ b hb => ?_⟩
  · simp [none_run] at runs
  · simp [none_run] at runs
  · cases hb

theorem Signalled.later (h : p.Signalled now cut) {now' : Nat} (le : now ≤ now') :
    p.Signalled now' cut := by
  refine ⟨fun i r runs => ?_, h.making, h.begun, h.cancelled⟩
  obtain ⟨job, start, abides⟩ := h.abides i r runs
  exact ⟨job, start, abides.later le⟩

theorem Signalled.congr {cut' : Begun → Prop} (h : p.Signalled now cut)
    (same : ∀ b, cut' b ↔ cut b) : p.Signalled now cut' := by
  obtain rfl : cut' = cut := funext fun b => propext (same b)
  exact h

/-- Attempts with the same token are the same. -/
theorem Apportioned.begun_inj (h : p.Apportioned) {b b' : Begun} (hb : b ∈ p.begun)
    (hb' : b' ∈ p.begun) (same : b.token = b'.token) : b = b' :=
  List.inj_on_of_nodup_map (List.nodup_append.1 (List.nodup_append.1 h.nodup).2.1).2.1 hb hb' same

theorem Apportioned.begun_lt (h : p.Apportioned) {b : Begun} (hb : b ∈ p.begun) :
    b.token < p.tokens.children.length :=
  h.handedOut _ (List.mem_append_right _ (List.mem_append_right _ (List.mem_map_of_mem hb)))

/-- A change that is no turn spares the tokens of attempts. A run that is there after it was there
before, or has just started. -/
theorem Signalled.of_change {d : Option Deed} (h : p.Signalled now cut) (uses : p.Apportioned)
    (change : Change p d q) (unturned : ∀ i t, d ≠ some (.ran i t) ∧ d ≠ some (.broke i t))
    (runs : ∀ i r, q.runAt i = some r →
      p.runAt i = some r ∨ ∃ job, r = .start job p.settings.job now) : q.Signalled now cut := by
  obtain ⟨begun, spared⟩ := uses.spared change (fun i t => (unturned i t).1)
    fun i t => (unturned i t).2
  have settings := (later_of_change change).settings
  refine ⟨fun i r is => ?_, fun i r a is attempting => ?_, fun b hb => ?_, fun live b hb => ?_⟩
  · rw [settings]
    rcases runs i r is with was | ⟨job, rfl⟩
    · exact h.abides i r was
    · exact ⟨job, now, Run.abides_start job p.settings.job now⟩
  · rw [begun]
    rcases runs i r is with was | ⟨job, rfl⟩
    · exact h.making i r a was attempting
    · exact absurd attempting (Run.phase_start_ne_attempting job _ now a)
  · rw [begun]
    exact h.begun b hb
  · rw [begun] at hb
    rw [spared b hb live]
    refine h.cancelled (Bool.eq_false_iff.2 fun root => ?_) b hb
    rw [(before_of_change change).root_of_root root] at live
    cases live

/-- With a change that is no deed of a run no run goes on. -/
theorem runAt_of_quiet {d : Option Deed} (change : Change p d q)
    (quiet : ∀ e ∈ d, e.isOfRun = false) (i : LoopId) (r : Run) (runs : q.runAt i = some r) :
    p.runAt i = some r := by
  have follows := follows_of_change change i
  generalize p.runAt i = was at follows
  generalize q.runAt i = is at follows runs
  cases follows with
  | other _ => exact runs
  | takes _ _ | turns _ | breaks => simpa [Deed.isOfRun] using quiet _ rfl
  | parks | loses _ | finishes _ => cases runs

theorem Signalled.of_quiet {d : Option Deed} (h : p.Signalled now cut) (uses : p.Apportioned)
    (change : Change p d q) (quiet : ∀ e ∈ d, e.isOfRun = false) : q.Signalled now cut := by
  refine h.of_change uses change (fun i t => ⟨?_, ?_⟩) fun i r runs =>
    .inl (runAt_of_quiet change quiet i r runs)
  · rintro rfl
    simpa [Deed.isOfRun] using quiet _ rfl
  · rintro rfl
    simpa [Deed.isOfRun] using quiet _ rfl

/-- A loop takes up a job. -/
theorem Signalled.of_took {job : Job} {onClock : Bool} (h : p.Signalled now cut)
    (uses : p.Apportioned) (change : Change p (some (.took i job onClock)) q)
    (starts : q.runAt i = some (.start job p.settings.job now)) : q.Signalled now cut := by
  refine h.of_change uses change (fun i t => by simp) fun j r runs => ?_
  by_cases own : i = j
  · subst own
    exact .inr ⟨job, Option.some.inj (runs.symm.trans starts)⟩
  · rw [(follows_of_change change j).same (by simpa [Deed.loop?] using own)] at runs
    exact .inl runs

/-- A run takes a turn. -/
theorem Signalled.afterTurn (h : p.Signalled now cut) (uses : p.Apportioned) {run : Run}
    {picks : Picks} {t : Run.Turn} (runs : p.runAt i = some r)
    (turn : r.turn picks now p.tokens = some t)
    (goes : run = t.next ∨ run = { t.next with phase := .unwound }) :
    (p.afterTurn i t run).Signalled now fun b => cut b ∨ r.Overruns p.tokens now b := by
  obtain ⟨l, found, running⟩ := runAt_eq_some.1 runs
  obtain ⟨job, start, abides⟩ := h.abides i r runs
  have turned := Run.turned_of_turn turn
  have after : ∀ j, (p.afterTurn i t run).runAt j = if i = j then some run else p.runAt j := by
    intro j
    rw [runAt_setPhase (q := p.afterTurn i t run) (.running run) found rfl]
    rfl
  have fresh := fun {b : Begun} =>
    abides.begun_turn (Terms.isNormal_resolve ..).attempt_pos turn (b := b)
  have dropped : ∀ b, cut b ∨ r.Overruns p.tokens now b → b ∈ p.begun := by
    rintro b (before | ⟨a, attempting, rfl, -⟩)
    · exact h.begun b before
    · exact h.making i r a runs attempting
  refine ⟨fun j r' runs' => ?_, fun j r' a runs' attempting => ?_, fun b hb => ?_,
    fun live b hb => ?_⟩
  · rw [after] at runs'
    split at runs'
    · obtain rfl := Option.some.inj runs'
      refine ⟨job, start, ?_⟩
      rcases goes with rfl | rfl
      · exact abides.turn turned
      · exact (abides.turn turned).unwound
    · exact h.abides j r' runs'
  · rw [after] at runs'
    split at runs'
    · obtain rfl := Option.some.inj runs'
      rcases goes with rfl | rfl
      · refine List.mem_append_right _ (Option.mem_toList.2 ?_)
        exact abides.begun_of_attempting (Terms.isNormal_resolve ..).attempt_pos turn attempting
      · cases attempting
    · exact List.mem_append_left _ (h.making j r' a runs' attempting)
  · exact List.mem_append_left _ (dropped b hb)
  · have root : p.tokens.root = false := turned.spares.root.symm.trans live
    rcases List.mem_append.1 hb with hb | hb
    · refine (abides.isCancelled_turn turn (uses.begun_lt hb)).trans ?_
      refine or_congr (h.cancelled root b hb) ⟨?_, ?_⟩
      · rintro ⟨a, attempting, same, overran⟩
        exact ⟨a, attempting, uses.begun_inj hb (h.making i r a runs attempting) same.symm, overran⟩
      · rintro ⟨a, attempting, rfl, overran⟩
        exact ⟨a, attempting, rfl, overran⟩
    · obtain ⟨same, cancelled⟩ := fresh (Option.mem_toList.1 hb)
      refine ⟨fun told => ?_, fun before => ?_⟩
      · rw [show (p.afterTurn i t run).tokens = t.tokens from rfl, cancelled, root] at told
        cases told
      · have lt := uses.begun_lt (dropped b before)
        rw [same] at lt
        exact absurd lt (Nat.lt_irrefl _)

end Pool

/-! ## §4 The root -/

theorem Site.root_of_move {s s' : Site} {m : Move} (moved : s.move m = some s')
    (rooted : s.pool.status = .released → s.pool.tokens.root = true) :
    (s'.pool.tokens.root = true ↔ s.pool.tokens.root = true ∨ m.cancelsRoot = true) ∧
      (s'.pool.status = .released → s'.pool.tokens.root = true) := by
  have same : ∀ {p : Pool}, s'.pool.frame = p.frame → p.tokens.root = s.pool.tokens.root →
      (p.status = .released → s.pool.status = .released) → m.cancelsRoot = false →
      (s'.pool.tokens.root = true ↔ s.pool.tokens.root = true ∨ m.cancelsRoot = true) ∧
        (s'.pool.status = .released → s'.pool.tokens.root = true) := by
    intro p frame root status other
    have root' : s'.pool.tokens.root = p.tokens.root := (congrArg (·.tokens.root) frame :)
    have status' : s'.pool.status = p.status := (congrArg Pool.status frame :)
    rw [root', root, other, status']
    exact ⟨by simp, rooted ∘ status⟩
  have cancels : ∀ {p : Pool}, s'.pool.frame = p.frame → p.tokens.root = true →
      m.cancelsRoot = true →
      (s'.pool.tokens.root = true ↔ s.pool.tokens.root = true ∨ m.cancelsRoot = true) ∧
        (s'.pool.status = .released → s'.pool.tokens.root = true) := by
    intro p frame root own
    have root' : s'.pool.tokens.root = p.tokens.root := (congrArg (·.tokens.root) frame :)
    rw [root', root, own]
    exact ⟨by simp, fun _ => rfl⟩
  cases tends_of_move moved with
  | spares free frame =>
    refine same frame rfl id ?_
    cases m <;> first | rfl | cases free
  | refuses call rests =>
    rcases call with rfl | rfl | rfl
    · exact same (p := s.pool) rfl rfl id rfl
    · exact same (p := s.pool) rfl rfl id rfl
    · have root := rooted rests.symm
      exact cancels (p := s.pool) rfl root rfl
  | watches _ _ _ frame => exact same (p := s.pool.modifyUpkeep _ _) frame rfl id rfl
  | forwards _ _ frame => exact same (p := s.pool.modifyUpkeep _ _) frame rfl id rfl
  | goesOn _ _ frame => exact same (p := s.pool.setCall _ _) frame rfl id rfl
  | starts _ frame _ => exact same frame rfl nofun rfl
  | stops _ frame => exact same frame rfl nofun rfl
  | releases _ frame => exact cancels frame rfl rfl
  | abandons frame => exact cancels frame rfl rfl

/-! ## §5 Paths -/

namespace Path

variable {start s s' : Site} {ms : List (Site × Move)} {m : Move} {cut : Begun → Prop} {i : LoopId}

/-- The loop that drops an attempt in a move is the one that steps. -/
theorem drops_iff {r : Run} (runs : s.pool.runAt i = some r) (b : Begun) :
    Drops (s, .task (.loop i)) b ↔ r.Overruns s.pool.tokens s.now b := by
  constructor
  · rintro ⟨j, r', own, runs', overran⟩
    obtain rfl : i = j := by simpa using own
    obtain rfl := Option.some.inj (runs.symm.trans runs')
    exact overran
  · exact fun overran => ⟨i, r, rfl, runs, overran⟩

/-- A loop without a run drops no attempt. -/
theorem not_drops_of_idle (idle : s.pool.runAt i = none) (b : Begun) :
    ¬ Drops (s, .task (.loop i)) b := by
  rintro ⟨j, r, own, runs, -⟩
  obtain rfl : i = j := by simpa using own
  simp [idle] at runs

/-- Where no run goes on no attempt is dropped. -/
theorem not_drops_of_done (signalled : s.pool.Signalled s.now cut)
    (done : ∀ i r, m = .task (.loop i) → s.pool.runAt i = some r →
      r.turn s.picks s.now s.pool.tokens = none) (b : Begun) : ¬ Drops (s, m) b := by
  rintro ⟨i, r, own, runs, a, attempting, -, overran⟩
  obtain ⟨job, start, abides⟩ := signalled.abides i r runs
  obtain ⟨t, turn⟩ := abides.exists_turn s.picks overran
  rw [done i r own runs] at turn
  cases turn

theorem signalled_of_move (signalled : s.pool.Signalled s.now cut) (regular : s.pool.Regular)
    (moved : s.move m = some s') :
    s'.pool.Signalled s'.now fun b => cut b ∨ Drops (s, m) b := by
  refine Pool.Signalled.later ?_ (Nat.le.intro (Site.now_of_move moved).symm)
  cases Site.advances_of_move moved with
  | rests changes quiet done =>
    have kept : s'.pool.Regular ∧ s'.pool.Signalled s.now cut :=
      changes.keeps (P := fun p => p.Regular ∧ p.Signalled s.now cut) ⟨regular, signalled⟩
        fun change among h => ⟨h.1.of_change change,
          h.2.of_quiet h.1.apportioned change fun e he => quiet e (among e he)⟩
    exact kept.2.congr fun b => or_iff_left (not_drops_of_done signalled done b)
  | turns own runs turn pool goes =>
    subst own
    rw [pool]
    exact (signalled.afterTurn regular.apportioned runs turn goes).congr fun b =>
      or_congr_right (drops_iff runs b)
  | @strays i job own idle change runs _ =>
    subst own
    exact (signalled.of_took regular.apportioned change runs).congr fun b =>
      or_iff_left (not_drops_of_idle idle b)
  | @begins i job p run t own idle change runs turn pool goes =>
    subst own
    have unbegun : ∀ b, ¬ (Run.start job s.pool.settings.job s.now).Overruns p.tokens s.now b := by
      rintro b ⟨a, attempting, -⟩
      exact Run.phase_start_ne_attempting job _ s.now a attempting
    have taken := signalled.of_took regular.apportioned change runs
    rw [pool]
    exact (taken.afterTurn (regular.of_change change).apportioned runs turn goes).congr fun b =>
      or_congr_right (iff_of_false (not_drops_of_idle idle b) (unbegun b))

/-- The token of an attempt is cancelled only by the root and when the attempt overruns. -/
theorem signals {name : String} {settings : Settings} {driver : Driver Job} {hub : Hub} {wall : Nat}
    {picks : Picks} (path : Path (.create name settings driver hub wall picks) ms s) :
    Signals ms s := by
  have regular := fun {ms : List (Site × Move)} {s : Site}
      (path : Path (.create name settings driver hub wall picks) ms s) =>
    path.regular (Pool.regular_create name settings)
  have whole : s.pool.Signalled s.now (fun b => ∃ x ∈ ms, Drops x b) ∧
      (s.pool.tokens.root = true ↔ ∃ x ∈ ms, x.2.cancelsRoot = true) ∧
      (s.pool.status = .released → s.pool.tokens.root = true) := by
    induction path with
    | here =>
      refine ⟨(Pool.signalled_create name settings _).congr (by simp), ?_, nofun⟩
      exact iff_of_false nofun (by simp)
    | @step s s' ms m path moved ih =>
      obtain ⟨signalled, root, rooted⟩ := ih
      obtain ⟨root', rooted'⟩ := Site.root_of_move moved rooted
      refine ⟨(signalled_of_move signalled (regular path) moved).congr fun b => ?_, ?_, rooted'⟩
      · simp [or_and_right, exists_or]
      · rw [root', root]
        simp [or_and_right, exists_or]
  obtain ⟨signalled, root, -⟩ := whole
  refine ⟨(regular path).apportioned.nodup, root, fun b hb => ?_⟩
  cases live : s.pool.tokens.root with
  | true => exact ⟨fun _ => .inl rfl, fun _ => s.pool.tokens.isCancelled_of_root live _⟩
  | false => simpa using signalled.cancelled live b hb

end Path
end JobPool
