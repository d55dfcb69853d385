/-
JobPool.Proofs.Pool.Tending — a running pool has one upkeep, and no other pool has any.

Where calls come in turn, the upkeep that a start begins goes on until a stop or a release
tells it to end: its token is live till then, for nobody else cancels it, and nothing but its
token ends a watcher or, where no listener panics while it is made, a forwarder. An upkeep
that was told to end is awaited by the call that told it, so it is over when that call has
returned, and the next start comes after that (`Pool.Tended`).

  §1 Tokens of upkeep
  §2 The invariant
  §3 How many watchers and forwarders there are
-/
import JobPool.Pool.Phases
import JobPool.Proofs.Pool.Returning

namespace JobPool

open Pool (Change Changes Deed)

/-! ## §1 Tokens of upkeep -/

namespace Pool

/-- Nothing but a stop, or the root, cancels the token of an upkeep. -/
theorem Regular.spared_of_change {p q : Pool} {d : Option Deed} (h : p.Regular)
    (change : Change p d q) (unstopped : d ≠ some .stopBegan) {t : TokenId}
    (own : t ∈ p.upkeeps.map (·.token)) (live : q.tokens.root = false) :
    q.tokens.isCancelled t = p.tokens.isCancelled t := by
  have parts := List.nodup_append.1 h.apportioned.nodup
  refine Pool.spared_of_change change ?_ (fun w k worker => ?_) (fun stops => ?_)
    (fun i _ _ a makes => ?_) live
  · exact h.apportioned.handedOut _ (List.mem_append_right _ (List.mem_append_left _ own))
  · obtain ⟨l, hl, same⟩ := h.apportioned.workers w k worker
    rw [← same]
    exact parts.2.2 _ (List.mem_map_of_mem hl) _ (List.mem_append_left _ own)
  · exact absurd stops unstopped
  · obtain ⟨b, hb, same⟩ := h.unhindered.begun i a makes
    rw [← same]
    exact ((List.nodup_append.1 parts.2.1).2.2 _ own _ (List.mem_map_of_mem hb)).symm

theorem mem_tokens_of_change {p q : Pool} {d : Option Deed} (change : Change p d q) {t : TokenId}
    (own : t ∈ p.upkeeps.map (·.token)) : t ∈ q.upkeeps.map (·.token) := by
  obtain ⟨k, hk, rfl⟩ := List.mem_map.1 own
  obtain ⟨u, found⟩ := List.mem_iff_getElem?.1 hk
  obtain ⟨k', found', token⟩ := upkeep_of_change change found
  exact token ▸ List.mem_map_of_mem (List.mem_of_getElem? found')

theorem Regular.spared_of_changes {p q : Pool} {ds : List Deed} (h : p.Regular)
    (changes : Changes p ds q) (unstopped : .stopBegan ∉ ds) {t : TokenId}
    (own : t ∈ p.upkeeps.map (·.token)) (live : q.tokens.root = false) :
    q.tokens.isCancelled t = p.tokens.isCancelled t := by
  obtain ⟨-, -, spared⟩ := changes.keeps
    (P := fun r => r.Regular ∧ t ∈ r.upkeeps.map (·.token) ∧
      (r.tokens.root = false → r.tokens.isCancelled t = p.tokens.isCancelled t))
    ⟨h, own, fun _ => rfl⟩ fun {r r' d} change among ⟨regular, own, spared⟩ => by
      refine ⟨regular.of_change change, mem_tokens_of_change change own, fun live => ?_⟩
      have live' : r.tokens.root = false := by
        rw [Bool.eq_false_iff]
        intro root
        rw [(before_of_change change).root_of_root root] at live
        cases live
      have one :=
        regular.spared_of_change change (fun stops => unstopped (among _ stops)) own live
      exact one.trans (spared live')
  exact spared live

end Pool

/-- Only a stop does the deed of a stop. -/
theorem Site.beginStop_of_may {s : Site} {m : Move} (may : s.May m .stopBegan) :
    m = .beginStop := by
  cases m with
  | task t =>
    cases t with
    | loop i => cases may.1
    | call c => cases may
    | _ => exact may.elim
  | beginStop => rfl
  | start => cases may
  | beginRelease => cases may
  | _ => exact may.elim

/-- A move that is no stop leaves the tokens of upkeep alone, unless the root is cancelled. -/
theorem Site.spared_of_move {s s' : Site} {m : Move} (h : s.pool.Regular)
    (moved : s.move m = some s') (other : m ≠ .beginStop) {t : TokenId}
    (own : t ∈ s.pool.upkeeps.map (·.token)) (live : s'.pool.tokens.root = false) :
    s'.pool.tokens.isCancelled t = s.pool.tokens.isCancelled t := by
  obtain ⟨ds, does⟩ := changes_of_move moved
  refine h.spared_of_changes does.changes (fun stops => other ?_) own live
  exact beginStop_of_may (does.may _ stops)

/-! ## §2 The invariant -/

/-- The call waits for an upkeep. -/
def Call.awaits (u : UpkeepId) : Call → Bool
  | .stopping v | .releasing v => v == some u
  | .draining _ | .returned => false

/-- An upkeep goes on: it was not told to end, and neither watcher nor forwarder did. -/
structure Upkeep.Lives (tokens : Tokens) (k : Upkeep) : Prop where
  token : tokens.isCancelled k.token = false
  watcher : k.watcher.stepsLeft ≠ 0
  forwarder : k.forwarder.stepsLeft ≠ 0

namespace Pool

/-- The upkeep is over, or a call waits for that. -/
def Awaited (p : Pool) (u : UpkeepId) (k : Upkeep) : Prop :=
  k.isOver = true ∨ ∃ call ∈ p.calls, call.awaits u = true

/-- A pool has upkeep that goes on while it runs. All other upkeep was told to end. -/
structure Tended (p : Pool) : Prop where
  held : p.held = true
  root : p.tokens.root = true → p.status = .released
  settled : p.status = .running → p.isSettled = true
  idle : p.status ≠ .running → p.current = none
  runs : p.status = .running → ∃ u k, p.current = some u ∧ p.upkeeps[u]? = some k ∧
    k.Lives p.tokens
  others : ∀ (u : UpkeepId) (k : Upkeep), p.upkeeps[u]? = some k → p.current ≠ some u →
    p.Awaited u k

theorem tended_create (name : String) (settings : Settings) : (create name settings).Tended where
  held := rfl
  root root := by cases root
  settled _ := rfl
  idle _ := rfl
  runs running := by cases running
  others _ _ found := by cases found

theorem eq_returned_of_isSettled {p : Pool} (settled : p.isSettled = true) {call : Call}
    (mem : call ∈ p.calls) : call = .returned :=
  eq_of_beq (List.all_eq_true.1 settled call mem)

/-- Where all calls have returned, an upkeep that was awaited is over. -/
theorem Awaited.isOver {p : Pool} {u : UpkeepId} {k : Upkeep} (h : p.Awaited u k)
    (settled : p.isSettled = true) : k.isOver = true := by
  refine h.resolve_right ?_
  rintro ⟨call, mem, awaits⟩
  rw [eq_returned_of_isSettled settled mem] at awaits
  cases awaits

/-- While a pool runs, its root is not cancelled. -/
theorem Tended.live {p : Pool} (h : p.Tended) (running : p.status = .running) :
    p.tokens.root = false := by
  rw [Bool.eq_false_iff]
  intro root
  rw [h.root root] at running
  cases running

/-- Only the frame of a pool and the tokens of its upkeep matter. -/
theorem Tended.of_frame {p q : Pool} (h : p.Tended) (frame : q.frame = p.frame)
    (spared : p.status = .running → ∀ t ∈ p.upkeeps.map (·.token),
      q.tokens.isCancelled t = p.tokens.isCancelled t) : q.Tended := by
  have status : q.status = p.status := (congrArg Pool.status frame :)
  have calls : q.calls = p.calls := (congrArg Pool.calls frame :)
  have current : q.current = p.current := (congrArg Pool.current frame :)
  have upkeeps : q.upkeeps = p.upkeeps := (congrArg Pool.upkeeps frame :)
  refine ⟨?_, fun root => ?_, ?_, ?_, fun running => ?_, fun u k found other => ?_⟩
  · exact (congrArg Pool.held frame :).trans h.held
  · rw [status]
    exact h.root ((congrArg (·.tokens.root) frame :).symm.trans root)
  · rw [isSettled, calls, status]
    exact h.settled
  · rw [current, status]
    exact h.idle
  · obtain ⟨u, k, is_current, found, goes⟩ := h.runs (status ▸ running)
    refine ⟨u, k, current.trans is_current, upkeeps ▸ found, ?_, goes.watcher, goes.forwarder⟩
    have own := List.mem_map_of_mem (f := (·.token)) (List.mem_of_getElem? found)
    exact (spared (status ▸ running) _ own).trans goes.token
  · rw [Awaited, calls]
    exact h.others u k (upkeeps ▸ found) (current ▸ other)

/-- An upkeep that is not over takes a step. -/
theorem Tended.modifyUpkeep {p : Pool} (h : p.Tended) {u : UpkeepId} {k : Upkeep}
    {f : Upkeep → Upkeep} (found : p.upkeeps[u]? = some k) (unfinished : k.isOver = false)
    (lives : k.Lives p.tokens → (f k).Lives p.tokens) : (p.modifyUpkeep u f).Tended := by
  have upkeeps : ∀ v, (p.modifyUpkeep u f).upkeeps[v]? =
      (p.upkeeps[v]?).map fun k' => if u = v then f k' else k' := fun v => List.getElem?_modify ..
  refine ⟨h.held, h.root, h.settled, h.idle, fun running => ?_, fun v k' found' other => ?_⟩
  · obtain ⟨v, k', is_current, found', goes⟩ := h.runs running
    refine ⟨v, if u = v then f k' else k', is_current, ?_, ?_⟩
    · rw [upkeeps, found']
      rfl
    · split
      · rename_i own
        subst own
        obtain rfl := Option.some.inj (found.symm.trans found')
        exact lives goes
      · exact goes
  · rw [upkeeps] at found'
    obtain ⟨k₀, found₀, rfl⟩ := Option.map_eq_some_iff.1 found'
    have before := h.others v k₀ found₀ other
    split
    · rename_i own
      subst own
      obtain rfl := Option.some.inj (found.symm.trans found₀)
      rw [Awaited, unfinished] at before
      exact .inr (before.resolve_left Bool.false_ne_true)
    · exact before

/-- A call goes on: the upkeep that it waited for is over. -/
theorem Tended.setCall {p : Pool} (h : p.Tended) {c : CallId} {call call' : Call}
    (found : p.calls[c]? = some call) (goes : call.Goes p call') : (p.setCall c call').Tended := by
  -- a running pool has no call that could go on
  have rests : p.status ≠ .running := by
    intro running
    have returned := eq_returned_of_isSettled (h.settled running) (List.mem_of_getElem? found)
    rw [returned] at goes
    cases goes
  refine ⟨h.held, h.root, fun running => absurd running rests, h.idle,
    fun running => absurd running rests, fun u k there other => ?_⟩
  rcases h.others u k there other with ended | ⟨call₀, mem, awaits⟩
  · exact .inl ended
  · obtain ⟨j, at_j⟩ := List.mem_iff_getElem?.1 mem
    by_cases own : c = j
    · subst own
      obtain rfl := Option.some.inj (found.symm.trans at_j)
      have ends : ∀ {v : Option UpkeepId}, p.upkeepIsOver v = true → (v == some u) = true →
          k.isOver = true := by
        intro v ended same
        rw [eq_of_beq same, upkeepIsOver, Option.bind_some,
          show p.upkeeps[u]? = some k from there] at ended
        exact ended
      cases goes with
      | halts ended => exact .inl (ends ended awaits)
      | drains _ ended => exact .inl (ends ended awaits)
      | returns _ => cases awaits
    · exact .inr ⟨call₀, List.mem_of_getElem? ((List.getElem?_set_ne own).trans at_j), awaits⟩

/-- A start begins an upkeep; that of earlier starts is over. -/
theorem Tended.started {p : Pool} (h : p.Tended) (wall : Nat)
    (ready : p.status = .pending ∨ p.status = .stopped) (settled : p.isSettled = true) :
    (p.started wall).Tended := by
  have rests : p.status ≠ .running := by
    rcases ready with ready | ready <;> simp [ready]
  have live : p.tokens.root = false := by
    rw [Bool.eq_false_iff]
    intro root
    simp [h.root root] at ready
  refine ⟨h.held, fun root => ?_, fun _ => settled, fun unstarted => absurd rfl unstarted,
    fun _ => ?_, fun u k found other => ?_⟩
  · exact absurd (live.symm.trans root) Bool.false_ne_true
  · refine ⟨_, _, rfl, List.getElem?_concat_length, ?_, ?_, ?_⟩
    · exact p.tokens.isCancelled_child.trans live
    · exact Nat.succ_ne_zero 1
    · exact Nat.succ_ne_zero 1
  · have found : (p.upkeeps ++ [{ token := p.tokens.child.1 }])[u]? = some k := found
    rw [List.getElem?_append] at found
    split at found
    · exact h.others u k found (by simp [h.idle rests])
    · rename_i beyond
      have last := (List.getElem?_eq_some_iff.1 found).1
      rw [List.length_singleton, Nat.lt_one_iff, Nat.sub_eq_zero_iff_le] at last
      have own : p.upkeeps.length = u := Nat.le_antisymm (Nat.le_of_not_lt beyond) last
      exact absurd (congrArg some own) other

/-- A stop or a release takes effect, and its call waits for the upkeep that went on. -/
theorem Tended.dismiss {p : Pool} (h : p.Tended) {status : Pool.Status} {stoppedAt : Option Nat}
    {tokens : Tokens} {call : Call} (rests : status ≠ .running)
    (root : tokens.root = true → status = .released)
    (awaits : ∀ u, p.current = some u → call.awaits u = true) :
    ({ p with status, stoppedAt, tokens, current := none, calls := p.calls ++ [call] } :
      Pool).Tended := by
  refine ⟨h.held, root, fun running => absurd running rests, fun _ => rfl,
    fun running => absurd running rests, fun u k found _ => ?_⟩
  by_cases own : p.current = some u
  · exact .inr ⟨call, by simp, awaits u own⟩
  · refine (h.others u k found own).imp_right ?_
    rintro ⟨call', mem, awaits'⟩
    exact ⟨call', List.mem_append_left _ mem, awaits'⟩

/-- A watcher whose token is live goes on while somebody can reach the pool. -/
theorem Tended.lives_of_watches {s : Site} {k : Upkeep} {watcher : Watcher} (h : s.pool.Tended)
    (watches : s.Watches k watcher) (lives : k.Lives s.pool.tokens) :
    ({ k with watcher } : Upkeep).Lives s.pool.tokens where
  token := lives.token
  watcher left := by
    rcases watches.ends (Watcher.stepsLeft_eq_zero.1 left) with told | unheld
    · rw [lives.token] at told
      cases told
    · rw [h.held] at unheld
      cases unheld
  forwarder := lives.forwarder

/-- So does a forwarder where no listener panics while it is made. -/
theorem lives_of_forwards {s : Site} {u : UpkeepId} {k : Upkeep} {forwarder : Forwarder}
    (forwards : s.Forwards u k forwarder) (calm : s.Calm (.task (.forwarder u)))
    (lives : k.Lives s.pool.tokens) : ({ k with forwarder } : Upkeep).Lives s.pool.tokens where
  token := lives.token
  watcher := lives.watcher
  forwarder left := by
    rcases Forwarder.stepsLeft_eq_zero.1 left with ended | crashed
    · have told := forwards.ends ended
      rw [lives.token] at told
      cases told
    · exact forwards.crashes crashed calm

theorem Tended.of_move {s s' : Site} {m : Move} (h : s.pool.Tended) (regular : s.pool.Regular)
    (moved : s.move m = some s') (inTurn : s.InTurn m) (calm : s.Calm m) : s'.pool.Tended := by
  have spared : ∀ {p : Pool}, s'.pool.frame = p.frame → p.tokens = s.pool.tokens →
      p.upkeeps.map (·.token) = s.pool.upkeeps.map (·.token) → m ≠ .beginStop →
      s.pool.status = .running → ∀ t ∈ p.upkeeps.map (·.token),
        s'.pool.tokens.isCancelled t = p.tokens.isCancelled t := by
    intro p frame tokens uses other running t own
    rw [tokens]
    refine Site.spared_of_move regular moved other (uses ▸ own) ?_
    rw [show s'.pool.tokens.root = p.tokens.root from (congrArg (·.tokens.root) frame :), tokens]
    exact h.live running
  cases Site.tends_of_move moved with
  | spares free frame =>
    refine h.of_frame frame (spared frame rfl rfl ?_)
    rintro rfl
    cases free
  | refuses _ _ => exact h
  | @watches t s' u k watcher own found watches frame =>
    have unfinished : k.isOver = false := by simp [Upkeep.isOver, watches.lively]
    refine (h.modifyUpkeep found unfinished (h.lives_of_watches watches)).of_frame frame
      (spared frame rfl ?_ (by simp))
    exact map_modify_of_same (f := fun k : Upkeep => { k with watcher }) (fun _ => rfl) ..
  | @forwards s' u k forwarder found forwards frame =>
    have unfinished : k.isOver = false := by
      rw [Bool.eq_false_iff]
      intro ended
      have left := Upkeep.isOver_iff.1 ended
      exact forwards.lively (Nat.eq_zero_of_add_eq_zero_left left)
    refine (h.modifyUpkeep found unfinished (lives_of_forwards forwards calm)).of_frame frame
      (spared frame rfl ?_ (by simp))
    exact map_modify_of_same (f := fun k : Upkeep => { k with forwarder }) (fun _ => rfl) ..
  | goesOn found goes frame =>
    exact (h.setCall found goes).of_frame frame (spared frame rfl rfl (by simp))
  | starts ready frame grows =>
    have started := regular.of_change (.aside (.start s.wall ready))
    refine (h.started s.wall ready inTurn).of_frame frame fun running t own => ?_
    refine started.spared_of_changes grows List.not_mem_nil own ?_
    exact (congrArg (·.tokens.root) frame :).trans ((h.started s.wall ready inTurn).live running)
  | stops running frame =>
    refine (h.dismiss (by simp) (fun root => ?_)
      fun u current => by simp [Call.awaits, current]).of_frame frame (by simp)
    rw [h.live running] at root
    cases root
  | releases unreleased frame =>
    exact (h.dismiss (by simp) (fun _ => rfl)
      fun u current => by simp [Call.awaits, current]).of_frame frame (by simp)
  | abandons _ => exact inTurn.elim

end Pool

theorem Path.tended {start s : Site} {ms : List (Site × Move)} (path : Path start ms s)
    (regular : start.pool.Regular) (tended : start.pool.Tended)
    (inTurn : ∀ x ∈ ms, x.1.InTurn x.2) (calm : ∀ x ∈ ms, x.1.Calm x.2) : s.pool.Tended := by
  induction path with
  | here => exact tended
  | @step s s' ms m path moved ih =>
    have last : (s, m) ∈ ms ++ [(s, m)] := by simp
    have earlier := ih (fun x hx => inTurn x (List.mem_append_left _ hx))
      fun x hx => calm x (List.mem_append_left _ hx)
    exact earlier.of_move (path.regular regular) moved (inTurn _ last) (calm _ last)

/-! ## §3 How many watchers and forwarders there are -/

theorem countP_eq_one_of_only {α : Type} {f : α → Bool} {a : α} : ∀ {xs : List α} {i : Nat},
    xs[i]? = some a → f a = true → (∀ j b, xs[j]? = some b → i ≠ j → f b = false) →
      xs.countP f = 1
  | [], _, found, _, _ => by simp at found
  | x :: xs, 0, found, own, others => by
    obtain rfl : x = a := by simpa using found
    have rest : xs.countP f = 0 := by
      rw [List.countP_eq_zero]
      intro b hb
      obtain ⟨j, at_j⟩ := List.mem_iff_getElem?.1 hb
      simp [others (j + 1) b at_j (Nat.succ_ne_zero j).symm]
    rw [List.countP_cons_of_pos own, rest]
  | x :: xs, i + 1, found, own, others => by
    have first : f x = false := others 0 x rfl (Nat.succ_ne_zero i)
    rw [List.countP_cons_of_neg (by simp [first])]
    exact countP_eq_one_of_only found own fun j b at_j differ =>
      others (j + 1) b at_j fun same => differ (Nat.succ.inj same)

namespace Pool

/-- An upkeep that is over has neither watcher nor forwarder. -/
theorem uncounted_of_isOver {k : Upkeep} (ended : k.isOver = true) :
    (k.watcher != .ended) = false ∧
      (!(k.forwarder == .ended || k.forwarder == .crashed)) = false := by
  simp only [Upkeep.isOver, Bool.and_eq_true, beq_iff_eq] at ended
  constructor
  · simp [ended.1]
  · rw [ended.2]
    rfl

/-- While the pool runs it has one watcher and one forwarder. -/
theorem Tended.one_each {p : Pool} (h : p.Tended) (running : p.status = .running) :
    p.watchers = 1 ∧ p.forwarders = 1 := by
  obtain ⟨u, k, current, found, lives⟩ := h.runs running
  have others : ∀ (v : UpkeepId) (k' : Upkeep), p.upkeeps[v]? = some k' → u ≠ v →
      k'.isOver = true := by
    intro v k' found' differ
    refine (h.others v k' found' ?_).isOver (h.settled running)
    rw [current]
    exact fun same => differ (Option.some.inj same)
  constructor
  · refine countP_eq_one_of_only found ?_ fun v k' found' differ =>
      (uncounted_of_isOver (others v k' found' differ)).1
    exact bne_iff_ne.2 fun ended => lives.watcher (Watcher.stepsLeft_eq_zero.2 ended)
  · refine countP_eq_one_of_only found ?_ fun v k' found' differ =>
      (uncounted_of_isOver (others v k' found' differ)).2
    have goes := fun ended => lives.forwarder (Forwarder.stepsLeft_eq_zero.2 ended)
    simpa using goes

/-- While it does not, and all calls have returned, it has none. -/
theorem Tended.none_left {p : Pool} (h : p.Tended) (rests : p.status ≠ .running)
    (settled : p.isSettled = true) : p.watchers = 0 ∧ p.forwarders = 0 := by
  have all_over : ∀ k ∈ p.upkeeps, k.isOver = true := by
    intro k hk
    obtain ⟨u, found⟩ := List.mem_iff_getElem?.1 hk
    exact (h.others u k found (by simp [h.idle rests])).isOver settled
  constructor
  · refine List.countP_eq_zero.2 fun k hk => ?_
    simp [(uncounted_of_isOver (all_over k hk)).1]
  · refine List.countP_eq_zero.2 fun k hk => ?_
    rw [(uncounted_of_isOver (all_over k hk)).2]
    exact Bool.false_ne_true

end Pool
end JobPool
