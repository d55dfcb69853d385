/-
JobPool.Proofs.Pool.Tokens — whose token is cancelled by what.

A pool hands out a token to each loop, to each stretch of upkeep and to each attempt,
and no token twice (`Apportioned`). Stopping a worker cancels the token of its loop, a
stop of the pool that of its upkeep, and an attempt that overruns its own; so, as long
as the root is not cancelled, an attempt that is being made has a live token
(`Unhindered`), whatever stops come in between.

  §1 What a turn does to tokens
  §2 Each token has one use
  §3 What is spared
  §4 Attempts that are being made
-/
import JobPool.Proofs.Pool.Story

namespace JobPool

open Pool (Change Changes Deed)

/-! ## §1 What a turn does to tokens -/

theorem Tokens.length_cancel (t : Tokens) (i : TokenId) :
    (t.cancel i).children.length = t.children.length := by
  simp [cancel]

theorem Tokens.length_child (t : Tokens) :
    t.child.2.children.length = t.children.length + 1 := by
  simp [child]

theorem Tokens.isCancelled_of_root (t : Tokens) (root : t.root = true) (i : TokenId) :
    t.isCancelled i = true := by
  rw [isCancelled, root, Bool.true_or]

/-- The end of an attempt cancels no token but its own. -/
theorem Underway.Ends.tokens {a : Underway} {tokens tokens' : Tokens} {now : Nat}
    {e : Option JobError} (h : a.Ends tokens now e tokens') :
    tokens'.children.length = tokens.children.length ∧ tokens'.root = tokens.root ∧
      ∀ i, a.token ≠ i → tokens'.isCancelled i = tokens.isCancelled i := by
  cases h with
  | byItself _ => exact ⟨rfl, rfl, fun _ _ => rfl⟩
  | overran _ => exact ⟨tokens.length_cancel _, rfl, fun _ => tokens.isCancelled_cancel_of_ne⟩

namespace Run

/-- The attempt that the run makes, if any. -/
def underway? (r : Run) : Option Underway :=
  match r.phase with
  | .attempting a => some a
  | _ => none

theorem underway?_eq_some {r : Run} {a : Underway} :
    r.underway? = some a ↔ r.phase = .attempting a := by
  cases phase : r.phase <;> simp [underway?, phase]

theorem Concluded.underway? {r r' : Run} {pick : Pick} {now : Nat} {e : Option JobError}
    {ev : Event} (h : Concluded r pick now e ev r') : r'.underway? = none := by
  cases h <;> rfl

theorem Turn.Concludes.underway? {r : Run} {pick : Pick} {now : Nat} {e : Option JobError}
    {t : Turn} (h : t.Concludes r pick now e) : t.next.underway? = none :=
  h.choose_spec.2.underway?

/-- What a turn does to tokens: at most one is handed out, to an attempt that begins; none of
the others is cancelled but that of the attempt that ends; and what is being made after the
turn has just begun. -/
structure Turn.Spares (r : Run) (tokens : Tokens) (t : Turn) : Prop where
  begun : (t.begun = none ∧ t.tokens.children.length = tokens.children.length) ∨
    ∃ b, t.begun = some b ∧ b.token = tokens.children.length ∧
      t.tokens.children.length = tokens.children.length + 1
  others : ∀ i, i < tokens.children.length → (∀ a ∈ r.underway?, a.token ≠ i) →
    t.tokens.isCancelled i = tokens.isCancelled i
  root : t.tokens.root = tokens.root
  underway : ∀ a ∈ t.next.underway?, t.tokens = tokens.child.2 ∧
    ∃ b, t.begun = some b ∧ a.token = b.token

theorem Turned.spares {r : Run} {picks : Picks} {now : Nat} {tokens : Tokens} {t : Turn}
    (h : Turned r picks now tokens t) : t.Spares r tokens := by
  have idle : ∀ {next : Option Underway} {P : Underway → Prop}, next = none → ∀ a ∈ next, P a := by
    rintro next P rfl a ⟨⟩
  cases h with
  | announced _ same begun _ next =>
    refine ⟨.inl ⟨begun, by rw [same]⟩, fun _ _ _ => by rw [same], by rw [same], idle ?_⟩
    rw [next]
    rfl
  | woken _ _ same begun _ next =>
    refine ⟨.inl ⟨begun, by rw [same]⟩, fun _ _ _ => by rw [same], by rw [same], idle ?_⟩
    rw [next]
    rfl
  | expired _ _ same begun concludes =>
    exact ⟨.inl ⟨begun, by rw [same]⟩, fun _ _ _ => by rw [same], by rw [same],
      idle concludes.underway?⟩
  | begun _ _ _ _ same begun _ next =>
    refine ⟨.inr ⟨_, begun, rfl, ?_⟩, fun i lt _ => ?_, by rw [same]; rfl, fun a underway => ?_⟩
    · rw [same, tokens.length_child]
    · rw [same, tokens.isCancelled_child_of_lt lt]
    · rw [next] at underway
      obtain rfl := Option.some.inj underway
      exact ⟨same, _, begun, rfl⟩
  | stillborn _ _ _ same begun concludes =>
    refine ⟨.inr ⟨_, begun, rfl, ?_⟩, fun i lt _ => ?_, by rw [same]; rfl, idle concludes.underway?⟩
    · rw [same, tokens.length_child]
    · rw [same, tokens.isCancelled_child_of_lt lt]
  | «instant» _ _ _ ends begun concludes =>
    obtain ⟨length, root, others⟩ := ends.tokens
    refine ⟨.inr ⟨_, begun, rfl, length.trans tokens.length_child⟩, fun i lt _ => ?_, ?_,
      idle concludes.underway?⟩
    · exact (others i (Nat.ne_of_gt lt)).trans (tokens.isCancelled_child_of_lt lt)
    · exact root
  | ended phase ends begun concludes =>
    obtain ⟨length, root, others⟩ := ends.tokens
    refine ⟨.inl ⟨begun, length⟩, fun i _ apart => ?_, root, idle concludes.underway?⟩
    exact others i (apart _ (underway?_eq_some.2 phase))

end Run

namespace Pool

/-! ## §2 Each token has one use -/

/-- The tokens of loops, of upkeep, and of attempts. -/
def inUse (p : Pool) : List TokenId :=
  p.loops.map (·.token) ++ (p.upkeeps.map (·.token) ++ p.begun.map (·.token))

/-- No token has two uses, and a worker has the token of a loop. -/
structure Apportioned (p : Pool) : Prop where
  nodup : p.inUse.Nodup
  handedOut : ∀ t ∈ p.inUse, t < p.tokens.children.length
  workers : ∀ (w : WorkerId) (k : Worker), p.workers[w]? = some k → ∃ l ∈ p.loops, l.token = k.token

/-- Uses stay, and no worker gets a token of its own. -/
theorem Apportioned.of_same {p q : Pool} (h : p.Apportioned)
    (loops : q.loops.map (·.token) = p.loops.map (·.token))
    (upkeeps : q.upkeeps.map (·.token) = p.upkeeps.map (·.token))
    (begun : q.begun.map (·.token) = p.begun.map (·.token)) (tokens : p.tokens.Before q.tokens)
    (workers : ∀ (w : WorkerId) (k' : Worker), q.workers[w]? = some k' →
      ∃ k, p.workers[w]? = some k ∧ k'.token = k.token) : q.Apportioned := by
  have same : q.inUse = p.inUse := by rw [inUse, loops, upkeeps, begun, inUse]
  refine ⟨same ▸ h.nodup, fun t ht => ?_, fun w k' found' => ?_⟩
  · exact Nat.lt_of_lt_of_le (h.handedOut t (same ▸ ht)) tokens.length_le
  · obtain ⟨k, found, token⟩ := workers w k' found'
    obtain ⟨l, hl, same⟩ := h.workers w k found
    have hl' : l.token ∈ q.loops.map (·.token) := loops ▸ List.mem_map_of_mem hl
    obtain ⟨l', hl', same'⟩ := List.mem_map.1 hl'
    exact ⟨l', hl', by rw [same', same, token]⟩

/-- The next token comes into use. -/
theorem Apportioned.of_new {p q : Pool} (h : p.Apportioned)
    (uses : q.inUse.Perm (p.tokens.children.length :: p.inUse))
    (length : q.tokens.children.length = p.tokens.children.length + 1)
    (workers : ∀ (w : WorkerId) (k' : Worker), q.workers[w]? = some k' →
      ∃ l ∈ q.loops, l.token = k'.token) : q.Apportioned := by
  refine ⟨?_, fun t ht => ?_, workers⟩
  · rw [uses.nodup_iff]
    exact List.nodup_cons.2 ⟨fun hs => Nat.lt_irrefl _ (h.handedOut _ hs), h.nodup⟩
  · rw [length]
    rcases List.mem_cons.1 (uses.mem_iff.1 ht) with rfl | ht
    · exact Nat.lt_succ_self _
    · exact Nat.lt_succ_of_lt (h.handedOut t ht)

theorem map_modify_of_same {α β : Type} {f : α → α} {g : α → β} (same : ∀ a, g (f a) = g a)
    (xs : List α) (i : Nat) : (xs.modify i f).map g = xs.map g := by
  refine List.ext_getElem? fun j => ?_
  rw [List.getElem?_map, List.getElem?_modify, List.getElem?_map]
  by_cases hj : i = j <;> cases xs[j]? <;> simp [hj, same]

theorem map_token_setPhase (p : Pool) (i : LoopId) (phase : Loop.Phase) :
    (p.setPhase i phase).loops.map (·.token) = p.loops.map (·.token) :=
  map_modify_of_same (f := fun l : Loop => { l with phase }) (g := (·.token)) (fun _ => rfl) ..

/-- Workers that are asked for something keep their tokens. -/
theorem Asked.token {f : Worker → Worker} {p q : Pool} {ws : List WorkerId} (asked : Asked f p ws q)
    (token : ∀ k, (f k).token = k.token) (w : WorkerId) (k' : Worker)
    (found' : q.workers[w]? = some k') : ∃ k, p.workers[w]? = some k ∧ k'.token = k.token := by
  rw [asked.workers] at found'
  obtain ⟨k, found, rfl⟩ := Option.map_eq_some_iff.1 found'
  refine ⟨k, found, ?_⟩
  split
  · exact token k
  · rfl

theorem token_modifyWorker {p : Pool} {w : WorkerId} {f : Worker → Worker}
    (token : ∀ k, (f k).token = k.token) (v : WorkerId) (k' : Worker)
    (found' : (p.modifyWorker w f).workers[v]? = some k') :
    ∃ k, p.workers[v]? = some k ∧ k'.token = k.token := by
  rw [workers_modifyWorker] at found'
  obtain ⟨k, found, rfl⟩ := Option.map_eq_some_iff.1 found'
  refine ⟨k, found, ?_⟩
  split
  · exact token k
  · rfl

/-- A loop and its worker change, and no token with them. -/
theorem Apportioned.exchange {p : Pool} (h : p.Apportioned) (w : WorkerId) {f : Worker → Worker}
    (token : ∀ k, (f k).token = k.token) (i : LoopId) (phase : Loop.Phase) :
    ((p.modifyWorker w f).setPhase i phase).Apportioned :=
  h.of_same ((p.modifyWorker w f).map_token_setPhase i phase) rfl rfl (.refl _)
    (token_modifyWorker token)

theorem Apportioned.setPhase {p : Pool} (h : p.Apportioned) (i : LoopId) (phase : Loop.Phase) :
    (p.setPhase i phase).Apportioned :=
  h.of_same (p.map_token_setPhase i phase) rfl rfl (.refl _) fun _ k found => ⟨k, found, rfl⟩

/-- A worker starts, new or again, with a new loop. -/
theorem Apportioned.start {p q : Pool} (h : p.Apportioned) {l : Loop}
    (loops : q.loops = p.loops ++ [l]) (token : l.token = p.tokens.child.1)
    (upkeeps : q.upkeeps = p.upkeeps) (begun : q.begun = p.begun)
    (tokens : q.tokens = p.tokens.child.2)
    (workers : ∀ (w : WorkerId) (k : Worker), q.workers[w]? = some k →
      k.token = p.tokens.child.1 ∨ p.workers[w]? = some k) : q.Apportioned := by
  refine h.of_new ?_ (tokens ▸ p.tokens.length_child) fun w k found => ?_
  · rw [inUse, loops, upkeeps, begun, List.map_append, List.append_assoc, List.map_singleton, token]
    exact List.perm_middle
  · rw [loops]
    rcases workers w k found with new | old
    · exact ⟨l, by simp, token.trans new.symm⟩
    · obtain ⟨l', hl', same⟩ := h.workers w k old
      exact ⟨l', List.mem_append_left _ hl', same⟩

theorem Apportioned.afterTurn {p : Pool} (h : p.Apportioned) {i : LoopId} {r : Run} {t : Run.Turn}
    (spares : t.Spares r p.tokens) (before : p.tokens.Before t.tokens) (run : Run) :
    (p.afterTurn i t run).Apportioned := by
  have loops : (p.afterTurn i t run).loops.map (·.token) = p.loops.map (·.token) :=
    p.map_token_setPhase i (.running run)
  rcases spares.begun with ⟨none_begun, -⟩ | ⟨b, begun, token, length⟩
  · refine h.of_same loops rfl ?_ before fun _ k found => ⟨k, found, rfl⟩
    simp [Pool.afterTurn, none_begun]
  · refine h.of_new ?_ length fun w k found => ?_
    · have uses : (p.afterTurn i t run).inUse = p.inUse ++ [p.tokens.children.length] := by
        rw [inUse, loops]
        simp only [inUse, Pool.afterTurn, begun, Option.toList_some, List.map_append,
          List.map_singleton, token, List.append_assoc]
      rw [uses]
      exact List.perm_append_singleton ..
    · obtain ⟨l, hl, same⟩ := h.workers w k found
      have hl : l.token ∈ (p.afterTurn i t run).loops.map (·.token) :=
        loops ▸ List.mem_map_of_mem hl
      obtain ⟨l', hl', same'⟩ := List.mem_map.1 hl
      exact ⟨l', hl', same'.trans same⟩

theorem Apportioned.aside {p q : Pool} {d : Option Deed} (h : p.Apportioned) (aside : Aside p d q) :
    q.Apportioned := by
  have beside := aside.beside
  have kept : q.upkeeps.map (·.token) = p.upkeeps.map (·.token) →
      q.begun.map (·.token) = p.begun.map (·.token) → q.Apportioned := fun upkeeps begun =>
    h.of_same (congrArg _ beside.loops) upkeeps begun beside.tokens fun w k found =>
      ⟨k, beside.workers ▸ found, rfl⟩
  cases aside with
  | upkeep u token => exact kept (map_modify_of_same token ..) rfl
  | abandon => exact kept rfl rfl
  | start wall ready =>
    refine h.of_new ?_ p.tokens.length_child h.workers
    have uses : ∀ n, p.loops.map (·.token) ++ ((p.upkeeps.map (·.token) ++ [n]) ++
        p.begun.map (·.token)) = (p.loops.map (·.token) ++ p.upkeeps.map (·.token)) ++
          n :: p.begun.map (·.token) := fun n => by
      simp only [List.append_assoc, List.singleton_append]
    simp only [inUse, List.map_append, List.map_singleton, uses]
    rw [← List.append_assoc]
    exact List.perm_middle
  | beginStop _ _ => exact kept rfl rfl
  | beginRelease _ _ => exact kept rfl rfl
  | releaseReturns _ _ => exact kept rfl rfl

theorem Apportioned.of_change {p q : Pool} {d : Option Deed} (h : p.Apportioned)
    (change : Change p d q) : q.Apportioned := by
  -- asking workers for something changes neither the loops nor the uses of tokens
  have asked : ∀ {f : Worker → Worker} {q : Pool}, Asked f p p.registry q →
      (∀ k, (f k).token = k.token) → ∀ (registry : List WorkerId) (calls : List Call),
      ({ q with registry, calls } : Pool).Apportioned := by
    intro f q asked token registry calls
    have loops := (congrArg Pool.loops asked.rest :)
    have upkeeps := (congrArg Pool.upkeeps asked.rest :)
    have begun := (congrArg Pool.begun asked.rest :)
    exact h.of_same (congrArg _ loops) (congrArg _ upkeeps) (congrArg _ begun) asked.before
      (asked.token token)
  cases change with
  | aside aside => exact h.aside aside
  | add wall _ _ =>
    refine h.start (l := ⟨p.workers.length, 0, p.tokens.child.1, .looking⟩) rfl rfl rfl rfl rfl ?_
    intro w k found
    rw [Pool.addWorker, List.getElem?_append] at found
    split at found
    · exact .inr found
    · obtain rfl := List.mem_singleton.1 (List.mem_of_getElem? found)
      exact .inl rfl
  | @restart w k wall _ _ _ _ _ =>
    refine h.start (l := ⟨w, k.generation + 1, p.tokens.child.1, .looking⟩) rfl rfl rfl rfl rfl ?_
    intro v k' found
    by_cases same : w = v
    · subst same
      obtain ⟨hw, -⟩ := List.getElem?_eq_some_iff.1 found
      rw [List.length_set] at hw
      rw [List.getElem?_set_self hw] at found
      obtain rfl := Option.some.inj found
      exact .inl rfl
    · rw [List.getElem?_set_ne same] at found
      exact .inr found
  | stop wall w =>
    have asked := p.asked_stopWorker wall w
    have rest := asked.rest
    refine h.of_same ?_ ?_ ?_ asked.before (asked.token (·.token_stop wall))
    all_goals rw [rest]
  | leave _ => exact h.of_same rfl rfl rfl (.refl _) (token_modifyWorker fun _ => rfl)
  | halt wall _ _ asked' =>
    exact asked asked' (·.token_stop wall) _ _
  | drain wall _ _ asked' _ => exact asked asked' (·.token_stop wall) _ _
  | notify =>
    refine h.of_same ?_ rfl rfl (.refl _) fun _ k found => ⟨k, found, rfl⟩
    simp only [notifyAll, List.map_map]
    exact List.map_congr_left fun l _ => (alike_notify l).token
  | park wake _ _ => exact h.setPhase ..
  | wake _ _ => exact h.setPhase ..
  | endLoop wall _ _ _ => exact h.exchange _ (·.token_markStopped _ wall) ..
  | take job now _ _ _ => exact h.exchange _ (f := (·.take)) (fun _ => rfl) ..
  | run _ _ turn =>
    have turned := Run.turned_of_turn turn
    exact h.afterTurn turned.spares turned.before _
  | cutShort _ _ turn =>
    have turned := Run.turned_of_turn turn
    exact h.afterTurn turned.spares turned.before _
  | crash _ _ _ => exact h.setPhase ..
  | finish wall _ _ _ _ => exact h.exchange _ (fun k => by unfold Worker.finish; split <;> rfl) ..
  | finishLate wall _ _ _ _ => exact h.exchange _ (·.token_markStopped _ wall) ..

/-! ## §3 What is spared -/

/-- The attempt that a loop makes, if any. -/
def attemptAt (p : Pool) (i : LoopId) : Option Underway := (p.runAt i).bind (·.underway?)

/-- A token is cancelled only by the root, with a worker that has it, with the current upkeep by a
stop, or by the run that makes the attempt with it. -/
theorem spared_of_change {p q : Pool} {d : Option Deed} (change : Change p d q) {t : TokenId}
    (handedOut : t < p.tokens.children.length)
    (offWorkers : ∀ (w : WorkerId) (k : Worker), p.workers[w]? = some k → k.token ≠ t)
    (offUpkeep : d = some .stopBegan → ∀ u ∈ p.current.bind (p.upkeeps[·]?), u.token ≠ t)
    (offRuns : ∀ i x, d = some (.ran i x) ∨ d = some (.broke i x) →
      ∀ a ∈ p.attemptAt i, a.token ≠ t) (live : q.tokens.root = false) :
    q.tokens.isCancelled t = p.tokens.isCancelled t := by
  have turned : ∀ {i : LoopId} {l : Loop} {r : Run} {picks : Picks} {now : Nat} {x : Run.Turn},
      p.loops[i]? = some l → l.phase = .running r → r.turn picks now p.tokens = some x →
      (∀ a ∈ p.attemptAt i, a.token ≠ t) → x.tokens.isCancelled t = p.tokens.isCancelled t := by
    intro i l r picks now x found running turn apart
    have makes : p.attemptAt i = r.underway? := by
      rw [attemptAt, runAt_eq_some.2 ⟨l, found, running⟩, Option.bind_some]
    exact (Run.turned_of_turn turn).spares.others t handedOut (makes ▸ apart)
  cases change with
  | aside aside =>
    cases aside with
    | abandon => exact nomatch (live : true = false)
    | start wall ready => exact p.tokens.isCancelled_child_of_lt handedOut
    | beginStop stoppedAt running =>
      have offUpkeep := offUpkeep rfl
      unfold Site.endUpkeep
      simp only
      split
      · rename_i u found
        exact p.tokens.isCancelled_cancel_of_ne (offUpkeep u found)
      · rfl
    | beginRelease _ _ => exact nomatch (live : true = false)
    | _ => rfl
  | add wall _ _ => exact p.tokens.isCancelled_child_of_lt handedOut
  | restart wall _ _ _ _ _ => exact p.tokens.isCancelled_child_of_lt handedOut
  | stop wall w => exact (p.asked_stopWorker wall w).spared t offWorkers
  | halt wall _ _ asked => exact asked.spared t offWorkers
  | drain wall _ _ asked _ => exact asked.spared t offWorkers
  | run found running turn => exact turned found running turn (offRuns _ _ (.inl rfl))
  | cutShort found running turn => exact turned found running turn (offRuns _ _ (.inr rfl))
  | _ => rfl

/-- The attempt that was begun, if any. -/
def Deed.begun? : Deed → Option Begun
  | ran _ turn | broke _ turn => turn.begun
  | _ => none

/-- Attempts are begun only by turns of runs. -/
theorem begun_of_change {p q : Pool} {d : Option Deed} (change : Change p d q) :
    q.begun = p.begun ++ (d.bind (·.begun?)).toList := by
  cases change with
  | aside aside => cases aside <;> exact (List.append_nil _).symm
  | stop wall w =>
    exact (congrArg Pool.begun (p.asked_stopWorker wall w).rest :).trans (List.append_nil _).symm
  | halt wall _ _ asked =>
    exact (congrArg Pool.begun asked.rest :).trans (List.append_nil _).symm
  | drain wall _ _ asked _ =>
    exact (congrArg Pool.begun asked.rest :).trans (List.append_nil _).symm
  | run _ _ _ => rfl
  | cutShort _ _ _ => rfl
  | _ => exact (List.append_nil _).symm

/-- Nothing but a turn of its own run, or the root, cancels the token of an attempt. -/
theorem Apportioned.spared {p q : Pool} {d : Option Deed} (h : p.Apportioned)
    (change : Change p d q) (ran : ∀ i t, d ≠ some (.ran i t))
    (broke : ∀ i t, d ≠ some (.broke i t)) :
    q.begun = p.begun ∧ ∀ b ∈ p.begun, q.tokens.root = false →
      q.tokens.isCancelled b.token = p.tokens.isCancelled b.token := by
  have parts := List.nodup_append.1 h.nodup
  constructor
  · have none_begun : d.bind (·.begun?) = none := by
      rcases d with _ | d
      · rfl
      · cases d with
        | ran i t => exact absurd rfl (ran i t)
        | broke i t => exact absurd rfl (broke i t)
        | _ => rfl
    rw [begun_of_change change, none_begun]
    exact List.append_nil _
  · intro b hb
    have own : b.token ∈ p.begun.map (·.token) := List.mem_map_of_mem hb
    refine spared_of_change change ?_ (fun w k found => ?_) (fun _ u hu => ?_) (fun i t same => ?_)
    · exact h.handedOut _ (List.mem_append_right _ (List.mem_append_right _ own))
    · obtain ⟨l, hl, same⟩ := h.workers w k found
      rw [← same]
      exact parts.2.2 _ (List.mem_map_of_mem hl) _ (List.mem_append_right _ own)
    · obtain ⟨v, -, found⟩ := Option.bind_eq_some_iff.1 hu
      exact (List.nodup_append.1 parts.2.1).2.2 _
        (List.mem_map_of_mem (List.mem_of_getElem? found)) _ own
    · exact (same.elim (ran i t) (broke i t)).elim

/-! ## §4 Attempts that are being made -/

/-- Attempts that are being made have tokens of their own, which are live unless the root is
cancelled. -/
structure Unhindered (p : Pool) : Prop where
  begun : ∀ i a, p.attemptAt i = some a → ∃ b ∈ p.begun, b.token = a.token
  apart : ∀ i j a b, p.attemptAt i = some a → p.attemptAt j = some b → a.token = b.token → i = j
  live : p.tokens.root = false → ∀ i a, p.attemptAt i = some a →
    p.tokens.isCancelled a.token = false

/-- Attempts only end, and their tokens are spared. -/
theorem Unhindered.of_fewer {p q : Pool} (h : p.Unhindered) (begun : q.begun = p.begun)
    (spared : ∀ b ∈ p.begun, q.tokens.root = false →
      q.tokens.isCancelled b.token = p.tokens.isCancelled b.token)
    (tokens : p.tokens.Before q.tokens)
    (fewer : ∀ i a, q.attemptAt i = some a → p.attemptAt i = some a) : q.Unhindered := by
  refine ⟨fun i a makes => begun ▸ h.begun i a (fewer i a makes),
    fun i j a b makes makes' => h.apart i j a b (fewer i a makes) (fewer j b makes'),
    fun live i a makes => ?_⟩
  obtain ⟨b, hb, same⟩ := h.begun i a (fewer i a makes)
  rw [← same, spared b hb live, same]
  refine h.live (Bool.eq_false_iff.2 fun root => ?_) i a (fewer i a makes)
  rw [tokens.root_of_root root] at live
  cases live

/-- A loop takes a turn: what it makes then has just begun, with a new token. -/
theorem Unhindered.afterTurn {p : Pool} (h : p.Unhindered) (uses : p.Apportioned) {i : LoopId}
    {l : Loop} {r run : Run} {t : Run.Turn} (found : p.loops[i]? = some l)
    (running : l.phase = .running r) (spares : t.Spares r p.tokens)
    (makes : ∀ a ∈ run.underway?, a ∈ t.next.underway?) : (p.afterTurn i t run).Unhindered := by
  have own : p.attemptAt i = r.underway? := by
    rw [attemptAt, runAt_eq_some.2 ⟨l, found, running⟩, Option.bind_some]
  have after : ∀ j, (p.afterTurn i t run).attemptAt j =
      if i = j then run.underway? else p.attemptAt j := by
    intro j
    rw [attemptAt, runAt_setPhase (q := p.afterTurn i t run) (.running run) found rfl]
    split <;> rfl
  have handedOut : ∀ j a, p.attemptAt j = some a → a.token < p.tokens.children.length := by
    intro j a made
    obtain ⟨b, hb, same⟩ := h.begun j a made
    rw [← same]
    exact uses.handedOut _
      (List.mem_append_right _ (List.mem_append_right _ (List.mem_map_of_mem hb)))
  have fresh : ∀ a ∈ run.underway?, t.tokens = p.tokens.child.2 ∧
      a.token = p.tokens.children.length ∧ ∃ b ∈ t.begun, b.token = a.token := by
    intro a ha
    obtain ⟨same, b, begun, token⟩ := spares.underway a (makes a ha)
    refine ⟨same, ?_, b, begun, token.symm⟩
    rcases spares.begun with ⟨none_begun, -⟩ | ⟨b', begun', token', -⟩
    · rw [begun] at none_begun
      cases none_begun
    · obtain rfl := Option.some.inj (begun.symm.trans begun')
      exact token.trans token'
  refine ⟨fun j a made => ?_, fun j k a b madeA madeB same => ?_, fun live j a made => ?_⟩
  · rw [after] at made
    split at made
    · obtain ⟨-, -, b, begun, token⟩ := fresh a made
      exact ⟨b, List.mem_append_right _ (Option.mem_toList.2 begun), token⟩
    · obtain ⟨b, hb, same⟩ := h.begun j a made
      exact ⟨b, List.mem_append_left _ hb, same⟩
  · rw [after] at madeA madeB
    split at madeA <;> split at madeB
    · rename_i hj hk
      exact hj.symm.trans hk
    · exact absurd ((fresh a madeA).2.1.symm.trans same) (Nat.ne_of_gt (handedOut k b madeB))
    · exact absurd (same.trans (fresh b madeB).2.1) (Nat.ne_of_lt (handedOut j a madeA))
    · exact h.apart j k a b madeA madeB same
  · have root : p.tokens.root = false := spares.root.symm.trans live
    rw [after] at made
    split at made
    · obtain ⟨same, token, -⟩ := fresh a made
      have new : a.token = p.tokens.child.1 := token
      rw [show (p.afterTurn i t run).tokens = p.tokens.child.2 from same, new]
      exact p.tokens.isCancelled_child.trans root
    · rename_i differ
      refine (spares.others a.token (handedOut j a made) fun a' ha' same => ?_).trans
        (h.live root j a made)
      exact differ (h.apart i j a' a (own.trans ha') made same)

theorem Unhindered.of_change {p q : Pool} {d : Option Deed} (h : p.Unhindered)
    (uses : p.Apportioned) (change : Change p d q) : q.Unhindered := by
  have quiet : (∀ i t, d ≠ some (.ran i t)) → (∀ i t, d ≠ some (.broke i t)) →
      q.Unhindered := by
    intro ran broke
    obtain ⟨begun, spared⟩ := uses.spared change ran broke
    refine h.of_fewer begun spared (before_of_change change) fun i a made => ?_
    have follows := follows_of_change change i
    unfold attemptAt at made ⊢
    generalize p.runAt i = r at follows
    generalize q.runAt i = r' at follows made
    cases follows with
    | other _ => exact made
    | turns _ => exact absurd rfl (ran _ _)
    | breaks => exact absurd rfl (broke _ _)
    | takes job now =>
      exact absurd (Run.underway?_eq_some.1 made) (Run.phase_start_ne_attempting job _ now a)
    | _ => cases made
  cases change with
  | run found running turn =>
    exact h.afterTurn uses found running (Run.turned_of_turn turn).spares fun _ => id
  | cutShort found running turn =>
    exact h.afterTurn uses found running (Run.turned_of_turn turn).spares
      fun a made => nomatch (made : none = some a)
  | aside aside => cases aside <;> exact quiet (by simp) (by simp)
  | _ => exact quiet (by simp) (by simp)

theorem unhindered_create (name : String) (settings : Settings) :
    (create name settings).Apportioned ∧ (create name settings).Unhindered := by
  have none_made : ∀ i, (create name settings).attemptAt i = none := fun i => rfl
  refine ⟨⟨List.nodup_nil, List.forall_mem_nil _, ?_⟩, ?_, ?_, ?_⟩
  · intro w k found
    cases found
  · intro i a made
    rw [none_made] at made
    cases made
  · intro i j a b made
    rw [none_made] at made
    cases made
  · intro _ i a made
    rw [none_made] at made
    cases made

end Pool
end JobPool
