/-
JobPool.Proofs.Pool.Forwarding — progress forwarding loses nothing.

The channel of a driver numbers what is sent, so it counts the changes of the counts
(`Driver.Renews`, `Site.renews_of_move`), and a receiver that has seen the last number has seen
the counts as they are. A forwarder takes the number and the counts in one step
(`Site.Relays`), and nobody else touches it; what was last told and what is to be told are then
compared along the path (`Path.Keeping`). A forwarder without a channel keeps the counts
that it told last instead of a number.

  §1 How often the counts are sent
  §2 Steps of a forwarder
  §3 Along a path
-/
import JobPool.Proofs.Pool.Hearing
import JobPool.Proofs.Pool.Sequence
import JobPool.Proofs.Pool.Upkeep
import JobPool.Proofs.Queue.Ledger

namespace JobPool

/-! ## §1 How often the counts are sent -/

namespace Driver

variable {α : Type} {d : Driver α}

/-- The layout of the driver is right, and its channel, if any, holds the counts. -/
structure Telling (d : Driver α) : Prop where
  wellFormed : d.WellFormed
  value : ∀ {c}, d.channel? = some c → c.value = d.progress

/-- From `d` to `d'` the counts are sent once if there is news, else they stay. -/
structure Renews (d d' : Driver α) (news : Bool) : Prop where
  telling : d'.Telling
  version : d'.channel?.map (·.version) = d.channel?.map (·.version + news.toNat)
  same : news = false → d'.progress = d.progress

theorem Renews.channel {d' : Driver α} {news : Bool} (renews : d.Renews d' news)
    {c : Channel Progress} (watched : d.channel? = some c) :
    ∃ c', d'.channel? = some c' ∧ c'.version = c.version + news.toNat := by
  have version := renews.version
  rw [watched, Option.map_some] at version
  exact Option.map_eq_some_iff.1 version

theorem Renews.unwatched_iff {d' : Driver α} {news : Bool} (renews : d.Renews d' news) :
    d'.channel? = none ↔ d.channel? = none := by
  rw [← Option.map_eq_none_iff, renews.version, Option.map_eq_none_iff]

theorem Telling.renews (telling : d.Telling) : d.Renews d false :=
  ⟨telling, by simp, fun _ => rfl⟩

theorem Telling.published (telling : d.Telling) {c : Channel Progress}
    (watched : d.channel? = some c) : d.Published := by
  rw [Published, watched, Option.map_some, telling.value watched]

/-- The channel holds the counts after a call if it does so before. -/
theorem Telling.of_published {d' : Driver α} (telling : d.Telling) (wellFormed : d'.WellFormed)
    (published : d.Published → d'.Published)
    (watched : d'.channel?.isSome = d.channel?.isSome) : d'.Telling := by
  refine ⟨wellFormed, fun {c'} here => ?_⟩
  obtain ⟨c, there⟩ := Option.isSome_iff_exists.1 (watched.symm.trans (by rw [here]; rfl))
  have holds := published (telling.published there)
  rw [Published, here, Option.map_some] at holds
  exact Option.some.inj holds

theorem Telling.enqueue (telling : d.Telling) (a : α) :
    d.Renews (d.enqueue a).2 (d.enqueue a).1 := by
  cases accepted : (d.enqueue a).1 with
  | false =>
    rw [enqueue_refused accepted]
    exact telling.renews
  | true =>
    have sent : (d.enqueue a).2.channel?.map (·.version) = d.channel?.map (·.version + 1) := by
      cases d with
      | memory d => rfl
      | plain d => rfl
      | queue d =>
        simp only [Driver.enqueue, QueueDriver.enqueue] at accepted ⊢
        split at accepted
        · cases accepted
        · rename_i room
          rw [if_neg room]
          rfl
    refine ⟨telling.of_published (enqueue_accepted telling.wellFormed accepted).1
      (fun holds => holds.enqueue a) ?_, sent, fun quiet => by cases quiet⟩
    simpa using congrArg Option.isSome sent

theorem Telling.dequeue (telling : d.Telling) :
    d.Renews d.dequeue.2 d.dequeue.1.isSome := by
  cases oldest : d.dequeue.1 with
  | none =>
    rw [dequeue_none telling.wellFormed oldest]
    exact telling.renews
  | some a =>
    have sent : d.dequeue.2.channel?.map (·.version) = d.channel?.map (·.version + 1) := by
      cases d with
      | memory d =>
        obtain ⟨items, tally⟩ := d
        cases items with
        | nil => cases oldest
        | cons => rfl
      | plain d =>
        obtain ⟨items, progress⟩ := d
        cases items with
        | nil => cases oldest
        | cons => rfl
      | queue d =>
        simp only [Driver.dequeue, QueueDriver.dequeue] at oldest ⊢
        split
        · rfl
        · rename_i popped
          rw [popped] at oldest
          cases oldest
    refine ⟨telling.of_published (dequeue_some telling.wellFormed oldest).1
      (fun holds => holds.dequeue) ?_, sent, fun quiet => by cases quiet⟩
    simpa using congrArg Option.isSome sent

theorem Telling.clear (telling : d.Telling) : d.Renews d.clear (!d.waiting.isEmpty) := by
  obtain ⟨wellFormed, -, progress⟩ := clear_spec telling.wellFormed
  have sent : d.clear.channel?.map (·.version) =
      d.channel?.map (·.version + (!d.waiting.isEmpty).toNat) := by
    have tally (t : Tally) (items : List α) : (t.discarded items.length).channel.version =
        t.channel.version + (!items.isEmpty).toNat := by cases items <;> rfl
    cases d with
    | memory d => exact congrArg some (tally d.tally d.items)
    | plain d => rfl
    | queue d =>
      have count : d.ring.clear.1 = d.ring.toList.length :=
        (Ring.length_toList telling.wellFormed).symm
      refine congrArg some (Eq.trans ?_ (tally d.tally d.ring.toList))
      rw [← count]
      rfl
  refine ⟨telling.of_published wellFormed (fun holds => holds.clear) ?_, sent, fun quiet => ?_⟩
  · simpa using congrArg Option.isSome sent
  · have empty : d.waiting = [] := by simpa using quiet
    rw [progress, empty]
    rfl

theorem Telling.complete (telling : d.Telling) (success : Bool) :
    d.Renews (d.complete success) true := by
  have sent : (d.complete success).channel?.map (·.version) = d.channel?.map (·.version + 1) := by
    cases d <;> rfl
  refine ⟨telling.of_published (complete_spec telling.wellFormed success).1
    (fun holds => holds.complete success) ?_, sent, fun quiet => by cases quiet⟩
  simpa using congrArg Option.isSome sent

theorem Telling.answer (telling : d.Telling) (call : DriverCall α) : (d.answer call).2.Telling := by
  cases call with
  | enqueue job => exact (telling.enqueue job).telling
  | enqueueWithin job since timeout =>
    cases d with
    | memory d => exact telling
    | plain d => exact telling
    | queue d =>
      show (Driver.queue (d.enqueueWithin job since timeout).2).Telling
      rw [d.enqueueWithin_eq]
      exact (telling.enqueue job).telling
  | dequeue =>
    have after := telling.dequeue.telling
    simp only [Driver.answer]
    split <;> rename_i asked <;> rwa [asked] at after
  | clear => exact telling.clear.telling
  | complete success => exact (telling.complete success).telling

theorem WasNew.telling (wasNew : d.WasNew) : d.Telling := by
  obtain ⟨start, calls, rfl, new⟩ := wasNew
  have telling : start.Telling := by
    rcases new with rfl | ⟨capacity, rfl⟩ | rfl
    · exact ⟨trivial, fun here => by cases here; rfl⟩
    · exact ⟨Ring.wellFormed_empty capacity, fun here => by cases here; rfl⟩
    · exact ⟨trivial, fun here => by cases here⟩
  induction calls using List.reverseRecOn with
  | nil => exact telling
  | append_singleton calls call ih =>
    rw [workAll_concat]
    exact ih.answer call

end Driver

namespace Site

variable {s s' : Site} {m : Move} {u : UpkeepId}

theorem renews_of_step {t : PoolTask} (telling : s.driver.Telling) (moved : s.step t = some s') :
    s.driver.Renews s'.driver (s.mutates (.task t)) := by
  obtain ⟨ds, stepped⟩ := stepped_of_step moved
  cases stepped.driver with
  | untouched takes finishes same =>
    rw [same, mutates, takes, finishes]
    exact telling.renews
  | asked found mayTake takes finishes after =>
    rw [after, mutates, takes, finishes, Option.isSome_none, Bool.or_false]
    exact telling.dequeue
  | told takes finishes after =>
    rw [after, mutates, takes, finishes]
    exact telling.complete _

/-- Every move that changes the counts sends them, and no other. -/
theorem renews_of_move (telling : s.driver.Telling) (moved : s.move m = some s') :
    s.driver.Renews s'.driver (s.mutates m) := by
  cases m with
  | task t => exact renews_of_step telling moved
  | dispatch job =>
    cases moved
    cases answer : (s.dispatch job).1 with
    | false =>
      rw [dispatch_refused answer, mutates, answer]
      exact telling.renews
    | true =>
      obtain ⟨accepted, driver⟩ := dispatch_accepted answer
      rw [driver, mutates, answer, ← accepted]
      exact telling.enqueue job
  | enqueue job => cases moved; exact telling.enqueue job
  | take => cases moved; exact telling.dequeue
  | clear => cases moved; exact telling.clear
  | complete success => cases moved; exact telling.complete success
  | start => cases moved; exact s.quiet_start.driver ▸ telling.renews
  | beginStop => cases moved; exact s.quiet_beginStop.driver ▸ telling.renews
  | beginRelease => cases moved; exact s.quiet_beginRelease.driver ▸ telling.renews
  | spawnWorkers =>
    cases moved
    exact (s.quiet_spawnWorkers (d := none)).driver ▸ telling.renews
  | stopWorker w => cases moved; exact telling.renews
  | abandon => cases moved; exact telling.renews
  | bus op => cases moved; exact telling.renews
  | pass time wall => cases moved; exact telling.renews

/-! ## §2 Steps of a forwarder -/

/-- What a step of a forwarder publishes, and how far the forwarder has come then. -/
inductive Relays (s : Site) (k : Upkeep) : Option Progress → Forwarder → Prop where
  | watches {c : Channel Progress} (fresh : k.forwarder = .fresh)
      (watched : s.driver.channel? = some c) : Relays s k none (.watching c.subscribe)
  | polls {ticker : Ticker} (fresh : k.forwarder = .fresh) (unwatched : s.driver.channel? = none) :
      Relays s k none (.polling s.driver.progress ticker)
  | ends (begun : k.forwarder ≠ .fresh) (told : s.pool.tokens.isCancelled k.token = true) :
      Relays s k none .ended
  | tells {r : Receiver} {c : Channel Progress} {after : Forwarder}
      (watching : k.forwarder = .watching r) (watched : s.driver.channel? = some c)
      (next : after = .watching c.subscribe ∨ after = .crashed) : Relays s k (some c.value) after
  /-- A tick with nothing to tell. -/
  | finds {ticker ticker' : Ticker} (polling : k.forwarder = .polling s.driver.progress ticker) :
      Relays s k none (.polling s.driver.progress ticker')
  | reports {last : Progress} {ticker ticker' : Ticker} {after : Forwarder}
      (polling : k.forwarder = .polling last ticker) (news : s.driver.progress ≠ last)
      (next : after = .polling s.driver.progress ticker' ∨ after = .crashed) :
      Relays s k (some s.driver.progress) after

/-- A step of the forwarder of `u`: what it publishes goes to the bus. -/
structure Relayed (s : Site) (u : UpkeepId) (k : Upkeep) (told : Option Progress)
    (after : Forwarder) (s' : Site) : Prop where
  found : s.pool.upkeeps[u]? = some k
  relays : s.Relays k told after
  publishes : s.publishes (.forwarder u) = told.map .progress
  pool : s'.pool = s.pool.modifyUpkeep u fun k => { k with forwarder := after }
  driver : s'.driver = s.driver
  hub : s'.hub = told.elim s.hub fun p => (s.hub.publish (.progress p)).2

section

variable {k : Upkeep} {told : Option Progress} {now : Forwarder}

theorem Relays.begun (relays : s.Relays k told now) : now ≠ .fresh := by
  cases relays with
  | tells _ _ next => rcases next with rfl | rfl <;> simp
  | reports _ _ next => rcases next with rfl | rfl <;> simp
  | _ => simp

/-- A forwarder that watches has just subscribed, or told what the channel holds. -/
theorem Relays.watching {r : Receiver} (relays : s.Relays k told (.watching r)) :
    ∃ c, s.driver.channel? = some c ∧ r = c.subscribe ∧
      (k.forwarder = .fresh ∨ (∃ r₀, k.forwarder = .watching r₀) ∧ told = some c.value) := by
  cases relays with
  | watches fresh watched => exact ⟨_, watched, rfl, .inl fresh⟩
  | tells watching watched next =>
    rcases next with next | next
    · cases next
      exact ⟨_, watched, rfl, .inr ⟨⟨_, watching⟩, rfl⟩⟩
    · cases next
  | reports _ _ next => rcases next with next | next <;> cases next

/-- A forwarder that looks from time to time keeps the counts as they are, and has told them if
they are not those that it kept. -/
theorem Relays.polling {last : Progress} {ticker : Ticker}
    (relays : s.Relays k told (.polling last ticker)) : last = s.driver.progress ∧
      (k.forwarder = .fresh ∧ s.driver.channel? = none ∧ told = none ∨
        ∃ last₀ ticker₀, k.forwarder = .polling last₀ ticker₀ ∧
          told = if last = last₀ then none else some last) := by
  cases relays with
  | polls fresh unwatched => exact ⟨rfl, .inl ⟨fresh, unwatched, rfl⟩⟩
  | finds polling => exact ⟨rfl, .inr ⟨_, _, polling, (if_pos rfl).symm⟩⟩
  | tells _ _ next => rcases next with next | next <;> cases next
  | reports polling news next =>
    rcases next with next | next
    · cases next
      exact ⟨rfl, .inr ⟨_, _, polling, (if_neg news).symm⟩⟩
    · cases next

end

theorem relayed_publishProgress {k : Upkeep} {p : Progress} {next : Forwarder}
    (found : s.pool.upkeeps[u]? = some k)
    (publishes : s.publishes (.forwarder u) = some (.progress p))
    (relays : ∀ {after}, after = next ∨ after = .crashed → s.Relays k (some p) after) :
    ∃ after, s.Relayed u k (some p) after (s.publishProgress u p next) := by
  unfold publishProgress
  cases published : s.hub.publish (.progress p) with
  | mk calm hub =>
    have hub : hub = (s.hub.publish (.progress p)).2 := by rw [published]
    cases calm with
    | true => exact ⟨next, found, relays (.inl rfl), publishes, rfl, rfl, hub⟩
    | false => exact ⟨.crashed, found, relays (.inr rfl), publishes, rfl, rfl, hub⟩

theorem relayed_of_step (moved : s.step (.forwarder u) = some s') :
    ∃ k told after, s.Relayed u k told after s' := by
  obtain ⟨k, found, reports⟩ := reports_of_stepForwarder moved
  refine ⟨k, ?_⟩
  cases reports with
  | subscribes fresh watched silent =>
    exact ⟨none, _, found, .watches fresh watched, silent, rfl, rfl, rfl⟩
  | polls fresh unwatched silent =>
    exact ⟨none, _, found, .polls fresh unwatched, silent, rfl, rfl, rfl⟩
  | ends begun told silent =>
    have begun : k.forwarder ≠ .fresh := by
      rcases begun with ⟨r, stage⟩ | ⟨last, ticker, stage⟩ <;> simp [stage]
    exact ⟨none, _, found, .ends begun told, silent, rfl, rfl, rfl⟩
  | tells watching _ watched publishes =>
    exact ⟨_, relayed_publishProgress found publishes fun next => .tells watching watched next⟩
  | looks polling _ silent => exact ⟨none, _, found, .finds polling, silent, rfl, rfl, rfl⟩
  | finds polling _ news publishes =>
    exact ⟨_, relayed_publishProgress found publishes fun next => .reports polling news next⟩

/-- A forwarder that watches waits as long as it has seen what was sent last. -/
theorem seen_of_parked {r : Receiver} {c : Channel Progress}
    (watching : s.forwarderAt u = some (.watching r)) (watched : s.driver.channel? = some c)
    (live : s.isLive u = true) (parked : s.step (.forwarder u) = none) : r.seen = c.version := by
  obtain ⟨k, found, stage⟩ := Option.map_eq_some_iff.1 watching
  have live : s.pool.tokens.isCancelled k.token = false := by simpa [isLive, found] using live
  have parked : s.stepForwarder u = none := parked
  simpa [stepForwarder, found, stage, live, watched, Channel.hasChanged, Channel.update]
    using parked

/-- The forwarder of an upkeep is touched only by its own steps; an upkeep begins with the pool. -/
theorem forwarderAt_of_move (moved : s.move m = some s') (other : m ≠ .task (.forwarder u)) :
    s'.forwarderAt u = s.forwarderAt u ∨
      (s.forwarderAt u = none ∧ s'.forwarderAt u = some .fresh) := by
  have same : ∀ {p : Pool}, s'.pool.frame = p.frame → p.upkeeps = s.pool.upkeeps →
      s'.forwarderAt u = s.forwarderAt u := by
    intro p frame upkeeps
    have kept : s'.pool.upkeeps = p.upkeeps := (congrArg Pool.upkeeps frame :)
    rw [forwarderAt, forwarderAt, kept, upkeeps]
  have modifies : ∀ {v : UpkeepId} {f : Upkeep → Upkeep},
      s'.pool.frame = (s.pool.modifyUpkeep v f).frame →
      (∀ k, v = u → (f k).forwarder = k.forwarder) → s'.forwarderAt u = s.forwarderAt u := by
    intro v f frame keeps
    have kept : s'.pool.upkeeps = s.pool.upkeeps.modify v f := (congrArg Pool.upkeeps frame :)
    rw [forwarderAt, forwarderAt, kept, List.getElem?_modify, Option.map_eq_map, Option.map_map]
    refine Option.map_congr fun k _ => ?_
    by_cases own : v = u
    · simpa [own] using keeps k own
    · simp [own]
  cases tends_of_move moved with
  | spares _ frame => exact .inl (same frame rfl)
  | refuses => exact .inl rfl
  | watches _ _ _ frame => exact .inl (modifies frame fun _ _ => rfl)
  | @forwards _ v _ _ _ _ frame =>
    exact .inl (modifies frame fun _ own => absurd (by rw [own]) other)
  | goesOn _ _ frame => exact .inl (same frame rfl)
  | starts _ frame _ =>
    have grown : s'.pool.upkeeps = s.pool.upkeeps ++ [{ token := s.pool.tokens.child.1 }] :=
      (congrArg Pool.upkeeps frame :)
    simp only [forwarderAt, grown]
    rcases Nat.lt_trichotomy u s.pool.upkeeps.length with early | new | late
    · exact .inl (by rw [List.getElem?_append_left early])
    · subst new
      exact .inr (by simp)
    · refine .inl ?_
      rw [List.getElem?_eq_none (Nat.le_of_lt late), List.getElem?_eq_none]
      simpa using Nat.succ_le_of_lt late
  | stops _ frame => exact .inl (same frame rfl)
  | releases _ frame => exact .inl (same frame rfl)
  | abandons frame => exact .inl (same frame rfl)

theorem Relayed.forwarderAt {k : Upkeep} {told : Option Progress} {after : Forwarder}
    (relayed : s.Relayed u k told after s') :
    s.forwarderAt u = some k.forwarder ∧ s'.forwarderAt u = some after := by
  simp [Site.forwarderAt, relayed.pool, Pool.modifyUpkeep, relayed.found]

theorem Relayed.forwards {k : Upkeep} {told : Option Progress} {after : Forwarder}
    (relayed : s.Relayed u k told after s') : s.forwards u (.task (.forwarder u)) = told := by
  rw [Site.forwards, if_pos rfl, relayed.publishes]
  cases told <;> rfl

/-- What a task publishes goes to the bus. -/
theorem hears_of_step {t : PoolTask} (moved : s.step t = some s') :
    s.Hears (s.publishes t) s' := by
  cases t with
  | loop i => exact hears_stepLoop moved
  | watcher u => exact hears_of_hub (onlyPool_stepWatcher moved).hub
  | check u w => exact hears_of_hub (onlyPool_stepCheck moved).hub
  | forwarder u =>
    obtain ⟨k, told, now, relayed⟩ := relayed_of_step moved
    have hub := relayed.hub
    rw [relayed.publishes]
    cases told with
    | none => exact hears_of_hub hub
    | some p => exact ⟨[], hub ▸ s.hub.hears_publish (.progress p)⟩
  | call c => exact hears_of_hub (onlyPool_stepCall moved).hub

theorem forwards_of_other (other : m ≠ .task (.forwarder u)) : s.forwards u m = none := by
  cases m with
  | task t =>
    cases t with
    | forwarder v => exact if_neg fun own => other (by rw [own])
    | _ => rfl
  | _ => rfl

end Site

/-- A run tells about its job only. -/
theorem Run.Turned.not_progress {r : Run} {picks : Picks} {now : Nat} {tokens : Tokens} {t : Turn}
    (h : Turned r picks now tokens t) : ∀ ev ∈ t.event, ev.progress? = none := by
  have concludes : ∀ {pick : Pick} {e : Option JobError}, t.Concludes r pick now e →
      ∀ ev ∈ t.event, ev.progress? = none := by
    rintro pick e ⟨ev, event, concluded⟩ ev' published
    obtain rfl := Option.some.inj (event.symm.trans published)
    generalize t.next = next at concluded
    cases concluded <;> rfl
  cases h with
  | announced _ _ _ event _ =>
    intro ev published
    obtain rfl := Option.some.inj (event.symm.trans published)
    rfl
  | woken _ _ _ _ event _ => simp [event]
  | begun _ _ _ _ _ _ event _ => simp [event]
  | expired _ _ _ _ concluded => exact concludes concluded
  | stillborn _ _ _ _ _ concluded => exact concludes concluded
  | «instant» _ _ _ _ _ concluded => exact concludes concluded
  | ended _ _ _ concluded => exact concludes concluded

namespace Site

variable {s s' : Site} {m : Move} {u : UpkeepId}

/-- Only forwarders publish counts, and those that the driver has. -/
theorem told_of_publishes {t : PoolTask} {p : Progress} (telling : s.driver.Telling)
    (published : s.publishes t = some (.progress p)) :
    (∃ u, t = .forwarder u) ∧ p = s.driver.progress := by
  cases t with
  | loop i =>
    rw [publishes] at published
    split at published
    · obtain ⟨t, turn, event⟩ := Option.bind_eq_some_iff.1 published
      cases (Run.turned_of_turn turn).not_progress _ event
    · obtain ⟨job, -, announces⟩ := Option.map_eq_some_iff.1 published
      cases announces
  | forwarder u =>
    refine ⟨⟨u, rfl⟩, ?_⟩
    rw [publishes] at published
    split at published
    · rename_i k found
      split at published
      · cases published
      · split at published
        · split at published
          · rename_i c watched
            split at published <;> cases published
            exact telling.value watched
          · cases published
        · split at published <;> cases published
          rfl
        · cases published
    · cases published
  | watcher u => cases published
  | check u w => cases published
  | call c => cases published

/-! ## §3 Along a path -/

end Site

namespace Path

variable {s s' : Site} {m : Move} {u : UpkeepId} {ms : List (Site × Move)}

theorem forwardedBy_concat (u : UpkeepId) (ms : List (Site × Move)) (s : Site) (m : Move) :
    forwardedBy u (ms ++ [(s, m)]) = forwardedBy u ms ++ (s.forwards u m).toList := by
  rw [forwardedBy, List.filterMap_append]
  cases forwards : s.forwards u m <;> simp [forwards, forwardedBy]

theorem Begins.concat {s₀ : Site} {after : List (Site × Move)} (begins : Begins u ms s₀ after)
    (x : Site × Move) : Begins u (ms ++ [x]) s₀ (after ++ [x]) := by
  obtain ⟨before, split⟩ := begins.split
  exact ⟨⟨before, by rw [split, List.append_assoc]; rfl⟩, begins.fresh⟩

/-- What a forwarder keeps says which of the counts it has told. -/
structure Keeping (u : UpkeepId) (ms : List (Site × Move)) (s : Site) : Prop where
  telling : s.driver.Telling
  silent : s.forwarderAt u = none ∨ s.forwarderAt u = some .fresh → forwardedBy u ms = []
  /-- The channel has not been left behind, and where the receiver has seen what was sent last,
  that was told. -/
  watching : ∀ {r}, s.forwarderAt u = some (.watching r) →
    ∃ c, s.driver.channel? = some c ∧ r.seen ≤ c.version ∧ ∃ s₀ after, Begins u ms s₀ after ∧
      (r.seen = c.version → (∀ x ∈ after, x.1.mutates x.2 = false) ∨
        (forwardedBy u ms).getLast? = some s.driver.progress)
  polling : ∀ {last ticker}, s.forwarderAt u = some (.polling last ticker) →
    s.driver.channel? = none ∧ ∃ s₀ after, Begins u ms s₀ after ∧
      (forwardedBy u ms).getLast?.getD s₀.driver.progress = last
  varied : s.driver.channel? = none → (forwardedBy u ms).IsChain (· ≠ ·)

/-- A move of anybody else leaves a forwarder behind only if it sends the counts. -/
theorem Keeping.of_other (keeping : Keeping u ms s) (moved : s.move m = some s')
    (other : m ≠ .task (.forwarder u)) : Keeping u (ms ++ [(s, m)]) s' := by
  have renews := Site.renews_of_move keeping.telling moved
  have stage := Site.forwarderAt_of_move moved other
  have forwarded : forwardedBy u (ms ++ [(s, m)]) = forwardedBy u ms := by
    rw [forwardedBy_concat, Site.forwards_of_other other, Option.toList_none, List.append_nil]
  -- upkeep that has just begun has a fresh forwarder, so any other was there before
  have stays : ∀ {f}, s'.forwarderAt u = some f → f ≠ .fresh → s.forwarderAt u = some f := by
    intro f here begun
    rcases stage with same | ⟨-, new⟩
    · exact same.symm.trans here
    · exact absurd (Option.some.inj (here.symm.trans new)) begun
  refine ⟨renews.telling, fun idle => ?_, fun {r} here => ?_, fun {last ticker} here => ?_,
    fun unwatched => ?_⟩
  · rw [forwarded]
    rcases stage with same | ⟨noForwarder, -⟩
    · exact keeping.silent (same ▸ idle)
    · exact keeping.silent (.inl noForwarder)
  · obtain ⟨c, watched, le, s₀, after, begins, upToDate⟩ :=
      keeping.watching (stays here (by simp))
    obtain ⟨c', watched', version⟩ := renews.channel watched
    refine ⟨c', watched', by omega, s₀, _, begins.concat _, fun seen => ?_⟩
    -- the receiver was never ahead, so if it has seen what was sent last nothing was sent now
    have quiet : s.mutates m = false := by
      cases news : s.mutates m with
      | false => rfl
      | true =>
        rw [news, Bool.toNat_true] at version
        omega
    rw [quiet, Bool.toNat_false] at version
    rw [forwarded, renews.same quiet]
    refine (upToDate (seen.trans version)).imp_left fun calm x mem => ?_
    rcases List.mem_append.1 mem with before | new
    · exact calm x before
    · obtain rfl := List.mem_singleton.1 new
      exact quiet
  · obtain ⟨unwatched, s₀, after, begins, latest⟩ := keeping.polling (stays here (by simp))
    exact ⟨renews.unwatched_iff.2 unwatched, s₀, _, begins.concat _, forwarded ▸ latest⟩
  · exact forwarded ▸ keeping.varied (renews.unwatched_iff.1 unwatched)

/-- A forwarder that takes a step has told the counts. -/
theorem Keeping.of_own (keeping : Keeping u ms s) (moved : s.step (.forwarder u) = some s') :
    Keeping u (ms ++ [(s, .task (.forwarder u))]) s' := by
  obtain ⟨k, told, now, relayed⟩ := Site.relayed_of_step moved
  obtain ⟨was, goes⟩ := relayed.forwarderAt
  have forwarded : forwardedBy u (ms ++ [(s, .task (.forwarder u))]) =
      forwardedBy u ms ++ told.toList := by rw [forwardedBy_concat, relayed.forwards]
  have begins (fresh : k.forwarder = .fresh) :
      Begins u (ms ++ [(s, .task (.forwarder u))]) s [] := ⟨⟨ms, rfl⟩, by rw [was, fresh]⟩
  refine ⟨relayed.driver ▸ keeping.telling, fun idle => ?_, fun {r} here => ?_,
    fun {last ticker} here => ?_, fun unwatched => ?_⟩
  · rw [goes] at idle
    rcases idle with noForwarder | fresh
    · cases noForwarder
    · exact absurd (Option.some.inj fresh) relayed.relays.begun
  · obtain rfl := Option.some.inj (goes.symm.trans here)
    rw [relayed.driver, forwarded]
    obtain ⟨c, watched, rfl, fresh | ⟨⟨r₀, watching⟩, rfl⟩⟩ := relayed.relays.watching
    · exact ⟨c, watched, Nat.le_refl _, s, [], begins fresh, fun _ => .inl (by simp)⟩
    · obtain ⟨-, -, -, s₀, after, begins, -⟩ := keeping.watching (by rw [was, watching])
      refine ⟨c, watched, Nat.le_refl _, s₀, _, begins.concat _, fun _ => .inr ?_⟩
      rw [Option.toList_some, List.getLast?_concat, keeping.telling.value watched]
  · obtain rfl := Option.some.inj (goes.symm.trans here)
    rw [relayed.driver, forwarded]
    obtain ⟨rfl, ⟨fresh, unwatched, rfl⟩ | ⟨last₀, ticker₀, polling, rfl⟩⟩ :=
      relayed.relays.polling
    · refine ⟨unwatched, s, [], begins fresh, ?_⟩
      rw [keeping.silent (.inr (by rw [was, fresh]))]
      rfl
    · obtain ⟨unwatched, s₀, after, begins, latest⟩ := keeping.polling (by rw [was, polling])
      refine ⟨unwatched, s₀, _, begins.concat _, ?_⟩
      split
      · rename_i same
        simpa [same] using latest
      · simp
  · rw [relayed.driver] at unwatched
    rw [forwarded]
    cases relayed.relays with
    | tells _ watched _ =>
      rw [watched] at unwatched
      cases unwatched
    | reports polling news _ =>
      obtain ⟨-, s₀, after, -, latest⟩ := keeping.polling (by rw [was, polling])
      refine (keeping.varied unwatched).append (.singleton _) fun p last q new => ?_
      obtain rfl : s.driver.progress = q := by simpa using new
      rw [Option.mem_def.1 last] at latest
      exact fun same => news (same.symm.trans latest)
    | _ => simpa using keeping.varied unwatched

theorem keeping {start : Site} (telling : start.driver.Telling) (noUpkeep : start.pool.upkeeps = [])
    (path : Path start ms s) (u : UpkeepId) : Keeping u ms s := by
  induction path with
  | here =>
    have noForwarder : start.forwarderAt u = none := by simp [Site.forwarderAt, noUpkeep]
    refine ⟨telling, fun _ => rfl, ?_, ?_, fun _ => .nil⟩ <;> simp [noForwarder]
  | @step s s' ms m _ moved ih =>
    by_cases own : m = .task (.forwarder u)
    · subst own
      exact ih.of_own moved
    · exact ih.of_other moved own

/-- A forwarder that watches and is parked has told the counts, unless there was nothing to
tell. -/
theorem Keeping.parked {r : Receiver} (keeping : Keeping u ms s)
    (watching : s.forwarderAt u = some (.watching r)) (live : s.isLive u = true)
    (parked : s.step (.forwarder u) = none) :
    ∃ s₀ after, Begins u ms s₀ after ∧ ((∀ x ∈ after, x.1.mutates x.2 = false) ∨
      (forwardedBy u ms).getLast? = some s.driver.progress) := by
  obtain ⟨c, watched, -, s₀, after, begins, upToDate⟩ := keeping.watching watching
  exact ⟨s₀, after, begins, upToDate (Site.seen_of_parked watching watched live parked)⟩

/-- A tick brings what was told to the counts. -/
theorem Keeping.tick {last : Progress} {ticker : Ticker} (keeping : Keeping u ms s)
    (polling : s.forwarderAt u = some (.polling last ticker)) (live : s.isLive u = true)
    (due : ticker.isDue s.now = true) :
    (s.step (.forwarder u)).isSome = true ∧ ∃ s₀ after, Begins u ms s₀ after ∧
      (forwardedBy u (ms ++ [(s, .task (.forwarder u))])).getLast?.getD s₀.driver.progress =
        s.driver.progress := by
  obtain ⟨-, s₀, after, begins, latest⟩ := keeping.polling polling
  have goes : (s.step (.forwarder u)).isSome = true := by
    obtain ⟨k, found, stage⟩ := Option.map_eq_some_iff.1 polling
    have live : s.pool.tokens.isCancelled k.token = false := by
      simpa [Site.isLive, found] using live
    simp only [Site.step, Site.stepForwarder, found, stage, live, due, Option.bind_eq_bind,
      Option.bind_some, Bool.false_eq_true, if_false, if_true]
    split <;> rfl
  refine ⟨goes, s₀, after, begins, ?_⟩
  obtain ⟨s', moved⟩ := Option.isSome_iff_exists.1 goes
  obtain ⟨k, told, now, relayed⟩ := Site.relayed_of_step moved
  have stage : k.forwarder = .polling last ticker :=
    Option.some.inj (relayed.forwarderAt.1.symm.trans polling)
  rw [forwardedBy_concat, relayed.forwards]
  cases relayed.relays with
  | watches fresh _ => cases stage.symm.trans fresh
  | polls fresh _ => cases stage.symm.trans fresh
  | ends _ cancelled => simp [Site.isLive, relayed.found, cancelled] at live
  | tells watching _ _ => cases stage.symm.trans watching
  | finds polling =>
    cases stage.symm.trans polling
    simpa using latest
  | reports _ _ _ => simp

end Path

/-- Progress forwarding loses nothing, whatever else is done to the driver between the steps of
a forwarder. -/
theorem progress_forwarded {name : String} {settings : Settings} {driver : Driver Job} {hub : Hub}
    {wall : Nat} {picks : Picks} {ms : List (Site × Move)} {s : Site} (wasNew : driver.WasNew)
    (path : Path (Site.create name settings driver hub wall picks) ms s) : s.Forwarding ms := by
  have keeping := Path.keeping (wasNew.telling : (Site.create ..).driver.Telling) rfl path
  have telling : s.driver.Telling := (keeping 0).telling
  refine ⟨Site.told_of_publishes telling, Site.hears_of_step,
    fun moved quiet => (Site.renews_of_move telling moved).same quiet, fun {u r} watching => ?_,
    fun {u _ _} polling => ((keeping u).polling polling).1,
    fun {u r} watching live parked => (keeping u).parked watching live parked,
    fun {u _ _} polling live due => (keeping u).tick polling live due,
    fun unwatched u => (keeping u).varied unwatched⟩
  obtain ⟨c, watched, -⟩ := (keeping u).watching watching
  rw [watched]
  exact Option.some_ne_none c

namespace Sample

/-- A pool on a driver without a channel. -/
def polledPool : Site :=
  .create "polled" { worker := { maxWorkers := 0, batch := 0 } } (.plain {}) {} 0 .least

/-- The forwarder begins, and two jobs come before its next step. -/
def twoJobsAtOnce : List Move :=
  [.start, .task (.forwarder 0), .enqueue quickJob, .enqueue quickJob]

/-- A listener takes one of the jobs when it is told of both. -/
def takeOnNews : List Move := twoJobsAtOnce ++ [.task (.forwarder 0), .take, .task (.forwarder 0)]

end Sample

open Sample

/-- A forwarder is parked with all told, and one without a channel has its first tick. -/
theorem progress_forwarded_echo :
    (∃ s₀ after, Path.Begins 0 (oneWorker.trail takeOnNews) s₀ after ∧
      ((∀ x ∈ after, x.1.mutates x.2 = false) ∨
        (Path.forwardedBy 0 (oneWorker.trail takeOnNews)).getLast? =
          some (oneWorker.plays takeOnNews).driver.progress)) ∧
      ∃ s₀ after, Path.Begins 0 (polledPool.trail twoJobsAtOnce) s₀ after ∧
        (Path.forwardedBy 0 (polledPool.trail twoJobsAtOnce ++
            [(polledPool.plays twoJobsAtOnce, .task (.forwarder 0))])).getLast?.getD
              s₀.driver.progress =
          (polledPool.plays twoJobsAtOnce).driver.progress := by
  have memory : (Driver.memory {} : Driver Job).WasNew := ⟨_, [], rfl, .inl rfl⟩
  have plain : (Driver.plain {} : Driver Job).WasNew := ⟨_, [], rfl, .inr (.inr rfl)⟩
  have echoed := progress_forwarded memory
    (Site.path_of_plays takeOnNews oneWorker (by decide +kernel))
  have waited := progress_forwarded plain
    (Site.path_of_plays twoJobsAtOnce polledPool (by decide +kernel))
  have parked : (oneWorker.plays takeOnNews).step (.forwarder 0) = none :=
    Option.isNone_iff_eq_none.1 (by decide +kernel)
  have begun : (polledPool.plays twoJobsAtOnce).forwarderAt 0 =
      some (.polling {} (.start 0 polledPool.pool.watchInterval)) := by decide +kernel
  exact ⟨echoed.watched (r := ⟨3⟩) (by decide +kernel) (by decide +kernel) parked,
    (waited.polled begun (by decide +kernel) (by decide +kernel)).2⟩

/-- Both jobs are told at once, and what the listener does then is told too. -/
example : Path.forwardedBy 0 (oneWorker.trail takeOnNews) =
    [{ total := 2, pending := 2 }, { total := 2, pending := 1, executing := 1 }] := by
  decide +kernel

end JobPool
