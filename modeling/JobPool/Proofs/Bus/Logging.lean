/-
JobPool.Proofs.Bus.Logging — a log writer is not noticed, and reports exactly what it is for.

A log clause answers `true` and writes to the log, which nobody else reads, so it follows the
other links about without being seen (`LoggedBus.follows`). Subscribing a log writer adds log
clauses only: what the others see of the bus stays (`LoggedBus.view_subscribed`), and with it
every dispatch. On a hub of scripted links the links operate on the bus as they run, also by
dispatching; there it goes by induction on how deep operations nest (`Script.unlogged_nested`).
That the lines are right is a matter of single calls: where a log clause stands in the line of
links, the passage of the dispatch can be cut (`Serves.reports`).
-/
import JobPool.Proofs.Bus.Delivery
import JobPool.Proofs.Bus.Following
import JobPool.Proofs.Bus.Subscription
import Mathlib.Data.List.Nodup

namespace JobPool

variable {σ ρ L I C : Type}

/-! ## §1 The lines -/

namespace LogClause

/-- A clause has a line for the events of its own kind, whatever their topic. -/
theorem isSome_line?_iff (c : LogClause) (ev : Event) :
    (c.line? ev).isSome = true ↔ for? ev = some c := by
  cases c <;> cases ev <;> simp [line?, for?]

theorem topic_of_for? {c : LogClause} {ev : Event} (h : for? ev = some c) : ev.topic = c.topic := by
  cases ev <;> cases h <;> rfl

theorem tells_of_line? {c : LogClause} {ev : Event} {l : LogLine} (h : c.line? ev = some l) :
    l.Tells ev := by
  have own := (isSome_line?_iff c ev).1 (by rw [h]; rfl)
  cases ev <;> cases own <;> cases h <;> constructor <;>
    simp [Progress.counters, Event.job?, Event.attempt?, Event.error?, Event.label?,
      Event.counts?, List.lookup_cons]

/-- Where the lines of log clauses do not show, nothing of what they do shows. -/
theorem view_call {τ : Type} {view : σ → τ} {write : LogLine → σ → σ}
    (unseen : ∀ l s, l.source = source → view (write l s) = view s) (c : LogClause) (ev : Event)
    (s : σ) : view (c.call write ev s).2 = view s := by
  unfold LogClause.call
  cases line : c.line? ev with
  | none => rfl
  | some l => exact unseen l s (tells_of_line? line).source

end LogClause

/-! ## §2 Log clauses follow -/

namespace LoggedBus

variable (g : LoggedBus σ ρ L I C)

theorem view_write (l : LogLine) (s : σ) (own : l.source = LogClause.source) :
    g.view (g.write l s) = g.view s := by
  simp only [view, g.bus_write, g.rest_write l s own]

theorem follows : g.conduct.Follows g.conduct g.isLog g.view g.view where
  toMatches := g.others
  quiet q log ev s := by
    obtain ⟨c, is_c⟩ := Option.isSome_iff_exists.1 log
    rw [g.call_log q c is_c]
    exact ⟨rfl, c.view_call g.view_write ev s⟩

theorem bus_of_view {s s' : σ} (same : g.view s = g.view s') :
    (g.bus s).without g.isLog = (g.bus s').without g.isLog :=
  congrArg Prod.fst same

/-- Watching the links does not get in their way. -/
theorem watch_eq (events : List (Event × Option Init)) (s : σ) :
    Alike Prod.fst id (g.watch events s) (g.conduct.dispatchAll g.bus events s) := by
  refine Conduct.dispatchAll_alike (fun ev init t s same => ?_) events rfl
  have one := (Conduct.follows_noting g.conduct g.isLog g.view).dispatch (g.bus t.1) ev init same
  rw [Bus.without_nothing] at one
  subst same
  exact one

theorem watch_alike (events : List (Event × Option Init)) {s s' : σ}
    (same : g.view s = g.view s') :
    Alike (fun t => (g.view t.1, t.2)) (fun t => (g.view t.1, t.2)) (g.watch events s)
      (g.watch events s') :=
  Conduct.dispatchAll_alike
    (fun ev init _ _ same => g.follows.noting.dispatch_alike
      (g.bus_of_view (congrArg Prod.fst same)) ev init same)
    events (congrArg (·, []) same)

end LoggedBus

/-! ## §3 Subscribing a log writer -/

theorem LogClause.topic_injective {c c' : LogClause} (same : c.topic = c'.topic) : c = c' := by
  revert same
  cases c <;> cases c' <;> decide

/-- A log writer subscribes each of its clauses once, to the topic of the clause. -/
theorem LogWriter.exists_clauses (w : LogWriter) : ∃ cs : List LogClause,
    cs.Nodup ∧ (∀ c, c ∈ cs ↔ w.Has c) ∧ w.subscriptions = cs.map fun c => (c.topic, [c]) := by
  refine ⟨_, ?_, ?_, rfl⟩
  · cases w.withProgress <;> decide
  · intro c
    unfold Has
    cases w.withProgress <;> cases c <;> decide

namespace LoggedBus

variable (g : LoggedBus σ ρ L I C)

theorem listed_subscriptions {w : LogWriter} {c : LogClause} (has : w.Has c) :
    Bus.listed (g.subscriptions w) c.topic = [g.clause c] := by
  obtain ⟨cs, distinct, all, subs⟩ := w.exists_clauses
  have own : cs.filter (fun c' => c'.topic == c.topic) = [c] := by
    have by_topic : (fun c' : LogClause => c'.topic == c.topic) = (· == c) := by
      funext c'
      rw [Bool.eq_iff_iff, beq_iff_eq, beq_iff_eq]
      exact ⟨LogClause.topic_injective, congrArg _⟩
    rw [by_topic, List.filter_beq, List.count_eq_one_of_mem distinct ((all c).2 has)]
    rfl
  simp [Bus.listed, subscriptions, subs, List.filter_map, Function.comp_def, own]

theorem listed_subscriptions_of_none {w : LogWriter} {topic : String}
    (none : ∀ c, w.Has c → c.topic ≠ topic) : Bus.listed (g.subscriptions w) topic = [] := by
  obtain ⟨cs, -, all, subs⟩ := w.exists_clauses
  simp only [Bus.listed, subscriptions, subs, List.map_map, List.flatMap_eq_nil_iff,
    List.mem_filter, List.mem_map]
  rintro _ ⟨⟨c, mem, rfl⟩, there⟩
  exact absurd (beq_iff_eq.1 there) (none c ((all c).1 mem))

/-- Subscribing a log writer changes nothing that is seen. -/
theorem without_of_subscribe {w : LogWriter} {b b' : Bus L C} {r : Except BusError Unit}
    (done : b.subscribe (g.subscriptions w) = (r, b')) :
    b'.without g.isLog = b.without g.isLog := by
  have shown := congrArg Prod.snd (b.subscribe_without g.isLog (g.subscriptions w))
  rw [Bus.subscribe_nothing, done] at shown
  · exact shown.symm
  · intro sub mem
    simp only [subscriptions, List.map_map, List.mem_map] at mem
    obtain ⟨sub', -, rfl⟩ := mem
    simp [isLog, g.log?_clause]

/-- The log writer is subscribed, and nobody takes notice. -/
theorem unnoticed (w : LogWriter) (s : σ)
    (there : ∀ c, w.Has c → (g.bus s).hasTopic c.topic = true) :
    ∃ b, (g.bus s).subscribe (g.subscriptions w) = (.ok (), b) ∧ g.Unnoticed w s b := by
  have all : ∀ sub ∈ g.subscriptions w, (g.bus s).hasTopic sub.1 = true := by
    intro sub mem
    obtain ⟨cs, -, has, subs⟩ := w.exists_clauses
    simp only [subscriptions, subs, List.map_map, List.mem_map] at mem
    obtain ⟨c, mem, rfl⟩ := mem
    exact there c ((has c).1 mem)
  obtain ⟨b, done, subscribed⟩ := Bus.subscribed_of_all all
  have shown := g.without_of_subscribe done
  have view : ∀ s', g.bus s' = b → g.rest s' = g.rest s → g.view s' = g.view s := by
    intro s' bus rest
    simp only [LoggedBus.view, bus, rest, shown]
  refine ⟨b, done, ?_⟩
  constructor
  case attached =>
    intro c has chain found
    rw [subscribed.chains, found, g.listed_subscriptions has]
    rfl
  case elsewhere =>
    intro topic none
    rw [subscribed.chains, g.listed_subscriptions_of_none none]
    cases (g.bus s).chain? topic <;> simp
  case dispatches =>
    intro s' bus rest events
    obtain ⟨deliveries, after⟩ := g.watch_alike events (view s' bus rest)
    obtain ⟨same, state⟩ := g.watch_eq events s
    obtain ⟨same', state'⟩ := g.watch_eq events s'
    refine ⟨same'.symm.trans (deliveries.trans same), ?_⟩
    have views := (Prod.mk.inj after).1
    rw [state, state'] at views
    exact views
  case others =>
    intro s' bus rest events
    exact (Prod.mk.inj (g.watch_alike events (view s' bus rest)).2).2

end LoggedBus

/-! ## §4 Scripted links -/

namespace Hub

variable {h h' : Hub}

theorem unlogged_note (same : h.unlogged = h'.unlogged) (n : Note) :
    (h.note n).unlogged = (h'.note n).unlogged := by
  obtain ⟨bus, same⟩ := Prod.mk.inj same
  obtain ⟨notes, now⟩ := Prod.mk.inj same
  simp only [unlogged, note, bus, now, Array.toList_push, List.filter_append, notes]

theorem unlogged_withBus (same : h.unlogged = h'.unlogged) {b b' : ScriptBus}
    (shown : (b.without fun q => q.log?.isSome) = b'.without fun q => q.log?.isSome) :
    (h.withBus b).unlogged = (h'.withBus b').unlogged := by
  obtain ⟨-, same⟩ := Prod.mk.inj same
  simp only [unlogged, withBus, shown, same]

/-- A line of the log is not among what the links see. -/
theorem unlogged_line (l : LogLine) (h : Hub) (own : l.source = LogClause.source) :
    (h.note (.line l)).unlogged = h.unlogged := by
  have skipped : Entry.isLogLine ⟨h.now, .line l⟩ = true := beq_iff_eq.2 own
  simp [unlogged, note, List.filter_append, skipped]

theorem unlogged_foldl {run : BusOp → Hub → Hub}
    (runs : ∀ op {h h' : Hub}, h.unlogged = h'.unlogged →
      (run op h).unlogged = (run op h').unlogged)
    (ops : List BusOp) (same : h.unlogged = h'.unlogged) :
    (ops.foldl (fun h op => run op h) h).unlogged =
      (ops.foldl (fun h op => run op h) h').unlogged := by
  induction ops generalizing h h' with
  | nil => exact same
  | cons op ops ih => exact ih (runs op same)

end Hub

namespace Script

variable {run : BusOp → Hub → Hub}

theorem call_log (run : BusOp → Hub → Hub) (c : LogClause) (ev : Event) (h : Hub) :
    (conduct run).call (.log c) ev h = c.call (fun l h => h.note (.line l)) ev h := by
  simp only [conduct, LogClause.call]
  cases c.line? ev <;> rfl

theorem matches_conduct
    (runs : ∀ op {h h' : Hub}, h.unlogged = h'.unlogged →
      (run op h).unlogged = (run op h').unlogged) :
    (conduct run).Matches (conduct run) (fun q => q.log?.isSome) Hub.unlogged Hub.unlogged where
  make same a init := by
    have after := Hub.unlogged_foldl runs a.opsOnMake (Hub.unlogged_note same (.made a.tag init))
    simp only [conduct]
    cases a.panicOnMake <;> exact ⟨rfl, after⟩
  handle same m ev := ⟨rfl, Hub.unlogged_foldl runs m.action.ops (Hub.unlogged_note same _)⟩
  call same q ev shown := by
    cases q with
    | script a => exact ⟨rfl, Hub.unlogged_foldl runs a.ops (Hub.unlogged_note same _)⟩
    | log c => cases shown
    | recorder number => exact ⟨rfl, Hub.unlogged_note same _⟩
  report same ev p := Hub.unlogged_note same _

theorem follows_conduct
    (runs : ∀ op {h h' : Hub}, h.unlogged = h'.unlogged →
      (run op h).unlogged = (run op h').unlogged) :
    (conduct run).Follows (conduct run) (fun q => q.log?.isSome) Hub.unlogged Hub.unlogged where
  toMatches := matches_conduct runs
  quiet q log ev h := by
    cases q with
    | log c =>
      rw [call_log]
      exact ⟨rfl, c.view_call Hub.unlogged_line ev h⟩
    | script a => cases log
    | recorder number => cases log

/-- What is attached to a bus is attached to what the links see of it. -/
theorem attach_alike (f f' : ScriptBus → Except BusError Unit × ScriptBus)
    (visible : ∀ b, f' (b.without fun q => q.log?.isSome) =
      Prod.map id (Bus.without fun q => q.log?.isSome) (f b))
    {h h' : Hub} (same : h.unlogged = h'.unlogged) :
    Alike Hub.unlogged Hub.unlogged (Reply.ofResult (f h.bus).1, h.withBus (f h.bus).2)
      (Reply.ofResult (f h'.bus).1, h'.withBus (f h'.bus).2) := by
  obtain ⟨replied, after⟩ := Bus.called_alike f f' visible (congrArg Prod.fst same)
  exact ⟨congrArg Reply.ofResult replied, Hub.unlogged_withBus same after⟩

theorem subscribe_alike (subs : List (String × List Clause)) {h h' : Hub}
    (same : h.unlogged = h'.unlogged) :
    Alike Hub.unlogged Hub.unlogged
      (Reply.ofResult (h.bus.subscribe subs).1, h.withBus (h.bus.subscribe subs).2)
      (Reply.ofResult (h'.bus.subscribe subs).1, h'.withBus (h'.bus.subscribe subs).2) :=
  attach_alike (Bus.subscribe · subs)
    (Bus.subscribe · (subs.map fun s => (s.1, s.2.filter fun q => !q.log?.isSome)))
    (fun b => b.subscribe_without _ subs) same

/-- Operations see of a hub what the links see of it. -/
theorem carryOut_alike {k : Conduct Hub Action Made Clause}
    (follows : k.Follows k (fun q => q.log?.isSome) Hub.unlogged Hub.unlogged) (op : BusOp)
    {h h' : Hub} (same : h.unlogged = h'.unlogged) :
    Alike Hub.unlogged Hub.unlogged (carryOut k op h) (carryOut k op h') := by
  have buses : (h.bus.without fun q => q.log?.isSome) = h'.bus.without fun q => q.log?.isSome :=
    congrArg Prod.fst same
  cases op with
  | ensureLifecycle =>
    refine ⟨rfl, Hub.unlogged_withBus same ?_⟩
    rw [← Bus.ensureLifecycle_without, ← Bus.ensureLifecycle_without]
    exact congrArg Bus.ensureLifecycle buses
  | add spec =>
    obtain ⟨r, b, b', added, added', after⟩ :=
      (Bus.called_alike (Bus.add · spec) (Bus.add · spec) (Bus.add_without _ · spec)
        buses).exists_eq
    simp only [carryOut, added, added']
    cases r <;> exact ⟨rfl, Hub.unlogged_withBus same after⟩
  | ensure spec =>
    obtain ⟨ensured, after⟩ := Bus.called_alike (Bus.ensure · spec) (Bus.ensure · spec)
      (Bus.ensure_without _ · spec) buses
    exact ⟨congrArg (fun spec => Reply.spec (some spec)) ensured, Hub.unlogged_withBus same after⟩
  | deleteEvent topic | deleteTopic topic =>
    obtain ⟨deleted, after⟩ := Bus.called_alike (Bus.delete · topic) (Bus.delete · topic)
      (Bus.delete_without _ · topic) buses
    exact ⟨congrArg Reply.flag deleted, Hub.unlogged_withBus same after⟩
  | spec topic =>
    have found := Bus.looked_eq (Bus.spec? · topic) (Bus.spec?_without _ · topic) buses
    exact ⟨congrArg Reply.spec found, same⟩
  | has topic =>
    have found := Bus.looked_eq (Bus.hasTopic · topic) (Bus.hasTopic_without _ · topic) buses
    exact ⟨congrArg Reply.flag found, same⟩
  | specs => exact ⟨congrArg Reply.specs (Bus.looked_eq _ (Bus.specs_without _) buses), same⟩
  | names => exact ⟨congrArg Reply.names (Bus.looked_eq _ (Bus.names_without _) buses), same⟩
  | render =>
    refine ⟨congrArg Reply.text (Bus.looked_eq _ (fun b => ?_) buses), same⟩
    simp only [Bus.render, Bus.names_without]
  | onEvent topic a | onTopic topic a =>
    exact attach_alike (Bus.onTopic · topic (.script a)) (Bus.onTopic · topic (.script a))
      (fun b => b.onTopic_without _ topic rfl) same
  | listenEvent topic a | listenTopic topic a =>
    exact attach_alike (Bus.listen · topic a) (Bus.listen · topic a)
      (fun b => b.listen_without _ topic a) same
  | subscribe subs => exact subscribe_alike _ same
  | subscribeLog withProgress => exact subscribe_alike _ same
  | dispatch ev init =>
    obtain ⟨delivered, after⟩ := follows.dispatch_alike buses ev init same
    exact ⟨congrArg Reply.ofDelivery delivered, after⟩

/-- The induction is on how deep operations may still nest. -/
theorem unlogged_nested : ∀ (n : Nat) (op : BusOp) {h h' : Hub}, h.unlogged = h'.unlogged →
    (nested n op h).unlogged = (nested n op h').unlogged
  | 0, _, _, _, same => Hub.unlogged_note same _
  | n + 1, op, _, _, same => by
    obtain ⟨reply, t, t', done, done', after⟩ :=
      (carryOut_alike (follows_conduct (unlogged_nested n)) op same).exists_eq
    simp only [nested, done, done']
    exact Hub.unlogged_note after _

/-- A hub, where the lines of the log are notes among others. -/
def loggedBus : LoggedBus Hub (List Entry × Nat) Action Made Clause where
  conduct := links
  bus := Hub.bus
  rest h := h.unlogged.2
  write l h := h.note (.line l)
  clause := .log
  log? := Clause.log?
  log?_clause _ := rfl
  call_log q c is_c ev h := by
    cases q with
    | log c' =>
      obtain rfl := Option.some.inj is_c
      exact call_log _ c' ev h
    | script a => cases is_c
    | recorder number => cases is_c
  bus_write _ _ := rfl
  rest_write l h own := congrArg Prod.snd (Hub.unlogged_line l h own)
  others := matches_conduct (unlogged_nested depth)

end Script

namespace Hub

theorem performAll_alike (ops : List BusOp) {h h' : Hub} (same : h.unlogged = h'.unlogged) :
    Alike unlogged unlogged (h.performAll ops) (h'.performAll ops) := by
  induction ops generalizing h h' with
  | nil => exact ⟨rfl, same⟩
  | cons op ops ih =>
    have step : Alike unlogged unlogged (h.perform op) (h'.perform op) :=
      Script.carryOut_alike Script.loggedBus.follows op same
    obtain ⟨r, t, t', done, done', after⟩ := step.exists_eq
    obtain ⟨rs, same'⟩ := ih after
    simp only [performAll, done, done']
    exact ⟨congrArg (r :: ·) rs, same'⟩

/-- A log writer that is subscribed to a hub is not noticed by anything that is done there. -/
theorem subscribeLog_unnoticed (h : Hub) (w : LogWriter)
    (there : ∀ c, w.Has c → h.bus.hasTopic c.topic = true) :
    ∃ h', h.perform (.subscribeLog w.withProgress) = (.done, h') ∧
      ∀ ops, Alike unlogged unlogged (h'.performAll ops) (h.performAll ops) := by
  obtain ⟨b, done, -⟩ := Script.loggedBus.unnoticed w h there
  have shown := Script.loggedBus.without_of_subscribe done
  have subscribed : h.bus.subscribe (w.subscriptions.map fun s => (s.1, s.2.map .log)) =
      (.ok (), b) := done
  have same : (h.withBus b).unlogged = (h.withBus h.bus).unlogged := unlogged_withBus rfl shown
  refine ⟨h.withBus b, ?_, fun ops => performAll_alike ops same⟩
  simp only [perform, Script.carryOut, subscribed, Reply.ofResult]

end Hub

/-! ## §5 Where a log clause stands in the line -/

/-- A link is reached just if all links before it let the event pass. -/
theorem RunUntilFalse.reached_iff {α : Type} {before after : List α} {link : α}
    {outs : List (Outcome Bool)} (ran : RunUntilFalse (before ++ link :: after) outs) :
    before.length < outs.length ↔ ∀ out ∈ outs.take before.length, passes out = true := by
  constructor
  · intro reached out mem
    refine ran.passed out ?_
    rw [List.dropLast_eq_take]
    exact (List.take_subset_take_left _ (Nat.le_sub_one_of_lt reached)) mem
  · intro passed
    by_contra ended
    have le : outs.length ≤ before.length := Nat.le_of_not_lt ended
    obtain ⟨out, last, stops⟩ := ran.stopped (by
      rw [List.length_append, List.length_cons]
      omega)
    rw [List.take_of_length_le le] at passed
    rw [passed out (List.mem_of_getLast? last)] at stops
    cases stops

namespace Conduct

variable {k : Conduct σ L I C} {ev : Event}

/-- The passage through some calls can be cut between two of them. -/
theorem Passage.cut {s t : σ} {more : List (LinkCall L I C)} :
    ∀ {calls : List (LinkCall L I C)}, k.Passage ev s (calls ++ more) t →
      ∃ s₁, k.Passage ev s calls s₁ ∧ k.Passage ev s₁ more t := by
  intro calls passage
  induction calls generalizing s with
  | nil => exact ⟨s, .done, passage⟩
  | cons call calls ih =>
    cases passage with
    | make made rest =>
      obtain ⟨s₁, first, second⟩ := ih rest
      exact ⟨s₁, .make made first, second⟩
    | answer answered rest =>
      obtain ⟨s₁, first, second⟩ := ih rest
      exact ⟨s₁, .answer answered first, second⟩
    | panic panicked rest =>
      obtain ⟨s₁, first, second⟩ := ih rest
      exact ⟨s₁, .panic panicked first, second⟩

/-- The passage of a dispatch, cut before a link that is reached. -/
theorem Serves.cut {init : Option Init} {chain : Chain L C} {is : List I}
    {outs : List (Outcome Bool)} {s t : σ} (serves : k.Serves ev init chain is outs s t)
    {before after : List (Link I C)} {link : Link I C}
    (split : chain.line is = before ++ link :: after) (reached : before.length < outs.length) :
    ∃ s₁ out, outs[before.length]? = some out ∧
      k.Passage ev s (makings init chain.listeners is ++ List.zipWith .run before outs) s₁ ∧
      k.Passage ev s₁
        (.run link out :: List.zipWith .run after (outs.drop (before.length + 1))) t := by
  have calls : List.zipWith (LinkCall.run (L := L)) (before ++ link :: after) outs =
      List.zipWith .run before outs ++
        .run link outs[before.length] ::
          List.zipWith .run after (outs.drop (before.length + 1)) := by
    clear serves split
    induction before generalizing outs with
    | nil =>
      cases outs with
      | nil => cases reached
      | cons out outs => rfl
    | cons first before ih =>
      cases outs with
      | nil => cases reached
      | cons out outs => simp [ih (Nat.lt_of_succ_lt_succ reached)]
  have passage := serves.passage
  rw [split, calls, ← List.append_assoc] at passage
  obtain ⟨s₁, to_here, from_here⟩ := passage.cut
  exact ⟨s₁, _, List.getElem?_eq_getElem reached, to_here, from_here⟩

end Conduct

namespace LoggedBus

variable (g : LoggedBus σ ρ L I C)

theorem reports {ev : Event} {init : Option Init} {chain : Chain L C} {is : List I}
    {outs : List (Outcome Bool)} {s t : σ} (serves : g.conduct.Serves ev init chain is outs s t)
    {before after : List (Link I C)} {q : C} {c : LogClause}
    (split : chain.line is = before ++ .clause q :: after) (log : g.log? q = some c) :
    g.Reports ev init chain is outs s t before c after := by
  have ran := serves.ran
  rw [split] at ran
  refine ⟨ran.reached_iff, fun reached => ?_⟩
  obtain ⟨s₁, out, at_q, to_here, from_here⟩ := serves.cut split reached
  have call : g.conduct.run ev (.clause q) s₁ = c.call g.write ev s₁ := g.call_log q c log ev s₁
  cases from_here with
  | answer answered rest =>
    obtain ⟨passed, rfl⟩ := Prod.mk.inj (call.symm.trans answered)
    exact ⟨s₁, at_q.trans (congrArg some passed.symm), to_here, rest⟩
  | panic panicked rest => cases (Prod.mk.inj (call.symm.trans panicked)).1

theorem isExact : g.Exact := by
  intro ev init s t delivered
  cases found : (g.bus s).chain? ev.topic with
  | none =>
    rw [Conduct.dispatch, found] at delivered
    cases delivered
  | some chain =>
    rw [Conduct.dispatch_of_chain found] at delivered
    by_cases made : g.conduct.MakesAll init chain.listeners s
    · obtain ⟨is, outs, t', delivered', serves⟩ := Conduct.deliver_serves ev made
      rw [delivered] at delivered'
      obtain ⟨-, rfl⟩ := Prod.mk.inj delivered'
      exact ⟨chain, is, outs, rfl, serves, fun _ _ _ _ split log => g.reports serves split log⟩
    · obtain ⟨p, t', broken, -⟩ := Conduct.deliver_breaks ev made
      rw [delivered] at broken
      cases broken

end LoggedBus

/-! ## §6 The log writer -/

/-- On a bus with its topics a log writer can be subscribed, and nobody takes notice: of any
sequence of dispatches the results are the same, the other links are called in the same order
with the same things before them, whatever they do and however they depend on what they see.
That goes for scripted links too, which operate on the bus inside of each other. A log clause
that a dispatch reaches writes one line if the event is of the kind that belongs to its topic,
with what the event holds, and none otherwise; wherever it stands, the delivery goes on. -/
theorem log_writer_unnoticed :
    (∀ {σ ρ L I C : Type} (g : LoggedBus σ ρ L I C) (w : LogWriter) (s : σ),
      (∀ c, w.Has c → (g.bus s).hasTopic c.topic = true) →
        ∃ b, (g.bus s).subscribe (g.subscriptions w) = (.ok (), b) ∧ g.Unnoticed w s b) ∧
    (∀ (h : Hub) (w : LogWriter), (∀ c, w.Has c → h.bus.hasTopic c.topic = true) →
      ∃ h', h.perform (.subscribeLog w.withProgress) = (.done, h') ∧
        ∀ ops, Alike Hub.unlogged Hub.unlogged (h'.performAll ops) (h.performAll ops)) ∧
    (∀ {σ ρ L I C : Type} (g : LoggedBus σ ρ L I C), g.Exact) ∧
    ∀ (c : LogClause) (ev : Event),
      ((c.line? ev).isSome = true ↔ LogClause.for? ev = some c) ∧
      (LogClause.for? ev = some c → ev.topic = c.topic) ∧
      ∀ l, c.line? ev = some l → l.Tells ev :=
  ⟨LoggedBus.unnoticed, Hub.subscribeLog_unnoticed, LoggedBus.isExact, fun c ev =>
    ⟨c.isSome_line?_iff ev, LogClause.topic_of_for?, fun _ => LogClause.tells_of_line?⟩⟩

namespace Sample

/-- A hub with the lifecycle topics, where a clause panics as a job is picked up. -/
def alarmedHub : Hub :=
  let alarm : Action := .mk "alarm" true (some (.said "no")) [.names] none []
  { bus := (Bus.empty.ensureLifecycle.onTopic Topic.beforeHandle (.script alarm)).2 }

end Sample

open Sample

/-- The lines that log clauses have written to the journal of a hub. -/
def Hub.logLines (h : Hub) : List LogLine :=
  (h.journal.toList.filter Entry.isLogLine).filterMap fun e =>
    match e.note with
    | .line l => some l
    | _ => none

/-- The log writer reports the job although the clause before it panics, is silent about an
event of somebody else on the same topic, and shows in nothing else. -/
theorem log_writer_unnoticed_startled :
    let events : List (Event × Option Init) :=
      [(.before { (default : Job) with name := "j" }, none),
        (.user Topic.beforeHandle "mine", none)]
    (∃ b, alarmedHub.bus.subscribe (Script.loggedBus.subscriptions ⟨true⟩) = (.ok (), b) ∧
      Script.loggedBus.Unnoticed ⟨true⟩ alarmedHub b ∧
      (Script.links.dispatchAll Hub.bus events { alarmedHub with bus := b }).2.logLines =
        [⟨.debug, LogClause.source, "job started", [("job", "j")]⟩]) ∧
    ∃ h', alarmedHub.perform (.subscribeLog true) = (.done, h') ∧
      Alike Hub.unlogged Hub.unlogged
        (h'.performAll (events.map fun e => .dispatch e.1 e.2))
        (alarmedHub.performAll (events.map fun e => .dispatch e.1 e.2)) := by
  intro events
  have there : ∀ c, LogWriter.Has ⟨true⟩ c → alarmedHub.bus.hasTopic c.topic = true := by
    intro c _
    cases c <;> rfl
  obtain ⟨b, done, unnoticed⟩ := log_writer_unnoticed.1 Script.loggedBus ⟨true⟩ alarmedHub there
  obtain ⟨h', done', same⟩ := log_writer_unnoticed.2.1 alarmedHub ⟨true⟩ there
  refine ⟨⟨b, done, unnoticed, ?_⟩, h', done', same _⟩
  obtain rfl : (alarmedHub.bus.subscribe (Script.loggedBus.subscriptions ⟨true⟩)).2 = b :=
    congrArg Prod.snd done
  rfl

end JobPool
