/-
JobPool.Proofs.Bus.Passage — a dispatch serves the chain that its topic had when it began.

Making listeners and running links are loops over lists that are fixed beforehand. Each is
shown to be a passage of the state through the calls it makes (`passage_makeAll`,
`runLinks_spec`), by induction on the list; a dispatch is the one after the other. What the
calls do to the bus on the way is of no account.
-/
import JobPool.Bus.Passage
import JobPool.Bus.Script

namespace JobPool
namespace Conduct

variable {σ L I C : Type} {k : Conduct σ L I C} {ev : Event} {init : Option Init}

theorem Passage.trans {s s₁ s' : σ} {calls more : List (LinkCall L I C)}
    (first : k.Passage ev s calls s₁) (second : k.Passage ev s₁ more s') :
    k.Passage ev s (calls ++ more) s' := by
  induction first with
  | done => exact second
  | make h _ ih => exact .make h (ih second)
  | answer h _ ih => exact .answer h (ih second)
  | panic h _ ih => exact .panic h (ih second)

/-! ## Making the listeners -/

theorem passage_makeAll (ev : Event) : ∀ {ls : List L} {s : σ}, k.MakesAll init ls s →
    ∃ is s', k.makeAll init ls s = (.ok is, s') ∧ is.length = ls.length ∧
      k.Passage ev s (makings init ls is) s'
  | [], s, _ => ⟨[], s, rfl, rfl, .done⟩
  | l :: ls, s, ⟨i, s₁, made, rest⟩ => by
    obtain ⟨is, s', makes, length, passage⟩ := passage_makeAll ev rest
    refine ⟨i :: is, s', ?_, congrArg (· + 1) length, .make made passage⟩
    simp only [makeAll, made, makes]

theorem passage_of_not_makesAll (ev : Event) :
    ∀ {ls : List L} {s : σ}, ¬ k.MakesAll init ls s →
    ∃ before l after is p s', ls = before ++ l :: after ∧
      k.makeAll init ls s = (.error p, s') ∧ is.length = before.length ∧
      k.Passage ev s (makings init before is ++ [.make l init (.error p)]) s'
  | [], _, broken => absurd trivial broken
  | l :: ls, s, broken => by
    cases made : k.make l init s with
    | mk out s₁ =>
      cases out with
      | error p =>
        refine ⟨[], l, ls, [], p, s₁, rfl, ?_, rfl, .make made .done⟩
        simp only [makeAll, made]
      | ok i =>
        have later : ¬ k.MakesAll init ls s₁ := fun rest => broken ⟨i, s₁, made, rest⟩
        obtain ⟨before, l', after, is, p, s', split, breaks, length, passage⟩ :=
          passage_of_not_makesAll ev later
        refine ⟨l :: before, l', after, i :: is, p, s', congrArg (l :: ·) split, ?_,
          congrArg (· + 1) length, .make made passage⟩
        simp only [makeAll, made, breaks]

/-! ## Running the links -/

/-- A contained panic leads on like an answer `true`. -/
theorem passage_guarded (ev : Event) (link : Link I C) (s : σ) : ∃ out,
    (k.guarded ev (k.run ev link) s).1 = passes out ∧
      k.Passage ev s [.run link out] (k.guarded ev (k.run ev link) s).2 := by
  cases ran : k.run ev link s with
  | mk out s₁ =>
    refine ⟨out, ?_⟩
    cases out with
    | ok pass =>
      simp only [guarded, ran]
      exact ⟨rfl, .answer ran .done⟩
    | error p =>
      simp only [guarded, ran]
      exact ⟨rfl, .panic ran .done⟩

theorem runUntilFalse_cons {α : Type} {link : α} {links : List α} {out : Outcome Bool}
    {outs : List (Outcome Bool)} (goes_on : passes out = true) (h : RunUntilFalse links outs) :
    RunUntilFalse (link :: links) (out :: outs) where
  length_le := Nat.succ_le_succ h.length_le
  passed out' mem := by
    cases outs with
    | nil => cases mem
    | cons second outs =>
      rcases List.mem_cons.1 mem with rfl | mem
      · exact goes_on
      · exact h.passed out' mem
  stopped short := by
    obtain ⟨last, is_last, stops⟩ := h.stopped (Nat.lt_of_succ_lt_succ short)
    refine ⟨last, ?_, stops⟩
    rw [List.getLast?_cons, is_last]
    rfl

theorem runLinks_spec (ev : Event) : ∀ (links : List (Link I C)) (s : σ), ∃ outs,
    RunUntilFalse links outs ∧
      k.Passage ev s (List.zipWith .run links outs) (k.runLinks ev (links.map (k.run ev)) s)
  | [], s => ⟨[], ⟨Nat.le_refl 0, nofun, nofun⟩, .done⟩
  | link :: links, s => by
    obtain ⟨out, goes_on, first⟩ := passage_guarded (k := k) ev link s
    cases ran : k.guarded ev (k.run ev link) s with
    | mk pass s₁ =>
      rw [ran] at goes_on first
      simp only [List.map_cons, runLinks, ran]
      cases pass with
      | true =>
        obtain ⟨outs, until_false, rest⟩ := runLinks_spec ev links s₁
        exact ⟨out :: outs, runUntilFalse_cons goes_on.symm until_false, first.trans rest⟩
      | false =>
        -- the first `false`: the links behind are not run
        refine ⟨[out], ⟨by simp, nofun, fun _ => ⟨out, rfl, goes_on.symm⟩⟩, ?_⟩
        simpa using first

/-- With all listeners made, a delivery is the run over the line. -/
theorem deliver_of_makeAll (ev : Event) {chain : Chain L C} {s s₁ : σ} {is : List I}
    (makes : k.makeAll init chain.listeners s = (.ok is, s₁)) :
    k.deliver chain ev init s =
      (.delivered, k.runLinks ev ((chain.line is).map (k.run ev)) s₁) := by
  simp only [deliver, makes, Chain.line, List.map_append, List.map_map]
  rfl

theorem deliver_serves (ev : Event) {chain : Chain L C} {s : σ}
    (made : k.MakesAll init chain.listeners s) :
    ∃ is outs s', k.deliver chain ev init s = (.delivered, s') ∧
      k.Serves ev init chain is outs s s' := by
  obtain ⟨is, s₁, makes, length, making⟩ := passage_makeAll ev made
  obtain ⟨outs, until_false, running⟩ := runLinks_spec (k := k) ev (chain.line is) s₁
  exact ⟨is, outs, _, deliver_of_makeAll ev makes, length, until_false, making.trans running⟩

theorem deliver_breaks (ev : Event) {chain : Chain L C} {s : σ}
    (broken : ¬ k.MakesAll init chain.listeners s) :
    ∃ p s', k.deliver chain ev init s = (.unwound p, s') ∧ k.Breaks ev init chain p s s' := by
  obtain ⟨before, l, after, is, p, s', split, breaks, length, passage⟩ :=
    passage_of_not_makesAll ev broken
  refine ⟨p, s', ?_, before, l, after, is, split, length, passage⟩
  simp only [deliver, breaks]

theorem dispatch_of_chain {bus : Bus L C} {chain : Chain L C}
    (found : bus.chain? ev.topic = some chain) (s : σ) :
    k.dispatch bus ev init s = k.deliver chain ev init s := by
  simp only [dispatch, found]

end Conduct

/-! ## A dispatch -/

/-- Links may do anything to a state that holds the bus: register, delete, attach, dispatch.
A dispatch in such a state, on a registered topic and with no panic while listeners are made,
is delivered. It consists of calls to the links that the topic had when it began: each
listener is made once with the init data, before any link runs; then the instances and the
clauses run in order, up to the first `false`. A bus that has been changed elsewhere since
makes no difference, nor does anything that the calls register or delete. -/
theorem dispatch_serves {σ L I C : Type} (k : Conduct σ L I C) (busOf : σ → Bus L C)
    (ev : Event) (init : Option Init) {s : σ} {chain : Chain L C}
    (found : (busOf s).chain? ev.topic = some chain)
    (made : k.MakesAll init chain.listeners s) :
    ∃ is outs s', k.dispatch (busOf s) ev init s = (.delivered, s') ∧
      k.Serves ev init chain is outs s s' ∧
      ∀ bus : Bus L C, bus.chain? ev.topic = some chain →
        k.dispatch bus ev init s = (.delivered, s') := by
  obtain ⟨is, outs, s', delivered, serves⟩ := Conduct.deliver_serves ev made
  have by_chain : ∀ bus : Bus L C, bus.chain? ev.topic = some chain →
      k.dispatch bus ev init s = (.delivered, s') := fun bus has =>
    (Conduct.dispatch_of_chain has s).trans delivered
  exact ⟨is, outs, s', by_chain _ found, serves, by_chain⟩

namespace Sample

/-- A listener that deletes its topic while it is made. -/
def selfDeleting : Action := .mk "vanishing" true none [] none [.deleteTopic "p"]

/-- A clause that puts the topic back with another clause, dispatches to it, and panics. -/
def topicRestoring : Action :=
  .mk "returning" true (some (.said "lost"))
    [.add ⟨"p", none⟩, .onTopic "p" (.mk "fresh" true none [] none []),
      .dispatch (.user "p" "inner") none] none []

/-- A clause that ends the delivery. -/
def deliveryEnding : Action := .mk "closing" false none [] none []

/-- A hub whose one topic has these links, and a clause behind the closing one. -/
def selfChangingHub : Hub :=
  let bus := ((Bus.empty.add ⟨"p", none⟩).2.listen "p" selfDeleting).2
  let clauses : List Clause := [.script topicRestoring, .script deliveryEnding, .recorder 0]
  { bus := (bus.subscribe [("p", clauses)]).2 }

end Sample

open Sample

/-- The names of the links that were made or ran. -/
def Hub.called (h : Hub) : List String :=
  h.journal.toList.filterMap fun e =>
    match e.note with
    | .made tag _ => some ("made " ++ tag)
    | .handled tag .. | .called tag _ => some tag
    | _ => none

/-- The topic is deleted, put back and dispatched to on the way. The inner event goes to the
new clause alone; the outer one goes on along the old chain, past a panic, to the answer
`false`. -/
theorem dispatch_serves_unruly : ∃ chain is outs s',
    selfChangingHub.bus.chain? "p" = some chain ∧
      Script.links.dispatch selfChangingHub.bus (.user "p" "outer") none selfChangingHub =
        (.delivered, s') ∧
      Script.links.Serves (.user "p" "outer") none chain is outs selfChangingHub s' ∧
      s'.called = ["made vanishing", "vanishing", "returning", "fresh", "closing"] ∧
      (s'.bus.chain? "p").map (fun c => (c.listeners.length, c.clauses.length)) = some (0, 1) := by
  have found : selfChangingHub.bus.chain? "p" = some _ := rfl
  obtain ⟨is, outs, s', delivered, serves, -⟩ :=
    dispatch_serves Script.links Hub.bus (.user "p" "outer") none found ⟨_, _, rfl, trivial⟩
  obtain rfl := congrArg Prod.snd delivered
  exact ⟨_, is, outs, _, rfl, delivered, serves, rfl, rfl⟩

end JobPool
