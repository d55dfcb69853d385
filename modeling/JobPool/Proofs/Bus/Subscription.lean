/-
JobPool.Proofs.Bus.Subscription — a subscription takes effect on all its topics or on none.

Whether all topics are there is looked up before anything is attached, and attaching takes no
topic away: one pass over the list cannot be contradicted by the other. What the chains are
after the second pass is `Bus.chain?_foldl_attach`. New here is what stays (the names and the
specs, `names_subscribe`, `specs_subscribe`) and what a dispatch makes of clauses that were
added behind others: the run over the old links is a part of the run over all of them
(`runLinks_append`).
-/
import JobPool.Bus.Subscription
import JobPool.Proofs.Bus.Passage
import JobPool.Proofs.Bus.Register

namespace JobPool

variable {L C : Type}

/-! ## What stays -/

/-- What is read off each entry is not changed where it is read alike off the changed value. -/
theorem NameMap.map_entries_modify {α β : Type} (m : NameMap α) (name : String) (f : α → α)
    (g : String × α → β) (same : ∀ n a, g (n, f a) = g (n, a)) :
    (m.modify name f).entries.map g = m.entries.map g := by
  simp only [modify, List.map_map]
  apply List.map_congr_left
  intro e _
  simp only [Function.comp_apply]
  split
  · exact same e.1 e.2
  · rfl

theorem NameMap.modify_of_fixed {α : Type} (m : NameMap α) (name : String) {f : α → α}
    (fixed : ∀ a, f a = a) : m.modify name f = m := by
  apply NameMap.eq_of_entries
  refine (List.map_congr_left fun e _ => ?_).trans (List.map_id _)
  rw [fixed]
  exact ite_self e

namespace Bus

/-- A change of chains does not show where it is not read. -/
theorem map_entries_attach {β : Type} (b : Bus L C) (topic : String) (f : Chain L C → Chain L C)
    (g : String × Chain L C → β) (same : ∀ n chain, g (n, f chain) = g (n, chain)) :
    (b.attach topic f).2.topics.entries.map g = b.topics.entries.map g := by
  unfold attach
  split
  · exact b.topics.map_entries_modify topic f g same
  · rfl

theorem map_entries_foldl_attach {β : Type} (g : String × Chain L C → β)
    (same : ∀ n cs chain, g (n, Chain.addClauses cs chain) = g (n, chain))
    (subs : List (String × List C)) (b : Bus L C) :
    (subs.foldl (fun b s => (b.attach s.1 (Chain.addClauses s.2)).2) b).topics.entries.map g =
      b.topics.entries.map g := by
  induction subs generalizing b with
  | nil => rfl
  | cons s subs ih =>
    rw [List.foldl_cons, ih]
    exact b.map_entries_attach s.1 _ g fun n chain => same n s.2 chain

/-! ## All topics or none -/

variable {b : Bus L C} {subs : List (String × List C)}

theorem subscribe_of_all (all : ∀ s ∈ subs, b.hasTopic s.1 = true) :
    b.subscribe subs =
      (.ok (), subs.foldl (fun b s => (b.attach s.1 (Chain.addClauses s.2)).2) b) := by
  have none_missing : subs.find? (fun s => !b.hasTopic s.1) = none := by
    simpa using all
  simp only [subscribe, none_missing]

/-- A subscription that lists no clauses attaches nothing. -/
theorem subscribe_nothing (nothing : ∀ s ∈ subs, s.2 = []) : (b.subscribe subs).2 = b := by
  have attached : (subs.foldl (fun b s => (b.attach s.1 (Chain.addClauses s.2)).2) b) = b := by
    induction subs with
    | nil => rfl
    | cons s subs ih =>
      obtain ⟨first, rest⟩ := List.forall_mem_cons.1 nothing
      have same : (b.attach s.1 (Chain.addClauses s.2)).2 = b := by
        unfold attach
        split
        · exact congrArg Bus.mk (b.topics.modify_of_fixed s.1 (by rw [first]; exact addClauses_nil))
        · rfl
      rw [List.foldl_cons, same]
      exact ih rest
  unfold subscribe
  split
  · rfl
  · exact attached

/-- Where a topic is missing, there is a first one. -/
theorem subscribe_of_missing (absent : ¬ ∀ s ∈ subs, b.hasTopic s.1 = true) :
    ∃ before s after, subs = before ++ s :: after ∧
      (∀ r ∈ before, b.hasTopic r.1 = true) ∧ b.hasTopic s.1 = false ∧
      b.subscribe subs = (.error (.topicNotFound s.1), b) := by
  cases found : subs.find? (fun s => !b.hasTopic s.1) with
  | none => exact absurd (by simpa using found) absent
  | some s =>
    obtain ⟨missing, before, after, split, there⟩ := List.find?_eq_some_iff_append.1 found
    refine ⟨before, s, after, split, by simpa using there, by simpa using missing, ?_⟩
    simp only [subscribe, found]

end Bus

/-! ## Links behind others -/

namespace Conduct

variable {σ I : Type} {k : Conduct σ L I C} {ev : Event} {init : Option Init}

/-- A run over links is where a run over them and others behind them begins. -/
theorem runLinks_append (ev : Event) (added : List (Link I C)) :
    ∀ (links : List (Link I C)) (s : σ), ∃ outs more,
      RunUntilFalse links outs ∧
      k.Passage ev s (List.zipWith .run links outs) (k.runLinks ev (links.map (k.run ev)) s) ∧
      RunUntilFalse (links ++ added) (outs ++ more) ∧
      k.Passage ev s (List.zipWith .run (links ++ added) (outs ++ more))
        (k.runLinks ev ((links ++ added).map (k.run ev)) s)
  | [], s => by
    obtain ⟨more, until_false, running⟩ := runLinks_spec (k := k) ev added s
    exact ⟨[], more, ⟨Nat.le_refl 0, by simp, by simp⟩, .done, until_false, running⟩
  | link :: links, s => by
    obtain ⟨out, goes_on, first⟩ := passage_guarded (k := k) ev link s
    cases ran : k.guarded ev (k.run ev link) s with
    | mk pass s₁ =>
      rw [ran] at goes_on first
      simp only [List.cons_append, List.map_cons, runLinks, ran]
      cases pass with
      | true =>
        obtain ⟨outs, more, until_false, running, until_false', running'⟩ :=
          runLinks_append ev added links s₁
        exact ⟨out :: outs, more, runUntilFalse_cons goes_on.symm until_false,
          first.trans running, runUntilFalse_cons goes_on.symm until_false', first.trans running'⟩
      | false =>
        -- the first `false`: of the links behind, old or added, none is run
        have ends : ∀ links : List (Link I C), RunUntilFalse (link :: links) [out] := by
          intro links
          exact ⟨by simp, by simp, fun _ => ⟨out, rfl, goes_on.symm⟩⟩
        refine ⟨[out], [], ends links, ?_, ends (links ++ added), ?_⟩
        · simpa using first
        · simpa using first

/-- A chain with clauses added is served as it was, up to its end; then come the clauses. -/
theorem deliver_addClauses (ev : Event) (cs : List C) {chain : Chain L C} {s : σ}
    (made : k.MakesAll init chain.listeners s) :
    ∃ is outs more s₁ s₂,
      k.deliver chain ev init s = (.delivered, s₁) ∧ k.Serves ev init chain is outs s s₁ ∧
      k.deliver (Bus.Chain.addClauses cs chain) ev init s = (.delivered, s₂) ∧
      k.Serves ev init (Bus.Chain.addClauses cs chain) is (outs ++ more) s s₂ := by
  obtain ⟨is, s', makes, length, making⟩ := passage_makeAll ev made
  obtain ⟨outs, more, until_false, running, until_false', running'⟩ :=
    runLinks_append (k := k) ev (cs.map .clause) (chain.line is) s'
  have line : (Bus.Chain.addClauses cs chain).line is = chain.line is ++ cs.map .clause := by
    simp [Chain.line, Bus.Chain.addClauses]
  rw [← line] at until_false' running'
  exact ⟨is, outs, more, _, _, deliver_of_makeAll ev makes,
    ⟨length, until_false, making.trans running⟩,
    deliver_of_makeAll ev makes,
    ⟨length, until_false', making.trans running'⟩⟩

theorem deliver_addClauses_of_not_makesAll (ev : Event) (cs : List C) {chain : Chain L C} {s : σ}
    (broken : ¬ k.MakesAll init chain.listeners s) :
    k.deliver (Bus.Chain.addClauses cs chain) ev init s = k.deliver chain ev init s := by
  obtain ⟨-, -, -, -, p, s', -, breaks, -⟩ := passage_of_not_makesAll ev broken
  simp only [deliver, Bus.Chain.addClauses, breaks]

end Conduct

/-! ## A subscription -/

namespace Bus

theorem subscribed_of_all {b : Bus L C} {subs : List (String × List C)}
    (all : ∀ s ∈ subs, b.hasTopic s.1 = true) :
    ∃ b', b.subscribe subs = (.ok (), b') ∧ b.Subscribed subs b' := by
  refine ⟨_, subscribe_of_all all, ?_⟩
  constructor
  case names => exact map_entries_foldl_attach Prod.fst (fun _ _ _ => rfl) subs b
  case specs =>
    simp only [specs, NameMap.values, List.map_map]
    exact map_entries_foldl_attach _ (fun _ _ _ => rfl) subs b
  case chains => exact chain?_foldl_attach subs b
  case served =>
    intro σ I k ev init s chain found made
    obtain ⟨is, outs, more, s₁, s₂, first, served, second, served'⟩ :=
      Conduct.deliver_addClauses ev (listed subs ev.topic) made
    have found' := chain?_foldl_attach subs b ev.topic
    rw [found] at found'
    exact ⟨is, outs, more, s₁, s₂, (Conduct.dispatch_of_chain found s).trans first, served,
      (Conduct.dispatch_of_chain found' s).trans second, served'⟩
  case unserved =>
    intro σ I k ev init s broken
    have found' := chain?_foldl_attach subs b ev.topic
    cases found : b.chain? ev.topic with
    | none =>
      rw [found] at found'
      simp only [Conduct.dispatch, found, found', Option.map_none]
    | some chain =>
      rw [found] at found'
      rw [Conduct.dispatch_of_chain found, Conduct.dispatch_of_chain found']
      exact Conduct.deliver_addClauses_of_not_makesAll ev _ (broken chain found)

end Bus

/-- A subscription whose topics are all there adds its clauses to their chains, those of every
mention in order, and changes nothing else: what is registered, the specs and the listeners stay,
and dispatches differ in the added clauses only. A subscription with a topic that is not there
names the first of them and leaves the whole bus as it was. -/
theorem subscribe_atomic (b : Bus L C) (subs : List (String × List C)) :
    ((∀ s ∈ subs, b.hasTopic s.1 = true) →
        ∃ b', b.subscribe subs = (.ok (), b') ∧ b.Subscribed subs b') ∧
      ((¬ ∀ s ∈ subs, b.hasTopic s.1 = true) →
        ∃ before s after, subs = before ++ s :: after ∧
          (∀ r ∈ before, b.hasTopic r.1 = true) ∧ b.hasTopic s.1 = false ∧
          b.subscribe subs = (.error (.topicNotFound s.1), b)) :=
  ⟨Bus.subscribed_of_all, Bus.subscribe_of_missing⟩

namespace Sample

/-- A bus with two topics, one of which has a clause. -/
def twoTopicBus : Bus Nat Nat :=
  ((((Bus.empty.add ⟨"a", none⟩).2.add ⟨"b", some "second"⟩).2).onTopic "a" 1).2

end Sample

open Sample

/-- A topic listed twice and one listed with no clauses get theirs. With an unknown topic at
the end of the list nothing is attached, and that topic is named. -/
theorem subscribe_atomic_paired :
    let subs := [("a", [2, 3]), ("b", []), ("a", [4])]
    (∃ b', twoTopicBus.subscribe subs = (.ok (), b') ∧
      b'.specs = [⟨"a", none⟩, ⟨"b", some "second"⟩] ∧
      b'.chain? "a" = some { spec := ⟨"a", none⟩, clauses := [1, 2, 3, 4] } ∧
      b'.chain? "b" = twoTopicBus.chain? "b") ∧
    twoTopicBus.subscribe (subs ++ [("c", [5])]) = (.error (.topicNotFound "c"), twoTopicBus) := by
  intro subs
  have attached := (subscribe_atomic twoTopicBus subs).1
  have refused := (subscribe_atomic twoTopicBus (subs ++ [("c", [5])])).2
  constructor
  · obtain ⟨b', done, after⟩ := attached (by decide +kernel)
    refine ⟨b', done, after.specs.trans (by decide +kernel), ?_, ?_⟩
    · rw [after.chains]
      rfl
    · rw [after.chains]
      rfl
  · obtain ⟨-, s, -, -, -, -, kept⟩ := refused (by decide +kernel)
    have named : (twoTopicBus.subscribe (subs ++ [("c", [5])])).1 =
      .error (.topicNotFound "c") := rfl
    rw [kept] at named ⊢
    exact congrArg (·, twoTopicBus) named

end JobPool
