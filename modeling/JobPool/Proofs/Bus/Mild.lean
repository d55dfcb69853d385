/-
JobPool.Proofs.Bus.Mild — buses whose listeners can all be made.

A panic while a listener is made comes out of a dispatch. Links attach further links while
they run, so it is not enough to look at the links that are there: a mild link can be made,
and the links that it attaches are mild. A bus of mild links stays one whatever is dispatched
on it (`Hub.IsMild.perform`, `Hub.IsMild.publish`), and no delivery on it is cut short.

  §1 Links of a bus
  §2 What a conduct guards
  §3 Scripted links
-/
import JobPool.Proofs.Bus.Delivery

namespace JobPool

/-! ## §1 Links of a bus -/

section

variable {L C : Type} {P : L → Prop} {Q : C → Prop}

namespace Chain

/-- All links of a chain are as the predicates say. -/
structure Every (P : L → Prop) (Q : C → Prop) (c : Chain L C) : Prop where
  listeners : ∀ l ∈ c.listeners, P l
  clauses : ∀ q ∈ c.clauses, Q q

theorem Every.addClauses {c : Chain L C} (h : c.Every P Q) {qs : List C} (all : ∀ q ∈ qs, Q q) :
    Every P Q (Bus.Chain.addClauses qs c) := by
  refine ⟨h.listeners, fun q hq => ?_⟩
  rcases List.mem_append.1 hq with old | new
  · exact h.clauses q old
  · exact all q new

theorem Every.addListener {c : Chain L C} (h : c.Every P Q) {l : L} (hl : P l) :
    Every P Q (Bus.Chain.addListener l c) := by
  refine ⟨fun l' hl' => ?_, h.clauses⟩
  rcases List.mem_append.1 hl' with old | new
  · exact h.listeners l' old
  · rw [List.mem_singleton.1 new]
    exact hl

end Chain

namespace Bus

variable {b : Bus L C}

/-- All links of a bus are as the predicates say. -/
def Every (P : L → Prop) (Q : C → Prop) (b : Bus L C) : Prop :=
  ∀ topic chain, b.chain? topic = some chain → chain.Every P Q

theorem Every.insert (h : b.Every P Q) (spec : TopicSpec) :
    Every P Q ⟨b.topics.insert spec.topic { spec }⟩ := by
  intro topic chain found
  rw [chain?, NameMap.get?_insert] at found
  split at found
  · obtain rfl := Option.some.inj found
    constructor <;> simp
  · exact h topic chain found

theorem Every.add (h : b.Every P Q) (spec : TopicSpec) : (b.add spec).2.Every P Q := by
  unfold Bus.add
  split
  · exact h
  · exact h.insert spec

theorem Every.ensure (h : b.Every P Q) (spec : TopicSpec) : (b.ensure spec).2.Every P Q := by
  unfold Bus.ensure
  split
  · exact h
  · exact h.insert spec

theorem Every.ensureLifecycle (h : b.Every P Q) : b.ensureLifecycle.Every P Q := by
  unfold Bus.ensureLifecycle
  generalize Topic.lifecycle = specs
  induction specs generalizing b with
  | nil => exact h
  | cons spec specs ih => exact ih (h.ensure spec)

theorem Every.delete (h : b.Every P Q) (topic : String) : (b.delete topic).2.Every P Q := by
  intro topic' chain found
  rw [chain?, Bus.delete, NameMap.get?_erase] at found
  split at found
  · cases found
  · exact h topic' chain found

theorem Every.attach (h : b.Every P Q) (topic : String) {f : Chain L C → Chain L C}
    (keeps : ∀ c : Chain L C, c.Every P Q → (f c).Every P Q) :
    (b.attach topic f).2.Every P Q := by
  unfold Bus.attach
  split
  · intro topic' chain found
    rw [chain?, NameMap.get?_modify] at found
    split at found
    · obtain ⟨chain', found', rfl⟩ := Option.map_eq_some_iff.1 found
      exact keeps chain' (h topic' chain' found')
    · exact h topic' chain found
  · exact h

theorem Every.onTopic (h : b.Every P Q) (topic : String) {q : C} (hq : Q q) :
    (b.onTopic topic q).2.Every P Q :=
  h.attach topic fun _ every => every.addClauses (by simpa using hq)

theorem Every.listen (h : b.Every P Q) (topic : String) {l : L} (hl : P l) :
    (b.listen topic l).2.Every P Q :=
  h.attach topic fun _ every => every.addListener hl

theorem Every.subscribe (h : b.Every P Q) {subs : List (String × List C)}
    (all : ∀ s ∈ subs, ∀ q ∈ s.2, Q q) : (b.subscribe subs).2.Every P Q := by
  have attached : ∀ {subs : List (String × List C)} {b : Bus L C}, b.Every P Q →
      (∀ s ∈ subs, ∀ q ∈ s.2, Q q) →
        (subs.foldl (fun b s => (b.attach s.1 (Chain.addClauses s.2)).2) b).Every P Q := by
    intro subs
    induction subs with
    | nil => exact fun h _ => h
    | cons s subs ih =>
      intro b h all
      have first := h.attach s.1 fun _ every => every.addClauses (all s List.mem_cons_self)
      exact ih first fun s' hs' => all s' (List.mem_cons_of_mem _ hs')
  unfold Bus.subscribe
  split
  · exact h
  · exact attached h all

end Bus

/-! ## §2 What a conduct guards -/

/-- Made of links as `P` and `Q` say, a chain keeps `good`; a listener is made into an
instance that keeps it. -/
structure Conduct.Guards {σ I : Type} (k : Conduct σ L I C) (good : σ → Prop) (P : L → Prop)
    (R : I → Prop) (Q : C → Prop) : Prop where
  make : ∀ l init s, P l → good s →
    good (k.make l init s).2 ∧ ∀ i, (k.make l init s).1 = .ok i → R i
  handle : ∀ i ev s, R i → good s → good (k.handle i ev s).2
  call : ∀ c ev s, Q c → good s → good (k.call c ev s).2
  report : ∀ ev p s, good s → good (k.report ev p s)

namespace Conduct

variable {σ I : Type} {k : Conduct σ L I C} {good : σ → Prop} {R : I → Prop}

theorem Guards.makeAll (h : k.Guards good P R Q) (init : Option Init) {ls : List L} {s : σ}
    (all : ∀ l ∈ ls, P l) (hs : good s) :
    good (k.makeAll init ls s).2 ∧ ∀ is, (k.makeAll init ls s).1 = .ok is → ∀ i ∈ is, R i := by
  induction ls generalizing s with
  | nil =>
    refine ⟨hs, fun is made => ?_⟩
    obtain rfl := Except.ok.inj made
    simp
  | cons l ls ih =>
    obtain ⟨after, made⟩ := h.make l init s (all l List.mem_cons_self) hs
    simp only [Conduct.makeAll]
    rcases first : k.make l init s with ⟨p | i, s₁⟩
    · rw [first] at after
      exact ⟨after, by simp⟩
    · rw [first] at after made
      have rest := ih (fun l' hl' => all l' (List.mem_cons_of_mem _ hl')) after
      simp only
      rcases others : k.makeAll init ls s₁ with ⟨p | is, s₂⟩
      · rw [others] at rest
        exact ⟨rest.1, by simp⟩
      · rw [others] at rest
        refine ⟨rest.1, fun is' same => ?_⟩
        obtain rfl := Except.ok.inj same
        intro j hj
        rcases List.mem_cons.1 hj with rfl | hj
        · exact made j rfl
        · exact rest.2 is rfl j hj

theorem Guards.runLinks (h : k.Guards good P R Q) (ev : Event)
    {links : List (σ → Outcome Bool × σ)} {s : σ}
    (keeps : ∀ link ∈ links, ∀ s, good s → good (link s).2) (hs : good s) :
    good (k.runLinks ev links s) := by
  induction links generalizing s with
  | nil => exact hs
  | cons link links ih =>
    have first := keeps link List.mem_cons_self s hs
    have rest := fun s hs => ih (s := s) (fun l hl => keeps l (List.mem_cons_of_mem _ hl)) hs
    have guarded : good (k.guarded ev link s).2 := by
      unfold Conduct.guarded
      split
      · rename_i passed
        rw [passed] at first
        exact first
      · rename_i p s₁ panicked
        rw [panicked] at first
        exact h.report ev p s₁ first
    unfold Conduct.runLinks
    split
    · rename_i went
      rw [went] at guarded
      exact rest _ guarded
    · rename_i went
      rw [went] at guarded
      exact guarded

theorem Guards.dispatch (h : k.Guards good P R Q) {bus : Bus L C} (every : bus.Every P Q)
    (ev : Event) (init : Option Init) {s : σ} (hs : good s) :
    good (k.dispatch bus ev init s).2 := by
  unfold Conduct.dispatch
  split
  · exact hs
  · rename_i chain found
    obtain ⟨listeners, clauses⟩ := every _ chain found
    obtain ⟨after, made⟩ := h.makeAll init listeners hs
    unfold Conduct.deliver
    split
    · rename_i unmade
      rw [unmade] at after
      exact after
    · rename_i is s₁ all
      rw [all] at after made
      refine h.runLinks ev (fun link hl => ?_) after
      rcases List.mem_append.1 hl with hl | hl
      · obtain ⟨i, hi, rfl⟩ := List.mem_map.1 hl
        exact fun s hs => h.handle i ev s (made is rfl i hi) hs
      · obtain ⟨c, hc, rfl⟩ := List.mem_map.1 hl
        exact fun s hs => h.call c ev s (clauses c hc) hs

end Conduct

end

/-! ## §3 Scripted links -/

/-- The links that an operation attaches. -/
def BusOp.attached : BusOp → List Action
  | onEvent _ a | onTopic _ a | listenEvent _ a | listenTopic _ a => [a]
  | subscribe subs => subs.flatMap (·.2)
  | _ => []

/-- A link that can be made, and attaches such links only. -/
inductive Action.IsMild : Action → Prop where
  | intro {a : Action} (made : a.panicOnMake = none)
      (ops : ∀ op ∈ a.ops, ∀ b ∈ op.attached, b.IsMild)
      (opsOnMake : ∀ op ∈ a.opsOnMake, ∀ b ∈ op.attached, b.IsMild) : a.IsMild

/-- An operation that attaches mild links only. -/
def BusOp.IsMild (op : BusOp) : Prop := ∀ a ∈ op.attached, a.IsMild

/-- True of a clause unless it is scripted and not mild. -/
def Clause.IsMild (c : Clause) : Prop := ∀ a, c = .script a → a.IsMild

/-- A bus of mild links. -/
def ScriptBus.IsMild (b : ScriptBus) : Prop := b.Every Action.IsMild Clause.IsMild

theorem ScriptBus.isMild_empty : ScriptBus.IsMild {} := by
  intro topic chain found
  cases found

/-- Listeners of a bus of mild links can be made. -/
theorem ScriptBus.IsMild.isCalm {b : ScriptBus} (h : b.IsMild) (topic : String) :
    b.IsCalm topic := by
  intro chain found l hl
  obtain ⟨made, -, -⟩ := (h topic chain found).listeners l hl
  exact made

namespace Script

variable {run : BusOp → Hub → Hub}

theorem isMild_foldl (keeps : ∀ op h, op.IsMild → h.bus.IsMild → (run op h).bus.IsMild)
    {ops : List BusOp} (all : ∀ op ∈ ops, op.IsMild) {h : Hub} (mild : h.bus.IsMild) :
    (ops.foldl (fun h op => run op h) h).bus.IsMild := by
  induction ops generalizing h with
  | nil => exact mild
  | cons op ops ih =>
    have first := keeps op h (all op List.mem_cons_self) mild
    exact ih (fun op' h' => all op' (List.mem_cons_of_mem _ h')) first

theorem guards_conduct (keeps : ∀ op h, op.IsMild → h.bus.IsMild → (run op h).bus.IsMild) :
    (conduct run).Guards (fun h => h.bus.IsMild) Action.IsMild (fun m => m.action.IsMild)
      Clause.IsMild where
  make a init h mildly mild := by
    have same := mildly
    obtain ⟨made, -, onMake⟩ := mildly
    have after := isMild_foldl keeps onMake (h := h.note (.made a.tag init)) mild
    simp only [conduct, made]
    refine ⟨after, fun i making => ?_⟩
    obtain rfl := Except.ok.inj making
    exact same
  handle m ev h mildly mild := by
    obtain ⟨-, ops, -⟩ := mildly
    exact isMild_foldl keeps ops mild
  call c ev h mildly mild := by
    cases c with
    | script a =>
      obtain ⟨-, ops, -⟩ := mildly a rfl
      exact isMild_foldl keeps ops mild
    | log c =>
      simp only [conduct]
      split <;> exact mild
    | recorder n => exact mild
  report ev p h mild := mild

theorem isMild_carryOut {k : Conduct Hub Action Made Clause}
    (guards : k.Guards (fun h => h.bus.IsMild) Action.IsMild (fun m => m.action.IsMild)
      Clause.IsMild) (op : BusOp) (h : Hub) (mildly : op.IsMild) (mild : h.bus.IsMild) :
    (carryOut k op h).2.bus.IsMild := by
  cases op with
  | ensureLifecycle => exact mild.ensureLifecycle
  | add spec =>
    have after := mild.add spec
    simp only [carryOut]
    split
    all_goals
      rename_i added
      rw [added] at after
      exact after
  | ensure spec => exact mild.ensure spec
  | deleteEvent topic | deleteTopic topic => exact mild.delete topic
  | onEvent topic a | onTopic topic a =>
    refine mild.onTopic topic fun b same => ?_
    obtain rfl := Clause.script.inj same
    exact mildly a (by simp [BusOp.attached])
  | listenEvent topic a | listenTopic topic a =>
    exact mild.listen topic (mildly a (by simp [BusOp.attached]))
  | subscribe subs =>
    refine mild.subscribe fun s hs q hq b same => ?_
    obtain ⟨s', hs', rfl⟩ := List.mem_map.1 hs
    obtain ⟨a, ha, rfl⟩ := List.mem_map.1 hq
    obtain rfl := Clause.script.inj same
    exact mildly a (List.mem_flatMap.2 ⟨s', hs', ha⟩)
  | subscribeLog withProgress =>
    refine mild.subscribe fun s hs q hq b same => ?_
    obtain ⟨s', hs', rfl⟩ := List.mem_map.1 hs
    obtain ⟨c, hc, rfl⟩ := List.mem_map.1 hq
    cases same
  | dispatch ev init => exact guards.dispatch mild ev init mild
  | _ => exact mild

/-- The induction is on how deep operations may still nest. -/
theorem isMild_nested (n : Nat) (op : BusOp) (h : Hub) (mildly : op.IsMild)
    (mild : h.bus.IsMild) : (nested n op h).bus.IsMild := by
  induction n generalizing op h with
  | zero => exact mild
  | succ n ih => exact isMild_carryOut (guards_conduct ih) op h mildly mild

theorem guards_links :
    links.Guards (fun h => h.bus.IsMild) Action.IsMild (fun m => m.action.IsMild) Clause.IsMild :=
  guards_conduct (isMild_nested depth)

end Script

namespace Hub

theorem isMild_perform {h : Hub} (mild : h.bus.IsMild) {op : BusOp} (mildly : op.IsMild) :
    (h.perform op).2.bus.IsMild :=
  Script.isMild_carryOut Script.guards_links op h mildly mild

theorem isMild_publish {h : Hub} (mild : h.bus.IsMild) (ev : Event) :
    (h.publish ev).2.bus.IsMild := by
  have after : (h.dispatch ev).2.bus.IsMild := Script.guards_links.dispatch mild ev none mild
  unfold publish
  split
  all_goals
    rename_i dispatched
    rw [dispatched] at after
    exact after

end Hub

end JobPool
