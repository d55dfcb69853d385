/-
JobPool.Proofs.Bus.Following — a dispatch does not depend on clauses that are hidden from the
other links.

One delivery is compared with that on the chain without its hidden clauses, in a state that
looks alike (`Follows.deliver`). Making the listeners is a loop in which both do the same. In
the loop over the links a hidden clause is a step of the one only: it answers `true` and its
work is not seen (`Follows.runLinks`). What goes for one dispatch goes for any number of them,
as long as the buses that are read on the way differ in hidden clauses only.
-/
import JobPool.Bus.Logging
import JobPool.Proofs.Bus.Passage

namespace JobPool

variable {σ σ' τ L I C : Type}

/-! ## Buses without their hidden clauses -/

namespace Bus

variable (hidden : C → Bool) (b : Bus L C)

theorem chain?_without (topic : String) :
    (b.without hidden).chain? topic = (b.chain? topic).map (Chain.without hidden) :=
  NameMap.get?_map ..

theorem hasTopic_without (topic : String) :
    (b.without hidden).hasTopic topic = b.hasTopic topic := by
  rw [hasTopic, NameMap.contains, ← chain?, chain?_without, Option.isSome_map]
  rfl

theorem spec?_without (topic : String) : (b.without hidden).spec? topic = b.spec? topic := by
  simp only [spec?, chain?_without, Option.map_map]
  rfl

theorem without_nothing : b.without (fun _ => false) = b := by
  have chains : Chain.without (L := L) (fun _ : C => false) = id := by
    funext chain
    exact congrArg (Chain.mk chain.spec chain.listeners) (List.filter_eq_self.2 fun _ _ => rfl)
  have entries : b.topics.map id = b.topics := NameMap.eq_of_entries (List.map_id _)
  rw [without, chains, entries]

theorem names_without : (b.without hidden).names = b.names := NameMap.names_map ..

theorem specs_without : (b.without hidden).specs = b.specs := by
  simp only [specs, without, NameMap.values_map, List.map_map]
  rfl

theorem add_without (spec : TopicSpec) :
    (b.without hidden).add spec = Prod.map id (Bus.without hidden) (b.add spec) := by
  simp only [add, hasTopic_without]
  split
  · rfl
  · exact congrArg (fun m => (Except.ok spec, Bus.mk m))
      (b.topics.map_insert (Chain.without hidden) spec.topic { spec }).symm

theorem ensure_without (spec : TopicSpec) :
    (b.without hidden).ensure spec = Prod.map id (Bus.without hidden) (b.ensure spec) := by
  simp only [ensure, chain?_without]
  cases b.chain? spec.topic with
  | some chain => rfl
  | none =>
    exact congrArg (fun m => (spec, Bus.mk m))
      (b.topics.map_insert (Chain.without hidden) spec.topic { spec }).symm

theorem ensureLifecycle_without :
    (b.without hidden).ensureLifecycle = b.ensureLifecycle.without hidden := by
  unfold ensureLifecycle
  induction Topic.lifecycle generalizing b with
  | nil => rfl
  | cons spec specs ih =>
    rw [List.foldl_cons, List.foldl_cons, ensure_without]
    exact ih _

theorem delete_without (topic : String) :
    (b.without hidden).delete topic = Prod.map id (Bus.without hidden) (b.delete topic) := by
  simp only [delete, hasTopic_without]
  exact congrArg (fun m => (b.hasTopic topic, Bus.mk m)) (NameMap.map_erase ..).symm

theorem attach_without (topic : String) {f f' : Chain L C → Chain L C}
    (same : ∀ chain, (f chain).without hidden = f' (chain.without hidden)) :
    (b.without hidden).attach topic f' =
      Prod.map id (Bus.without hidden) (b.attach topic f) := by
  simp only [attach, hasTopic_without]
  split
  · exact congrArg (fun m => (Except.ok (), Bus.mk m)) (b.topics.map_modify _ topic same).symm
  · rfl

theorem addClauses_without (cs : List C) (chain : Chain L C) :
    (Chain.addClauses cs chain).without hidden =
      Chain.addClauses (cs.filter fun c => !hidden c) (chain.without hidden) := by
  simp [Chain.addClauses, Chain.without]

theorem listen_without (topic : String) (l : L) :
    (b.without hidden).listen topic l = Prod.map id (Bus.without hidden) (b.listen topic l) :=
  b.attach_without hidden topic fun _ => rfl

theorem onTopic_without (topic : String) {c : C} (shown : hidden c = false) :
    (b.without hidden).onTopic topic c = Prod.map id (Bus.without hidden) (b.onTopic topic c) := by
  refine b.attach_without hidden topic fun chain => ?_
  simp [addClauses_without, shown]

/-- Of a subscription there is to see what it lists without the hidden clauses. -/
theorem subscribe_without (subs : List (String × List C)) :
    (b.without hidden).subscribe (subs.map fun s => (s.1, s.2.filter fun c => !hidden c)) =
      Prod.map id (Bus.without hidden) (b.subscribe subs) := by
  have attached : ∀ (subs : List (String × List C)) (b : Bus L C),
      (subs.map fun s => (s.1, s.2.filter fun c => !hidden c)).foldl
          (fun b s => (b.attach s.1 (Chain.addClauses s.2)).2) (b.without hidden) =
        (subs.foldl (fun b s => (b.attach s.1 (Chain.addClauses s.2)).2) b).without hidden := by
    intro subs
    induction subs with
    | nil => intro b; rfl
    | cons s subs ih =>
      intro b
      rw [List.map_cons, List.foldl_cons, List.foldl_cons,
        b.attach_without hidden s.1 (addClauses_without hidden s.2)]
      exact ih _
  have missing : (subs.map fun s => (s.1, s.2.filter fun c => !hidden c)).find?
        (fun s => !(b.without hidden).hasTopic s.1) =
      (subs.find? fun s => !b.hasTopic s.1).map fun s =>
        (s.1, s.2.filter fun c => !hidden c) := by
    rw [List.find?_map]
    simp only [hasTopic_without]
    rfl
  simp only [subscribe, missing]
  cases subs.find? fun s => !b.hasTopic s.1 with
  | some s => rfl
  | none => exact congrArg (Prod.mk _) (attached subs b)

end Bus

/-! ## One dispatch -/

theorem Alike.trans {σ₁ σ₂ σ₃ α : Type} {v₁ : σ₁ → τ} {v₂ : σ₂ → τ} {v₃ : σ₃ → τ} {x : α × σ₁}
    {y : α × σ₂} {z : α × σ₃} (first : Alike v₁ v₂ x y) (second : Alike v₂ v₃ y z) :
    Alike v₁ v₃ x z :=
  ⟨first.1.trans second.1, first.2.trans second.2⟩

theorem Alike.symm {α : Type} {v : σ → τ} {v' : σ' → τ} {x : α × σ} {y : α × σ'}
    (h : Alike v v' x y) : Alike v' v y x :=
  ⟨h.1.symm, h.2.symm⟩

theorem Alike.exists_eq {α : Type} {v : σ → τ} {v' : σ' → τ} {x : α × σ} {y : α × σ'}
    (h : Alike v v' x y) : ∃ a s s', x = (a, s) ∧ y = (a, s') ∧ v s = v' s' :=
  ⟨x.1, x.2, y.2, rfl, congrArg (·, y.2) h.1.symm, h.2⟩

namespace Bus

variable {α : Type} {hidden : C → Bool} {b b' : Bus L C}

/-- What can be looked up in what is shown of a bus is the same on two that show the same. -/
theorem looked_eq (f : Bus L C → α) (visible : ∀ b, f (b.without hidden) = f b)
    (same : b.without hidden = b'.without hidden) : f b = f b' :=
  (visible b).symm.trans ((congrArg f same).trans (visible b'))

/-- So is what a call comes to that can be made on what is shown. -/
theorem called_alike (f f' : Bus L C → α × Bus L C)
    (visible : ∀ b, f' (b.without hidden) = Prod.map id (Bus.without hidden) (f b))
    (same : b.without hidden = b'.without hidden) :
    Alike (Bus.without hidden) (Bus.without hidden) (f b) (f b') :=
  Prod.mk.inj ((visible b).symm.trans ((congrArg f' same).trans (visible b')))

end Bus

namespace Conduct

variable {k : Conduct σ L I C} {k' : Conduct σ' L I C} {hidden : C → Bool} {view : σ → τ}
  {view' : σ' → τ} {s : σ} {s' : σ'}

theorem Matches.makeAll (h : k.Matches k' hidden view view') (init : Option Init) (ls : List L)
    (same : view s = view' s') :
    Alike view view' (k.makeAll init ls s) (k'.makeAll init ls s') := by
  induction ls generalizing s s' with
  | nil => exact ⟨rfl, same⟩
  | cons l ls ih =>
    obtain ⟨out, s₁, s₁', first, first', same₁⟩ := (h.make same l init).exists_eq
    simp only [Conduct.makeAll, first, first']
    cases out with
    | error p => exact ⟨rfl, same₁⟩
    | ok i =>
      obtain ⟨made, s₂, s₂', rest, rest', same₂⟩ := (ih same₁).exists_eq
      simp only [rest, rest']
      cases made <;> exact ⟨rfl, same₂⟩

theorem Matches.guarded (h : k.Matches k' hidden view view') (ev : Event) {link : Link I C}
    (shown : link.isShown hidden = true) (same : view s = view' s') :
    Alike view view' (k.guarded ev (k.run ev link) s) (k'.guarded ev (k'.run ev link) s') := by
  have ran : Alike view view' (k.run ev link s) (k'.run ev link s') := by
    cases link with
    | made i => exact h.handle same i ev
    | clause c => exact h.call same c ev (by simpa [Link.isShown] using shown)
  obtain ⟨out, s₁, s₁', first, first', same₁⟩ := ran.exists_eq
  simp only [Conduct.guarded, first, first']
  cases out with
  | ok pass => exact ⟨rfl, same₁⟩
  | error p => exact ⟨rfl, h.report same₁ ev p⟩

/-- A hidden clause is a step of the one run only; any other link is a step of both. -/
theorem Follows.runLinks (h : k.Follows k' hidden view view') (ev : Event)
    (links : List (Link I C)) (same : view s = view' s') :
    view (k.runLinks ev (links.map (k.run ev)) s) =
      view' (k'.runLinks ev ((links.filter (Link.isShown hidden)).map (k'.run ev)) s') := by
  induction links generalizing s s' with
  | nil => exact same
  | cons link links ih =>
    cases shown : link.isShown hidden with
    | true =>
      rw [List.filter_cons_of_pos shown, List.map_cons, List.map_cons]
      obtain ⟨pass, s₁, s₁', step, step', same₁⟩ := (h.guarded ev shown same).exists_eq
      simp only [Conduct.runLinks, step, step']
      cases pass with
      | true => exact ih same₁
      | false => exact same₁
    | false =>
      rw [List.filter_cons_of_neg (by simp [shown]), List.map_cons]
      cases link with
      | made i => cases shown
      | clause c =>
        obtain ⟨passed, unseen⟩ := h.quiet c (by simpa [Link.isShown] using shown) ev s
        have called : k.run ev (.clause c) s = (.ok true, (k.call c ev s).2) :=
          congrArg (·, (k.call c ev s).2) passed
        simp only [Conduct.runLinks, Conduct.guarded, called]
        exact ih (unseen.trans same)

theorem line_without (chain : Chain L C) (is : List I) :
    (chain.without hidden).line is = (chain.line is).filter (Link.isShown hidden) := by
  have all_made : is.filter (Link.isShown (C := C) hidden ∘ .made) = is :=
    List.filter_eq_self.2 fun _ _ => rfl
  simp only [Chain.line, Chain.without, List.filter_append, List.filter_map, all_made]
  rfl

theorem Follows.deliver (h : k.Follows k' hidden view view') (chain : Chain L C) (ev : Event)
    (init : Option Init) (same : view s = view' s') :
    Alike view view' (k.deliver chain ev init s)
      (k'.deliver (chain.without hidden) ev init s') := by
  obtain ⟨made, s₁, s₁', making, making', same₁⟩ :=
    (h.makeAll init chain.listeners same).exists_eq
  have listeners : (chain.without hidden).listeners = chain.listeners := rfl
  rw [← listeners] at making'
  cases made with
  | error p =>
    simp only [Conduct.deliver, making, making']
    exact ⟨rfl, same₁⟩
  | ok is =>
    rw [deliver_of_makeAll ev making, deliver_of_makeAll ev making', line_without]
    exact ⟨rfl, h.runLinks ev (chain.line is) same₁⟩

theorem Follows.dispatch (h : k.Follows k' hidden view view') (b : Bus L C) (ev : Event)
    (init : Option Init) (same : view s = view' s') :
    Alike view view' (k.dispatch b ev init s) (k'.dispatch (b.without hidden) ev init s') := by
  simp only [Conduct.dispatch, Bus.chain?_without]
  cases b.chain? ev.topic with
  | none => exact ⟨rfl, same⟩
  | some chain => exact h.deliver chain ev init same

/-! ## Two runs -/

/-- Dispatches on buses that differ in hidden clauses only, in states that look alike. -/
theorem Follows.dispatch_alike (h : k.Follows k hidden view view) {b b' : Bus L C}
    (shown : b.without hidden = b'.without hidden) (ev : Event) (init : Option Init) {s s' : σ}
    (same : view s = view s') :
    Alike view view (k.dispatch b ev init s) (k.dispatch b' ev init s') := by
  have first := h.dispatch b ev init same
  have second := h.dispatch b' ev init (rfl : view s' = view s')
  rw [shown] at first
  exact first.trans second.symm

/-- What goes for each dispatch goes for any number of them. -/
theorem dispatchAll_alike {bus : σ → Bus L C} {bus' : σ' → Bus L C}
    (one : ∀ ev init {s s'}, view s = view' s' →
      Alike view view' (k.dispatch (bus s) ev init s) (k'.dispatch (bus' s') ev init s'))
    (events : List (Event × Option Init)) (same : view s = view' s') :
    Alike view view' (k.dispatchAll bus events s) (k'.dispatchAll bus' events s') := by
  induction events generalizing s s' with
  | nil => exact ⟨rfl, same⟩
  | cons e events ih =>
    obtain ⟨d, s₁, s₁', first, first', same₁⟩ := (one e.1 e.2 same).exists_eq
    obtain ⟨deliveries, same₂⟩ := ih same₁
    simp only [Conduct.dispatchAll, first, first']
    exact ⟨congrArg (d :: ·) deliveries, same₂⟩

/-! ## Links that are watched -/

/-- Writing down what the links are called with does not get in their way. -/
theorem follows_noting (k : Conduct σ L I C) (hidden : C → Bool) (view : σ → τ) :
    (k.noting hidden view).Follows k (fun _ => false) Prod.fst id where
  make same l init := by
    subst same
    exact ⟨rfl, rfl⟩
  handle same i ev := by
    subst same
    exact ⟨rfl, rfl⟩
  call same c ev _ := by
    subst same
    exact ⟨rfl, rfl⟩
  report same ev p := congrArg (k.report ev p) same
  quiet c none := by cases none

/-- What is written down does not depend on what is hidden either. -/
theorem Follows.noting (h : k.Follows k hidden view view) :
    (k.noting hidden view).Follows (k.noting hidden view) hidden
      (fun s => (view s.1, s.2)) (fun s => (view s.1, s.2)) where
  make := by
    rintro ⟨s, seen⟩ ⟨s', seen'⟩ same l init
    obtain ⟨same, rfl⟩ := Prod.mk.inj same
    obtain ⟨outcomes, after⟩ := h.make same l init
    refine ⟨outcomes, ?_⟩
    simp only [Conduct.noting, outcomes, after, same]
  handle := by
    rintro ⟨s, seen⟩ ⟨s', seen'⟩ same i ev
    obtain ⟨same, rfl⟩ := Prod.mk.inj same
    obtain ⟨outcomes, after⟩ := h.handle same i ev
    refine ⟨outcomes, ?_⟩
    simp only [Conduct.noting, outcomes, after, same]
  call := by
    rintro ⟨s, seen⟩ ⟨s', seen'⟩ same c ev shown
    obtain ⟨same, rfl⟩ := Prod.mk.inj same
    obtain ⟨outcomes, after⟩ := h.call same c ev shown
    refine ⟨outcomes, ?_⟩
    simp only [Conduct.noting, outcomes, after, same]
  report := by
    rintro ⟨s, seen⟩ ⟨s', seen'⟩ same ev p
    obtain ⟨same, rfl⟩ := Prod.mk.inj same
    exact congrArg (·, seen) (h.report same ev p)
  quiet c hid ev s := by
    obtain ⟨passed, unseen⟩ := h.quiet c hid ev s.1
    refine ⟨passed, ?_⟩
    simp only [Conduct.noting, unseen, hid, ↓reduceIte]

end Conduct
end JobPool
