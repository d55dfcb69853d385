/-
JobPool.Proofs.Bus.Delivery — what a delivery leaves alone, and when it is not
cut short.

Links act on the state by their conduct only, so what every piece of a conduct
keeps, a dispatch keeps (`Keeps.dispatch`). Scripted links may dispatch inside
links; by induction on the nesting they keep the time (`now_publish`). A
delivery is cut short only by a panic while a listener is made, so on a calm
topic it never is (`publish_of_isCalm`).
-/
import JobPool.Run

namespace JobPool

/-! ## What a conduct keeps -/

namespace Conduct

variable {σ L I C τ : Type}

/-- No piece of the conduct changes `f`. -/
structure Keeps (k : Conduct σ L I C) (f : σ → τ) : Prop where
  make : ∀ l init s, f (k.make l init s).2 = f s
  handle : ∀ i ev s, f (k.handle i ev s).2 = f s
  call : ∀ c ev s, f (k.call c ev s).2 = f s
  report : ∀ ev p s, f (k.report ev p s) = f s

variable {k : Conduct σ L I C} {f : σ → τ}

theorem Keeps.makeAll (h : k.Keeps f) (init : Option Init) :
    ∀ (ls : List L) (s : σ), f (k.makeAll init ls s).2 = f s
  | [], _ => rfl
  | l :: ls, s => by
    have made := h.make l init s
    simp only [Conduct.makeAll]
    cases hm : k.make l init s with
    | mk out s₁ =>
      rw [hm] at made
      cases out with
      | error p => exact made
      | ok i =>
        have rest := Keeps.makeAll h init ls s₁
        simp only
        split <;> simp_all

theorem Keeps.runLinks (h : k.Keeps f) (ev : Event) :
    ∀ (links : List (σ → Outcome Bool × σ)), (∀ link ∈ links, ∀ s, f (link s).2 = f s) →
      ∀ s, f (k.runLinks ev links s) = f s
  | [], _, _ => rfl
  | link :: links, keeps, s => by
    have first := keeps link (List.mem_cons_self ..) s
    have guarded : f (k.guarded ev link s).2 = f s := by
      simp only [Conduct.guarded]
      split
      · simp_all
      · rw [h.report]; simp_all
    have rest := Keeps.runLinks h ev links fun l hl => keeps l (List.mem_cons_of_mem _ hl)
    simp only [Conduct.runLinks]
    split
    · rename_i s₁ hg
      rw [rest, ← guarded, hg]
    · rename_i s₁ hg
      rw [← guarded, hg]

theorem Keeps.dispatch (h : k.Keeps f) (bus : Bus L C) (ev : Event) (init : Option Init) (s : σ) :
    f (k.dispatch bus ev init s).2 = f s := by
  simp only [Conduct.dispatch]
  split
  · rfl
  · rename_i chain _
    have made := h.makeAll init chain.listeners s
    simp only [Conduct.deliver]
    split
    · simp_all
    · rename_i is s₁ hm
      rw [hm] at made
      have links : ∀ link ∈ is.map (fun i => k.handle i ev) ++
          chain.clauses.map (fun c => k.call c ev), ∀ s, f (link s).2 = f s := by
        intro link hl s
        rcases List.mem_append.1 hl with hl | hl
        · obtain ⟨i, -, rfl⟩ := List.mem_map.1 hl
          exact h.handle i ev s
        · obtain ⟨c, -, rfl⟩ := List.mem_map.1 hl
          exact h.call c ev s
      exact (h.runLinks ev _ links s₁).trans made

end Conduct

/-! ## Scripted links keep the time -/

namespace Script

theorem now_foldl {α : Type} {f : Hub → α → Hub} (h : ∀ s a, (f s a).now = s.now) :
    ∀ (l : List α) (s : Hub), (l.foldl f s).now = s.now
  | [], _ => rfl
  | a :: l, s => (now_foldl h l (f s a)).trans (h s a)

theorem keeps_conduct {run : BusOp → Hub → Hub} (h : ∀ op s, (run op s).now = s.now) :
    (conduct run).Keeps Hub.now where
  make a init s := by
    have ops := now_foldl (fun s op => h op s) a.opsOnMake (s.note (.made a.tag init))
    simp only [conduct]
    split <;> exact ops
  handle m ev s := now_foldl (fun s op => h op s) m.action.ops _
  call c ev s := by
    cases c with
    | script a => exact now_foldl (fun s op => h op s) a.ops _
    | log c => simp only [conduct]; split <;> rfl
    | recorder n => rfl
  report ev p s := rfl

theorem now_carryOut {k : Conduct Hub Action Made Clause} (h : k.Keeps Hub.now) (op : BusOp)
    (s : Hub) : (carryOut k op s).2.now = s.now := by
  cases op with
  | dispatch ev init => exact h.dispatch s.bus ev init s
  | add spec => simp only [carryOut]; split <;> rfl
  | _ => rfl

/-- The induction is on how deep operations may still nest. -/
theorem now_nested : ∀ (n : Nat) (op : BusOp) (s : Hub), (nested n op s).now = s.now
  | 0, _, _ => rfl
  | n + 1, op, s => now_carryOut (keeps_conduct (now_nested n)) op s

theorem keeps_links : links.Keeps Hub.now := keeps_conduct (now_nested depth)

end Script

namespace Hub

theorem now_perform (h : Hub) (op : BusOp) : (h.perform op).2.now = h.now :=
  Script.now_carryOut Script.keeps_links op h

theorem now_publish (h : Hub) (ev : Event) : (h.publish ev).2.now = h.now := by
  have kept : (h.dispatch ev).2.now = h.now := Script.keeps_links.dispatch h.bus ev none h
  unfold publish
  split <;> simp_all [note]

end Hub

/-! ## Deliveries that are not cut short -/

namespace Script

theorem makeAll_of_calm (run : BusOp → Hub → Hub) (init : Option Init) :
    ∀ (ls : List Action), (∀ l ∈ ls, l.panicOnMake = none) → ∀ s : Hub,
      ∃ is s', (conduct run).makeAll init ls s = (.ok is, s')
  | [], _, s => ⟨[], s, rfl⟩
  | l :: ls, calm, s => by
    have first : ∃ i s₁, (conduct run).make l init s = (.ok i, s₁) := by
      simp only [conduct, calm l (List.mem_cons_self ..)]
      exact ⟨_, _, rfl⟩
    obtain ⟨i, s₁, hi⟩ := first
    obtain ⟨is, s₂, his⟩ := makeAll_of_calm run init ls
      (fun l hl => calm l (List.mem_cons_of_mem _ hl)) s₁
    exact ⟨i :: is, s₂, by simp only [Conduct.makeAll, hi, his]⟩

end Script

/-- On a calm topic that is registered an event is delivered, whatever the links of the chain do. -/
theorem Hub.dispatch_of_isCalm {h : Hub} {ev : Event} {chain : Chain Action Clause}
    (found : h.bus.chain? ev.topic = some chain) (calm : h.bus.IsCalm ev.topic) :
    (h.dispatch ev).1 = .delivered := by
  obtain ⟨is, s', made⟩ := Script.makeAll_of_calm (Script.nested Script.depth) none chain.listeners
    (calm chain found) h
  simp only [dispatch, Conduct.dispatch, found, Conduct.deliver, Script.links, made]

/-- On a calm topic no panic comes out of the chain. -/
theorem Hub.publish_of_isCalm {h : Hub} {ev : Event} (calm : h.bus.IsCalm ev.topic) :
    (h.publish ev).1 = true := by
  cases found : h.bus.chain? ev.topic with
  | none => simp only [publish, dispatch, Conduct.dispatch, found]
  | some chain =>
    have delivered := Hub.dispatch_of_isCalm found calm
    unfold publish
    split
    · rfl
    · rfl
    · rename_i unwound
      rw [unwound] at delivered
      cases delivered

end JobPool
