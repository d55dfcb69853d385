/-
JobPool.Unwinding — what two runs of one machine have in common.

Somebody watches a machine and sees of each of its states a `view`; some events are
hidden from them. If a hidden event does not change the view, and any other event
changes it in a way that depends on the view alone, then two runs with the same visible
events, however many hidden ones lie between them, look the same from beginning to end
(`Unwinds.seen_eq`). The second condition may be asked for calm events only; then both
runs have to be calm.
-/

namespace JobPool

/-- A machine that takes events, and what is seen of it. -/
structure Watched (σ ε τ : Type) where
  next : σ → ε → σ
  view : σ → τ
  isHidden : ε → Bool

namespace Watched

variable {σ ε τ : Type} (m : Watched σ ε τ)

/-- Events with the states in which they come. -/
def trail (s : σ) : List ε → List (σ × ε)
  | [] => []
  | e :: es => (s, e) :: trail (m.next s e) es

/-- The state after some events. -/
def after (s : σ) (es : List ε) : σ := es.foldl m.next s

/-- The visible events among some. -/
def visible (es : List ε) : List ε := es.filter fun e => !m.isHidden e

/-- What is seen while some events come: the visible ones, and what the state looks like
before each. -/
def seen (s : σ) (es : List ε) : List (τ × ε) :=
  ((m.trail s es).filter fun x => !m.isHidden x.2).map fun x => (m.view x.1, x.2)

/-- The view changes by itself, as far as events are calm. -/
structure Unwinds (calm : σ → ε → Prop) : Prop where
  hidden : ∀ s e, m.isHidden e = true → m.view (m.next s e) = m.view s
  visible : ∀ s t e, m.isHidden e = false → calm s e → calm t e → m.view s = m.view t →
    m.view (m.next s e) = m.view (m.next t e)

variable {m} {calm : σ → ε → Prop}

/-- Hidden events are not noticed. -/
theorem Unwinds.of_hidden (h : m.Unwinds calm) {es : List ε} (s : σ) (unseen : m.visible es = []) :
    m.view (m.after s es) = m.view s ∧ m.seen s es = [] := by
  induction es generalizing s with
  | nil => exact ⟨rfl, rfl⟩
  | cons e es ih =>
    cases hidden : m.isHidden e with
    | false => simp [Watched.visible, hidden] at unseen
    | true =>
      obtain ⟨same, nothing⟩ := ih (m.next s e) (by simpa [Watched.visible, hidden] using unseen)
      refine ⟨same.trans (h.hidden s e hidden), ?_⟩
      rw [seen] at nothing
      simp [seen, trail, hidden, nothing]

/-- Two calm runs with the same visible events look the same. The induction is on the
events of the first run; hidden ones of the second are passed over before each visible one. -/
theorem Unwinds.seen_eq (h : m.Unwinds calm) {es fs : List ε} {s t : σ}
    (alike : m.view s = m.view t) (same : m.visible es = m.visible fs)
    (calmly : ∀ x ∈ m.trail s es, calm x.1 x.2) (calmly' : ∀ x ∈ m.trail t fs, calm x.1 x.2) :
    m.seen s es = m.seen t fs ∧ m.view (m.after s es) = m.view (m.after t fs) := by
  induction es generalizing fs s t with
  | nil =>
    obtain ⟨unmoved, unseen⟩ := h.of_hidden t same.symm
    exact ⟨unseen.symm, alike.trans unmoved.symm⟩
  | cons e es ih =>
    cases hidden : m.isHidden e with
    | true =>
      have same' : m.visible es = m.visible fs := by
        simpa [Watched.visible, hidden] using same
      have alike' : m.view (m.next s e) = m.view t := (h.hidden s e hidden).trans alike
      obtain ⟨seen_eq, view_eq⟩ :=
        ih alike' same' (fun x hx => calmly x (List.mem_cons_of_mem _ hx)) calmly'
      refine ⟨?_, view_eq⟩
      rw [← seen_eq]
      simp [seen, trail, hidden]
    | false =>
      induction fs generalizing t with
      | nil => simp [Watched.visible, hidden] at same
      | cons f fs again =>
        have calmly'' : ∀ x ∈ m.trail (m.next t f) fs, calm x.1 x.2 :=
          fun x hx => calmly' x (List.mem_cons_of_mem _ hx)
        cases passed : m.isHidden f with
        | true =>
          have alike' : m.view s = m.view (m.next t f) := alike.trans (h.hidden t f passed).symm
          have same' : m.visible (e :: es) = m.visible fs := by
            rw [same]
            simp [Watched.visible, passed]
          obtain ⟨seen_eq, view_eq⟩ := again alike' same' calmly''
          refine ⟨?_, view_eq⟩
          rw [seen_eq]
          simp [seen, trail, passed]
        | false =>
          simp only [Watched.visible, List.filter_cons, hidden, passed, Bool.not_false, if_true,
            List.cons.injEq] at same
          obtain ⟨rfl, same'⟩ := same
          have alike' := h.visible s t e hidden (calmly _ List.mem_cons_self)
            (calmly' _ List.mem_cons_self) alike
          obtain ⟨seen_eq, view_eq⟩ :=
            ih alike' same' (fun x hx => calmly x (List.mem_cons_of_mem _ hx)) calmly''
          refine ⟨?_, view_eq⟩
          simp only [seen] at seen_eq
          simp [seen, trail, hidden, seen_eq, alike]

/-- What calm events keep holds throughout. -/
theorem keeps {P : σ → Prop} (step : ∀ s e, calm s e → P s → P (m.next s e)) {es : List ε} {s : σ}
    (holds : P s) (calmly : ∀ x ∈ m.trail s es, calm x.1 x.2) :
    (∀ x ∈ m.trail s es, P x.1) ∧ P (m.after s es) := by
  induction es generalizing s with
  | nil => exact ⟨fun x hx => absurd hx List.not_mem_nil, holds⟩
  | cons e es ih =>
    have next := step s e (calmly _ List.mem_cons_self) holds
    obtain ⟨rest, last⟩ := ih next fun x hx => calmly x (List.mem_cons_of_mem _ hx)
    refine ⟨fun x hx => ?_, last⟩
    rcases List.mem_cons.1 hx with rfl | hx
    · exact holds
    · exact rest x hx

/-- What can be read off the visible events and the views is read off a run. -/
theorem filterMap_seen {α : Type} {f : σ → ε → Option α} {g : τ → ε → Option α}
    (hidden : ∀ s e, m.isHidden e = true → f s e = none)
    (visible : ∀ s e, f s e = g (m.view s) e) (es : List ε) (s : σ) :
    (m.trail s es).filterMap (fun x => f x.1 x.2) =
      (m.seen s es).filterMap fun x => g x.1 x.2 := by
  induction es generalizing s with
  | nil => rfl
  | cons e es ih =>
    have rest := ih (m.next s e)
    rw [seen] at rest
    rw [trail, List.filterMap_cons, rest]
    cases unseen : m.isHidden e with
    | true => simp [seen, trail, unseen, hidden s e unseen]
    | false => simp [seen, trail, unseen, visible s e, List.filterMap_cons]

end Watched
end JobPool
