/-
JobPool.Run.Course — the course that a run takes over time.

A run takes its turns as soon as it can. While it waits time passes, but not past
the millisecond at which its timer fires; meanwhile others may hand out and cancel
tokens. `Course picks a turns b` says that a run comes from the moment `a` to the
moment `b` by these turns, each with the time at which it was taken. Nothing is
assumed of the bus, on which the events of the turns are published: whatever
links do, a run takes its turns.
-/
import JobPool.Run

namespace JobPool

/-- `b` comes from `a` by handing out and cancelling tokens. -/
structure Tokens.Before (a b : Tokens) : Prop where
  root_of_root : a.root = true → b.root = true
  length_le : a.children.length ≤ b.children.length
  cancelled_of_cancelled : ∀ i, a.isCancelled i = true → b.isCancelled i = true

namespace Tokens

theorem Before.refl (t : Tokens) : t.Before t := ⟨id, Nat.le_refl _, fun _ => id⟩

theorem Before.trans {a b c : Tokens} (h : a.Before b) (h' : b.Before c) : a.Before c where
  root_of_root := h'.root_of_root ∘ h.root_of_root
  length_le := Nat.le_trans h.length_le h'.length_le
  cancelled_of_cancelled i := h'.cancelled_of_cancelled i ∘ h.cancelled_of_cancelled i

theorem before_child (t : Tokens) : t.Before t.child.2 where
  root_of_root := id
  length_le := by simp [child]
  cancelled_of_cancelled i h := by
    cases root : t.root with
    | true => simp [child, isCancelled, root]
    | false =>
      by_cases hi : i < t.children.length
      · rw [isCancelled_child_of_lt t hi]
        exact h
      · simp [isCancelled, root, List.getElem?_eq_none (Nat.le_of_not_lt hi)] at h

theorem before_cancel (t : Tokens) (i : TokenId) : t.Before (t.cancel i) where
  root_of_root := id
  length_le := by simp [cancel]
  cancelled_of_cancelled j h := by
    by_cases hij : i = j
    · subst hij
      by_cases hi : i < t.children.length
      · exact isCancelled_cancel t hi
      · simp only [isCancelled, cancel] at h ⊢
        rw [List.set_eq_of_length_le (Nat.le_of_not_lt hi)]
        exact h
    · rw [isCancelled_cancel_of_ne t hij]
      exact h

theorem before_cancelRoot (t : Tokens) : t.Before t.cancelRoot :=
  ⟨fun _ => rfl, Nat.le_refl _, fun i _ => isCancelled_cancelRoot t i⟩

end Tokens

namespace Run

/-- A run, the tokens of its pool, and the time. -/
structure Moment where
  now : Nat
  tokens : Tokens
  run : Run

/-- A turn and the time at which it was taken. -/
structure Taken where
  time : Nat
  turn : Turn

namespace Moment

/-- What the run does next. -/
def turn (picks : Picks) (m : Moment) : Option Turn := m.run.turn picks m.now m.tokens

/-- The moment after a turn. -/
def after (m : Moment) (t : Turn) : Moment := ⟨m.now, t.tokens, t.next⟩

/-- The latest time until which the run may wait, if it waits for a time. -/
def latest (m : Moment) : Option Nat := m.run.wakeAt.map Instant.onGrain

end Moment

/-- The course of a run. -/
inductive Course (picks : Picks) : Moment → List Taken → Moment → Prop where
  | here (m : Moment) : Course picks m [] m
  /-- The run takes a turn. -/
  | turn {m m' : Moment} {t : Turn} {ts : List Taken} (next : m.turn picks = some t)
      (rest : Course picks (m.after t) ts m') : Course picks m (⟨m.now, t⟩ :: ts) m'
  /-- The run has to wait, and time passes. -/
  | wait {m m' : Moment} {ts : List Taken} (later : Nat) (waits : m.turn picks = none)
      (now_le : m.now ≤ later) (le_latest : ∀ t ∈ m.latest, later ≤ t)
      (rest : Course picks { m with now := later } ts m') : Course picks m ts m'
  /-- Others hand out and cancel tokens. -/
  | others {m m' : Moment} {ts : List Taken} (tokens : Tokens) (before : m.tokens.Before tokens)
      (rest : Course picks { m with tokens } ts m') : Course picks m ts m'

/-- The events published in some turns, in order, with their times. -/
def eventsAt (ts : List Taken) : List (Nat × Event) :=
  ts.filterMap fun t => t.turn.event.map fun ev => (t.time, ev)

/-- The attempts begun in some turns, in order, with their times. -/
def begunIn (ts : List Taken) : List (Nat × Begun) :=
  ts.filterMap fun t => t.turn.begun.map fun b => (t.time, b)

/-- The moment at which a job is picked up. -/
def Moment.start (job : Job) (defaults : JobDefaults) (now : Nat) (tokens : Tokens) : Moment :=
  ⟨now, tokens, .start job defaults now⟩

end Run
end JobPool
