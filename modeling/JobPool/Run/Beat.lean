/-
JobPool.Run.Beat — a run and what happens around it, beat by beat.

`Run.Played` says which turns a run may take on a stage. Here the order in which things
happen is given, so two runs can be compared of which each has a bus of its own: a
`Scene` is a run on its stage, and a `Beat` is a turn of the run, time that passes, or
what others do to the tokens or to the bus. Beats may come at any time; one in which the
run has no turn leaves it as it is.
-/
import JobPool.Run.Played
import JobPool.Unwinding

namespace JobPool

/-- The stage without what concerns listeners: the topics and the journal are left out. -/
def Stage.mute (s : Stage) : Stage := { s with hub := { now := s.hub.now } }

namespace Run

/-- Something that happens while a run is played. -/
inductive Beat where
  /-- The run takes its turn, unless it waits or is over. -/
  | turn
  /-- Time passes. -/
  | pass (time : Nat)
  /-- Others begin attempts, and hand out and cancel tokens. -/
  | others (tokens : Tokens) (begun : List Begun)
  /-- Somebody uses the bus. -/
  | bus (bus : ScriptBus) (journal : Journal)

/-- True of what is done to the bus. -/
def Beat.isBus : Beat → Bool
  | bus .. => true
  | _ => false

/-- A run on a stage. -/
structure Scene where
  stage : Stage
  run : Run

namespace Scene

/-- The turn that the run takes next. -/
def turn (x : Scene) : Option Turn := x.run.turn x.stage.picks x.stage.hub.now x.stage.tokens

/-- The scene after a beat. -/
def next (x : Scene) : Beat → Scene
  | .turn =>
    match x.turn with
    | some t => ⟨(x.stage.play t).1, (x.stage.play t).2⟩
    | none => x
  | .pass time =>
    { x with stage := { x.stage with hub := { x.stage.hub with now := x.stage.hub.now + time } } }
  | .others tokens begun => { x with stage := { x.stage with tokens, begun } }
  | .bus bus journal =>
    { x with stage := { x.stage with hub := { x.stage.hub with bus, journal } } }

/-- The turn taken in a beat, with its time. -/
def taken (x : Scene) : Beat → Option Taken
  | .turn => x.turn.map (⟨x.stage.hub.now, ·⟩)
  | _ => none

/-- No listener attached to the topic of the event of the turn panics while it is made. -/
def Calm (x : Scene) (b : Beat) : Prop :=
  b = .turn → ∀ t ∈ x.turn, ∀ ev ∈ t.event, x.stage.hub.bus.IsCalm ev.topic

/-- Time passes only where the run has no turn, as on a clock that stands still while anybody can go
on. -/
def Punctual (x : Scene) (b : Beat) : Prop := ∀ time, b = .pass time → x.turn = none

/-- In this beat time passes, and the deadline with it, after the announcement of retry `k` and
before the attempt that it announces; for `k = 0` that is the first attempt. The run waits for its
back-off then, or it has a turn that is not taken yet. -/
def Lapses (x : Scene) (b : Beat) (k : Nat) : Prop :=
  ∃ time, b = .pass time ∧ x.run.isExpired x.stage.hub.now = false ∧
    x.run.isExpired (x.stage.hub.now + time) = true ∧
    match x.run.phase with
    | .opening | .ready => k = x.run.attempt - 1
    | .waiting _ => k = x.run.attempt
    | _ => False

/-- The run, and the stage without what concerns listeners. -/
def mute (x : Scene) : Scene := { x with stage := x.stage.mute }

/-- Scenes, seen by somebody who does not see the bus. -/
def watched : Watched Scene Beat Scene := ⟨next, mute, Beat.isBus⟩

/-- Beats with the scenes in which they come. -/
def trail (x : Scene) (bs : List Beat) : List (Scene × Beat) := watched.trail x bs

/-- The scene after some beats. -/
def plays (x : Scene) (bs : List Beat) : Scene := watched.after x bs

/-- The turns taken in some beats. -/
def takes (x : Scene) (bs : List Beat) : List Taken :=
  (x.trail bs).filterMap fun y => y.1.taken y.2

/-- The run and the beats other than those of the bus. -/
def seen (x : Scene) (bs : List Beat) : List (Scene × Beat) := watched.seen x bs

end Scene
end Run
end JobPool
