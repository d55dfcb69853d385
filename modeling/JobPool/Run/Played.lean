/-
JobPool.Run.Played — the course of a run on a stage, bus and all.

`Run.Course` looks at a run alone. Here the run is played: each turn is carried out
on a stage, its event goes to the chain of its topic, and what the links of that
chain do to the hub is part of the stage after it. Between two turns anybody may
change the bus and hand out or cancel tokens, and while the run waits time passes.

Two things are asked. When an event is published, no listener attached to its topic
panics while it is made. And turns are punctual, as on a course: time passes only
where the run has no turn, and not past the millisecond at which its timer fires.
So listeners take no time. When a run keeps to its total limit
(`Run.limit_of_played`) depends on that; what it tells, and in which order, does
not (`Run.events_of_plays`).
-/
import JobPool.Run.Course

namespace JobPool
namespace Run

/-- A run played on a stage, with the turns that it took. -/
inductive Played : Stage → Run → List Taken → Stage → Run → Prop where
  | here (s : Stage) (r : Run) : Played s r [] s r
  /-- The run takes a turn. -/
  | turn {s s' : Stage} {r r' : Run} {t : Turn} {ts : List Taken}
      (next : r.turn s.picks s.hub.now s.tokens = some t)
      (calm : ∀ ev ∈ t.event, s.hub.bus.IsCalm ev.topic)
      (rest : Played (s.play t).1 (s.play t).2 ts s' r') :
      Played s r (⟨s.hub.now, t⟩ :: ts) s' r'
  /-- The run has to wait, and time passes. -/
  | wait {s s' : Stage} {r r' : Run} {ts : List Taken} (later : Nat)
      (waits : r.turn s.picks s.hub.now s.tokens = none) (now_le : s.hub.now ≤ later)
      (le_latest : ∀ t ∈ r.wakeAt.map Instant.onGrain, later ≤ t)
      (rest : Played { s with hub := { s.hub with now := later } } r ts s' r') : Played s r ts s' r'
  /-- Others use the bus, begin attempts, and hand out and cancel tokens. -/
  | others {s s' : Stage} {r r' : Run} {ts : List Taken} (tokens : Tokens) (begun : List Begun)
      (bus : ScriptBus) (journal : Journal) (before : s.tokens.Before tokens)
      (rest : Played { s with tokens, begun, hub := { s.hub with bus, journal } } r ts s' r') :
      Played s r ts s' r'

end Run
end JobPool
