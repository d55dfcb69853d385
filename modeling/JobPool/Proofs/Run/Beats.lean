/-
JobPool.Proofs.Run.Beats — a run, whoever listens.

A turn is worked out without a look at the bus, and a delivery that is not cut short
changes nothing else of a stage (`Stage.mute_play`). So two runs with the same beats take
the same turns, each on its own bus (`Scene.unwinds`), as long as no listener panics while
it is made; on a bus of mild links none does (`Scene.calm_of_isMild`).
-/
import JobPool.Proofs.Bus.Mild
import JobPool.Proofs.Run.Playing
import JobPool.Run.Beat

namespace JobPool

namespace Stage

theorem mute_play (s : Stage) (t : Run.Turn) :
    (s.play t).1.mute =
      { s.mute with tokens := t.tokens, begun := s.begun ++ t.begun.toList } := by
  obtain ⟨tokens, begun, now, picks⟩ := s.play_stage t
  simp [mute, tokens, begun, now, picks]

end Stage

namespace Run.Scene

variable {x y : Scene}

theorem turn_mute (x : Scene) : x.mute.turn = x.turn := rfl

theorem taken_mute (x : Scene) (b : Beat) : x.mute.taken b = x.taken b := by
  cases b <;> rfl

theorem mute_next_turn (calm : x.Calm .turn) :
    (x.next .turn).mute =
      match x.turn with
      | some t =>
        ⟨{ x.mute.stage with tokens := t.tokens, begun := x.stage.begun ++ t.begun.toList }, t.next⟩
      | none => x.mute := by
  cases found : x.turn with
  | none => simp only [next, found]
  | some t =>
    have goes := Stage.play_run_of_isCalm (calm rfl t found)
    simp only [next, found, mute, Stage.mute_play, goes]

theorem unwinds : watched.Unwinds Calm where
  hidden x b hidden := by
    cases b with
    | bus bus journal => rfl
    | _ => cases hidden
  visible x y b seen calm calm' alike := by
    have alike : x.mute = y.mute := alike
    have turns : x.turn = y.turn := by rw [← turn_mute, alike, turn_mute]
    have begun : x.stage.begun = y.stage.begun := congrArg (·.stage.begun) alike
    show (x.next b).mute = (y.next b).mute
    cases b with
    | turn => rw [mute_next_turn calm, mute_next_turn calm', turns, alike, begun]
    | pass time =>
      have after := congrArg (fun z : Scene => (z.next (.pass time)).mute) alike
      exact after
    | others tokens begun =>
      have after := congrArg (fun z : Scene => (z.next (.others tokens begun)).mute) alike
      exact after
    | bus bus journal => cases seen

/-- The turns of a run are seen. -/
theorem takes_eq_seen (x : Scene) (bs : List Beat) :
    x.takes bs = (x.seen bs).filterMap fun y => y.1.taken y.2 := by
  refine Watched.filterMap_seen (fun y b hidden => ?_) (fun y b => (y.taken_mute b).symm) bs x
  cases b with
  | bus bus journal => rfl
  | _ => cases hidden

end Run.Scene

/-! ## Listeners that can be made -/

/-- Where links are mild, carrying out a turn leaves them mild. -/
theorem Stage.isMild_play {s : Stage} (mild : s.hub.bus.IsMild) (t : Run.Turn) :
    (s.play t).1.hub.bus.IsMild := by
  have noted : (t.notes.foldl Hub.note s.hub).bus.IsMild := by
    rw [(Hub.foldl_note t.notes s.hub).1]
    exact mild
  cases told : t.event with
  | none =>
    simp only [play, told]
    exact noted
  | some ev =>
    have after := Hub.isMild_publish noted ev
    simp only [play, told]
    split
    all_goals
      rename_i published
      rw [published] at after
      exact after

namespace Run

/-- True of a beat unless it puts a bus in place whose links are not mild. -/
def Beat.IsMild (b : Beat) : Prop := ∀ bus journal, b = .bus bus journal → bus.IsMild

namespace Scene

theorem isMild_next {x : Scene} (mild : x.stage.hub.bus.IsMild) {b : Beat} (mildly : b.IsMild) :
    (x.next b).stage.hub.bus.IsMild := by
  cases b with
  | turn =>
    simp only [next]
    split
    · exact Stage.isMild_play mild _
    · exact mild
  | bus bus journal => exact mildly bus journal rfl
  | _ => exact mild

/-- On a bus whose listeners can be made every beat is calm. -/
theorem calm_of_isMild {x : Scene} {bs : List Beat} (mild : x.stage.hub.bus.IsMild)
    (mildly : ∀ b ∈ bs, b.IsMild) : ∀ y ∈ x.trail bs, y.1.Calm y.2 := by
  induction bs generalizing x with
  | nil =>
    intro y hy
    cases hy
  | cons b bs ih =>
    intro y hy
    rcases List.mem_cons.1 hy with rfl | hy
    · exact fun _ t _ ev _ => mild.isCalm ev.topic
    · have after := isMild_next mild (mildly b List.mem_cons_self)
      exact ih after (fun b hb => mildly b (List.mem_cons_of_mem _ hb)) y hy

end Scene
end Run

end JobPool
