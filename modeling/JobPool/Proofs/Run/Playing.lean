/-
JobPool.Proofs.Run.Playing — carrying out turns on a stage.

Publishing an event changes the hub and nothing else of a stage, and it does not
take time (`Stage.play_stage`); the run goes on as its turn said unless the
delivery was cut short (`Stage.play_run`). So a run that is played takes the
course that it takes by itself (`Run.Played.course`): what listeners do with the
bus has no bearing on it.
-/
import JobPool.Proofs.Bus.Delivery
import JobPool.Proofs.Run.Turn
import JobPool.Run.Played

namespace JobPool

theorem Hub.foldl_note : ∀ (notes : List Note) (h : Hub),
    (notes.foldl Hub.note h).bus = h.bus ∧ (notes.foldl Hub.note h).now = h.now
  | [], _ => ⟨rfl, rfl⟩
  | n :: notes, h => foldl_note notes (h.note n)

namespace Stage

theorem play_stage (s : Stage) (t : Run.Turn) :
    (s.play t).1.tokens = t.tokens ∧ (s.play t).1.begun = s.begun ++ t.begun.toList ∧
      (s.play t).1.hub.now = s.hub.now ∧ (s.play t).1.picks = s.picks := by
  have noted := (Hub.foldl_note t.notes s.hub).2
  cases ev : t.event with
  | none => simp [play, ev, noted]
  | some ev' =>
    have kept := Hub.now_publish (t.notes.foldl Hub.note s.hub) ev'
    simp only [play, ev]
    split <;> simp_all

/-- Only a delivery that is cut short makes a run differ from what its turn says. -/
theorem play_run (s : Stage) (t : Run.Turn) :
    (s.play t).2 = t.next ∨ (s.play t).2 = { t.next with phase := .unwound } := by
  cases ev : t.event with
  | none => simp [play, ev]
  | some ev' =>
    simp only [play, ev]
    split
    · exact .inl rfl
    · exact .inr rfl

theorem play_run_of_isCalm {s : Stage} {t : Run.Turn}
    (calm : ∀ ev ∈ t.event, s.hub.bus.IsCalm ev.topic) : (s.play t).2 = t.next := by
  cases ev : t.event with
  | none => simp only [play, ev]
  | some ev' =>
    have calm' : (t.notes.foldl Hub.note s.hub).bus.IsCalm ev'.topic := by
      rw [(Hub.foldl_note t.notes s.hub).1]
      exact calm ev' ev
    have delivered := Hub.publish_of_isCalm calm'
    simp only [play, ev]
    split
    · rfl
    · simp_all

end Stage

namespace Run

theorem Played.course {s s' : Stage} {r r' : Run} {ts : List Taken} (h : Played s r ts s' r') :
    Course s.picks ⟨s.hub.now, s.tokens, r⟩ ts ⟨s'.hub.now, s'.tokens, r'⟩ := by
  induction h with
  | here s r => exact .here _
  | @turn s s' r r' t ts next calm rest ih =>
    obtain ⟨tokens, -, now, picks⟩ := Stage.play_stage s t
    rw [Stage.play_run_of_isCalm calm, tokens, now, picks] at ih
    exact .turn (m := ⟨_, _, _⟩) next ih
  | wait later waits now_le le_latest rest ih =>
    exact .wait (m := ⟨_, _, _⟩) later waits now_le le_latest ih
  | others tokens begun bus journal before rest ih =>
    exact .others (m := ⟨_, _, _⟩) tokens before ih

/-- On a bus without topics nobody hears of the turns, and the bus stays so. -/
theorem play_bus_of_empty {s : Stage} (empty : s.hub.bus = {}) (t : Turn) :
    (s.play t).1.hub.bus = {} := by
  have noted := (Hub.foldl_note t.notes s.hub).1.trans empty
  cases ev : t.event with
  | none => simp [Stage.play, ev, noted]
  | some ev' =>
    have refused : (t.notes.foldl Hub.note s.hub).dispatch ev' =
        (.refused (.eventNotFound ev'.topic), t.notes.foldl Hub.note s.hub) := by
      simp only [Hub.dispatch, noted]
      rfl
    have published : ((t.notes.foldl Hub.note s.hub).publish ev').2.bus = {} := by
      simp [Hub.publish, refused, Hub.note, noted]
    simp only [Stage.play, ev]
    split
    · rename_i hub hp
      rw [hp] at published
      exact published
    · rename_i hub hp
      rw [hp] at published
      exact published

/-- Every course is played somewhere: a bus without topics is in no run's way. -/
theorem Course.exists_played {picks : Picks} {m m' : Moment} {ts : List Taken}
    (h : Course picks m ts m') : ∀ s : Stage, s.hub.bus = {} → s.picks = picks → s.hub.now = m.now →
      s.tokens = m.tokens → ∃ s', Played s m.run ts s' m'.run := by
  induction h with
  | here m => exact fun s _ _ _ _ => ⟨s, .here s m.run⟩
  | @turn m m' t ts next rest ih =>
    intro s empty picks now tokens
    obtain ⟨tokens', -, now', picks'⟩ := Stage.play_stage s t
    have calm : ∀ ev ∈ t.event, s.hub.bus.IsCalm ev.topic := by
      intro ev _ chain found
      rw [empty] at found
      cases found
    obtain ⟨s', played⟩ := ih (s.play t).1 (play_bus_of_empty empty t) (picks'.trans picks)
      (now'.trans now) tokens'
    refine ⟨s', now ▸ .turn ?_ calm ?_⟩
    · rw [picks, now, tokens]
      exact next
    · rw [Stage.play_run_of_isCalm calm]
      exact played
  | @wait m m' ts later waits now_le le_latest rest ih =>
    intro s empty picks now tokens
    obtain ⟨s', played⟩ := ih { s with hub := { s.hub with now := later } } empty picks rfl tokens
    refine ⟨s', .wait later ?_ (now ▸ now_le) le_latest played⟩
    rw [picks, now, tokens]
    exact waits
  | @others m m' ts tokens before rest ih =>
    intro s empty picks now tokens_eq
    obtain ⟨s', played⟩ := ih { s with tokens } empty picks now rfl
    exact ⟨s', .others tokens s.begun s.hub.bus s.hub.journal (tokens_eq ▸ before) played⟩

end Run
end JobPool
