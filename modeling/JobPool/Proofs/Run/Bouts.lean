/-
JobPool.Proofs.Run.Bouts — one attempt after another.

What a turn does to the bouts is what it does to the run: an attempt begins where the one before
has cleared the way, and the event of a turn ends what was being made. `Leads` says for each phase
what the bouts so far have led to, and `Serial` puts it beside the order of the bouts. One case of
`Turned` after another keeps that (`Serial.turn`), and so does waiting: an attempt with a limit
wakes the run when the limit has passed, to the grain of timers (`Serial.wait`).

  §1 Bouts
  §2 What the bouts lead to
  §3 Turns
  §4 Tokens
-/
import JobPool.Proofs.Run.Limit
import JobPool.Proofs.Run.Verdict
import JobPool.Run.Bouts

namespace JobPool

open Attempt (Result)

/-! ## §1 Bouts -/

theorem Instant.fires_of_le {due now : Nat} (due_le : due ≤ now) (le : now ≤ onGrain due) :
    Fires due now :=
  ⟨due_le, le, fun whole => Nat.le_antisymm le (whole ▸ onGrain_mono due_le)⟩

namespace Bout

variable {job : Job} {terms : Terms} {picks : Picks} {start now now' : Nat} {b : Bout}
  {bs : List Bout}

/-- All attempts are over. -/
def Closed (bs : List Bout) : Prop := ∀ b ∈ bs, b.ended ≠ none

theorem ended_close (b : Bout) (now : Nat) : (b.close now).ended = some (b.ended.getD now) := by
  cases ended : b.ended <;> simp [close, ended]

theorem closed_map_close (bs : List Bout) (now : Nat) : Closed (bs.map (·.close now)) := by
  intro b hb
  obtain ⟨b', -, rfl⟩ := List.mem_map.1 hb
  simp [ended_close]

theorem Closed.map_close (h : Closed bs) (now : Nat) : bs.map (·.close now) = bs := by
  refine (List.map_congr_left fun b hb => ?_).trans (List.map_id bs)
  obtain ⟨attempt, began, ended⟩ := b
  cases ended with
  | none => exact absurd rfl (h _ hb)
  | some v => rfl

theorem Proper.close (h : b.Proper job terms start now) :
    (b.close now).Proper job terms start now := by
  refine ⟨h.job_eq, h.inTime, ?_, ?_⟩
  · rw [ended_close]
    exact h.began_le
  · rw [ended_close]
    exact h.limited

theorem Proper.later (h : b.Proper job terms start now) (le : now ≤ now')
    (limited : b.ended = none → ∀ limit ∈ terms.limitAt start b.began,
      now' ≤ Instant.onGrain (Instant.after b.began limit)) :
    b.Proper job terms start now' := by
  refine ⟨h.job_eq, h.inTime, Nat.le_trans h.began_le ?_, ?_⟩
  · cases b.ended with
    | none => exact le
    | some v => exact Nat.le_refl v
  · have limited' := h.limited
    cases ended : b.ended with
    | none => exact limited ended
    | some v => rwa [ended] at limited'

theorem InOrder.close (h : InOrder job terms picks start now bs) :
    InOrder job terms picks start now (bs.map (·.close now)) where
  first := by
    rw [List.head?_map]
    intro b hb
    obtain ⟨b', hb', rfl⟩ := Option.map_eq_some_iff.1 hb
    exact h.first b' hb'
  chain := by
    rw [List.isChain_map]
    refine h.chain.imp fun b b' clears => ⟨clears.number, ?_⟩
    obtain ⟨v, ended, gap⟩ := clears.gap
    exact ⟨v, by simp [ended_close, ended], gap⟩
  proper := by
    intro b hb
    obtain ⟨b', hb', rfl⟩ := List.mem_map.1 hb
    exact (h.proper b' hb').close

theorem InOrder.later (h : InOrder job terms picks start now bs) (le : now ≤ now')
    (limited : ∀ b ∈ bs, b.ended = none → ∀ limit ∈ terms.limitAt start b.began,
      now' ≤ Instant.onGrain (Instant.after b.began limit)) :
    InOrder job terms picks start now' bs :=
  ⟨h.first, h.chain, fun b hb => (h.proper b hb).later le (limited b hb)⟩

/-- The next attempt begins. -/
theorem InOrder.concat (h : InOrder job terms picks start now bs)
    (first : bs = [] → b.attempt.number = 1)
    (clears : ∀ b' ∈ bs.getLast?, b'.Clears terms picks b.attempt.number b.began)
    (proper : b.Proper job terms start now) : InOrder job terms picks start now (bs ++ [b]) where
  first := by
    intro b' hb'
    cases bs with
    | nil =>
      obtain rfl : b = b' := Option.some.inj hb'
      exact first rfl
    | cons b₀ bs => exact h.first b' hb'
  chain := by
    refine List.isChain_append.2 ⟨h.chain, List.isChain_singleton b, fun b' hb' b'' hb'' => ?_⟩
    obtain rfl : b = b'' := Option.some.inj hb''
    exact clears b' hb'
  proper := by
    intro b' hb'
    rcases List.mem_append.1 hb' with hb' | hb'
    · exact h.proper b' hb'
    · rw [List.mem_singleton.1 hb']
      exact proper

end Bout

namespace Run

open Bout (InOrder Closed)

variable {job : Job} {terms : Terms} {picks : Picks} {start : Nat} {ts : List Taken} {m : Moment}
  {t : Turn} {bs : List Bout}

theorem bouts_concat (ts : List Taken) (x : Taken) :
    bouts (ts ++ [x]) = boutsAfter (bouts ts) x := by
  simp [bouts, List.foldl_append]

/-! ## §2 What the bouts lead to -/

/-- A turn that ends an attempt publishes an event. -/
theorem Turn.Concludes.isSome_event {r : Run} {pick : Pick} {now : Nat} {e : Option JobError}
    (concludes : t.Concludes r pick now e) : t.event.isSome = true := by
  obtain ⟨ev, event, -⟩ := concludes
  rw [event]
  rfl

/-- What the bouts so far have led to. -/
def Leads (terms : Terms) (picks : Picks) (bs : List Bout) (m : Moment) : Prop :=
  match m.run.phase with
  | .opening => bs = [] ∧ m.run.attempt = 1
  | .ready => Closed bs ∧ (bs = [] → m.run.attempt = 1) ∧
      ∀ b ∈ bs.getLast?, b.Clears terms picks m.run.attempt m.now
  | .attempting a => ∃ bs', Closed bs' ∧
      bs = bs' ++ [⟨⟨m.run.job, m.run.attempt, a.token⟩, a.began, none⟩]
  | .waiting wake => Closed bs ∧ m.now ≤ Instant.onGrain wake ∧
      ∃ b v, bs.getLast? = some b ∧ b.attempt.number = m.run.attempt ∧ b.ended = some v ∧
        (b.backoff terms picks).isZero = false ∧ wake = Instant.after v (b.backoff terms picks)
  | .finished _ | .unwound => Closed bs

/-- An attempt that was being made ends. -/
theorem leads_of_concludes {e : Option JobError} {b : Bout} (terms_eq : m.run.terms = terms)
    (concludes : t.Concludes m.run (picks b.attempt.token) m.now e) (last : bs.getLast? = some b)
    (number : b.attempt.number = m.run.attempt) (unended : b.ended = none) :
    Leads terms picks (bs.map (·.close m.now)) (m.after t) := by
  have closed := Bout.closed_map_close bs m.now
  have last' : (bs.map (·.close m.now)).getLast? = some (b.close m.now) := by
    rw [List.getLast?_map, last]
    rfl
  have ended : (b.close m.now).ended = some m.now := by simp [Bout.ended_close, unended]
  have delay_eq : m.run.terms.backoff.next (picks b.attempt.token) m.run.attempt =
      (b.close m.now).backoff terms picks := by
    rw [terms_eq, ← number]
    rfl
  obtain ⟨ev, -, concluded⟩ := concludes
  generalize next : t.next = r at concluded
  simp only [Leads, Moment.after, next]
  cases concluded with
  | handled => exact closed
  | late _ => exact closed
  | failed _ _ => exact closed
  | retriedAtOnce _ _ _ delay =>
    refine ⟨closed, fun none_made => ?_, fun b' hb' => ?_⟩
    · simp [none_made] at last'
    · obtain rfl := Option.some.inj (last'.symm.trans hb')
      refine ⟨congrArg (· + 1) number.symm, m.now, ended, ?_⟩
      rw [← delay_eq, if_pos delay]
  | retriedLater _ _ _ delay =>
    rw [delay_eq] at delay ⊢
    refine ⟨closed, ?_, b.close m.now, m.now, last', number, ended, delay, rfl⟩
    exact Nat.le_trans (Nat.le_add_right ..) (Instant.le_onGrain _)

/-- The run at `m`, after the turns `ts`, has made its attempts one after another. -/
structure Serial (job : Job) (terms : Terms) (picks : Picks) (start : Nat) (ts : List Taken)
    (m : Moment) : Prop where
  abides : Abides job terms start m.now m.run
  inOrder : InOrder job terms picks start m.now (bouts ts)
  leads : Leads terms picks (bouts ts) m

theorem Abides.attemptLimit_eq {now : Nat} {r : Run} (h : Abides job terms start now r)
    (time : Nat) : r.attemptLimit time = terms.limitAt start time := by
  rw [attemptLimit, left, h.deadline_eq, h.inRound.terms_eq, Option.map_map]
  rfl

namespace Serial

/-! ## §3 Turns -/

/-- The attempt that begins where the bouts so far have cleared the way. -/
theorem begins (h : Serial job terms picks start ts m) (phase : m.run.phase = .ready)
    (inTime : m.run.isExpired m.now = false) (token : TokenId) :
    InOrder job terms picks start m.now
      (bouts ts ++ [⟨⟨m.run.job, m.run.attempt, token⟩, m.now, none⟩]) := by
  have leads := h.leads
  simp only [Leads, phase] at leads
  obtain ⟨-, first, clears⟩ := leads
  refine h.inOrder.concat first clears ⟨h.abides.inRound.job_eq, fun late => ?_, Nat.le_refl _, ?_⟩
  · rw [h.abides.isExpired_iff.2 late] at inTime
    cases inTime
  · intro limit _
    exact Nat.le_trans (Nat.le_add_right ..) (Instant.le_onGrain _)

/-- An attempt begins and ends in one turn. -/
theorem of_instant (h : Serial job terms picks start ts m)
    (turned : Turned m.run picks m.now m.tokens t) (phase : m.run.phase = .ready)
    (inTime : m.run.isExpired m.now = false) {token : TokenId} {e : Option JobError}
    (begun : t.begun = some ⟨m.run.job, m.run.attempt, token⟩)
    (concludes : t.Concludes m.run (picks token) m.now e) :
    Serial job terms picks start (ts ++ [⟨m.now, t⟩]) (m.after t) := by
  have event := concludes.isSome_event
  let b : Bout := ⟨⟨m.run.job, m.run.attempt, token⟩, m.now, none⟩
  have after : bouts (ts ++ [⟨m.now, t⟩]) = (bouts ts ++ [b]).map (·.close m.now) := by
    simp [bouts_concat, boutsAfter, begun, event, b]
  refine ⟨h.abides.turn turned, ?_, ?_⟩
  · rw [after]
    exact (h.begins phase inTime token).close
  · rw [after]
    have last : (bouts ts ++ [b]).getLast? = some b := List.getLast?_concat
    exact leads_of_concludes (b := b) h.abides.inRound.terms_eq concludes last rfl rfl

/-- A turn that neither begins an attempt nor ends one leaves the bouts as they are. -/
theorem of_idle (h : Serial job terms picks start ts m)
    (turned : Turned m.run picks m.now m.tokens t) (closed : Closed (bouts ts))
    (begun : t.begun = none) (leads : Leads terms picks (bouts ts) (m.after t)) :
    Serial job terms picks start (ts ++ [⟨m.now, t⟩]) (m.after t) := by
  have after : bouts (ts ++ [⟨m.now, t⟩]) = bouts ts := by
    rw [bouts_concat, boutsAfter, begun]
    simp [closed.map_close]
  refine ⟨h.abides.turn turned, ?_, ?_⟩
  · rw [after]
    exact h.inOrder
  · rw [after]
    exact leads

theorem turn (h : Serial job terms picks start ts m) (next : m.turn picks = some t) :
    Serial job terms picks start (ts ++ [⟨m.now, t⟩]) (m.after t) := by
  have turned := turned_of_turn next
  have leads := h.leads
  unfold Leads at leads
  cases turned_of_turn next with
  | announced phase _ begun _ next =>
    simp only [phase] at leads
    refine h.of_idle turned (by simp [leads.1, Closed]) begun ?_
    simp only [Leads, Moment.after, next]
    simp [leads.1, leads.2, Closed]
  | @woken wake phase due _ begun _ next =>
    simp only [phase] at leads
    obtain ⟨closed, le, b, v, last, number, ended, delay, rfl⟩ := leads
    refine h.of_idle turned closed begun ?_
    simp only [Leads, Moment.after, next]
    refine ⟨closed, fun none_made => ?_, fun b' hb' => ?_⟩
    · simp [none_made] at last
    · obtain rfl := Option.some.inj (last.symm.trans hb')
      refine ⟨congrArg (· + 1) number.symm, v, ended, ?_⟩
      rw [if_neg (by simp [delay])]
      exact Instant.fires_of_le due le
  | expired phase late _ begun concludes =>
    simp only [phase] at leads
    refine h.of_idle turned leads.1 begun ?_
    obtain ⟨ev, -, concluded⟩ := concludes
    simp only [Leads, Moment.after, (concluded.of_expired late).2]
    exact leads.1
  | begun phase inTime _ _ _ begun event next =>
    simp only [phase] at leads
    have after : bouts (ts ++ [⟨m.now, t⟩]) =
        bouts ts ++ [⟨⟨m.run.job, m.run.attempt, m.tokens.child.1⟩, m.now, none⟩] := by
      simp [bouts_concat, boutsAfter, begun, event]
    refine ⟨h.abides.turn turned, ?_, ?_⟩
    · rw [after]
      exact h.begins phase inTime _
    · rw [after]
      simp only [Leads, Moment.after, next]
      exact ⟨bouts ts, leads.1, rfl⟩
  | stillborn phase inTime _ _ begun concludes | «instant» phase inTime _ _ begun concludes =>
    exact h.of_instant turned phase inTime begun concludes
  | @ended a e phase _ begun concludes =>
    simp only [phase] at leads
    obtain ⟨bs, -, made⟩ := leads
    have event := concludes.isSome_event
    have after : bouts (ts ++ [⟨m.now, t⟩]) = (bouts ts).map (·.close m.now) := by
      simp [bouts_concat, boutsAfter, begun, event]
    refine ⟨h.abides.turn turned, ?_, ?_⟩
    · rw [after]
      exact h.inOrder.close
    · rw [after]
      have last := congrArg List.getLast? made
      rw [List.getLast?_concat] at last
      exact leads_of_concludes h.abides.inRound.terms_eq concludes last rfl rfl

/-- Waiting takes a run no further than to the time it waits for. -/
theorem wait (h : Serial job terms picks start ts m) (waits : m.turn picks = none) {later : Nat}
    (now_le : m.now ≤ later) (le_latest : ∀ t ∈ m.latest, later ≤ t) :
    Serial job terms picks start ts { m with now := later } := by
  obtain ⟨not_opening, not_ready⟩ := phase_of_waits waits
  have leads := h.leads
  have rests : Closed (bouts ts) → InOrder job terms picks start later (bouts ts) := fun closed =>
    h.inOrder.later now_le fun b hb unended => absurd unended (closed b hb)
  cases phase : m.run.phase with
  | opening => exact absurd phase not_opening
  | ready => exact absurd phase not_ready
  | attempting a =>
    refine ⟨h.abides.later now_le, ?_, by simpa only [Leads, phase] using leads⟩
    simp only [Leads, phase] at leads
    obtain ⟨bs, closed, made⟩ := leads
    refine h.inOrder.later now_le fun b hb unended limit limited => ?_
    rw [made] at hb
    rcases List.mem_append.1 hb with hb | hb
    · exact absurd unended (closed b hb)
    · obtain rfl := List.mem_singleton.1 hb
      rw [← h.abides.attemptLimit_eq, ← h.abides.limit_eq a phase] at limited
      obtain ⟨wake, wakes, wake_le, -⟩ := wakes_of_attempting phase limited
      have latest : m.latest = some (Instant.onGrain wake) := by simp [Moment.latest, wakes]
      exact Nat.le_trans (le_latest _ latest) (Instant.onGrain_mono wake_le)
  | waiting wake =>
    simp only [Leads, phase] at leads
    obtain ⟨closed, -, rest⟩ := leads
    refine ⟨h.abides.later now_le, rests closed, ?_⟩
    simp only [Leads, phase]
    refine ⟨closed, le_latest _ ?_, rest⟩
    simp [Moment.latest, wakeAt, phase]
  | finished _ | unwound =>
    simp only [Leads, phase] at leads
    exact ⟨h.abides.later now_le, rests leads, by simpa only [Leads, phase] using leads⟩

theorem of_course {m' : Moment} {ts' : List Taken} (h : Serial job terms picks start ts m)
    (course : Course picks m ts' m') : Serial job terms picks start (ts ++ ts') m' := by
  -- the turns taken before grow from the front of the course to its end
  induction course generalizing ts with
  | here m => rwa [List.append_nil]
  | turn next rest ih =>
    rw [List.append_cons]
    exact ih (h.turn next)
  | wait later waits now_le le_latest rest ih => exact ih (h.wait waits now_le le_latest)
  | others tokens before rest ih => exact ih ⟨h.abides, h.inOrder, h.leads⟩

end Serial

theorem serial_start (job : Job) (defaults : JobDefaults) (picks : Picks) (now : Nat)
    (tokens : Tokens) :
    Serial job (.resolve job.overrides defaults) picks now [] (.start job defaults now tokens) where
  abides := abides_start job defaults now
  inOrder := ⟨by simp [bouts], List.isChain_nil, by simp [bouts]⟩
  leads := by
    cases onClock : onClock job defaults now with
    | true =>
      simp only [Leads, Moment.start, phase_start_of_onClock onClock]
      exact ⟨rfl, rfl⟩
    | false =>
      simp only [Leads, Moment.start, phase_start_of_offClock onClock]
      exact fun b hb => absurd hb List.not_mem_nil

/-! ## §4 Tokens -/

section

variable {now : Nat} {r : Run} {tokens tokens' : Tokens} {a : Underway} {result : Result}

/-- Before the deadline there is time for an attempt. -/
theorem attemptLimit_pos (positive : ∀ limit ∈ r.terms.attemptTimeout, 0 < limit.nanos)
    (inTime : r.isExpired now = false) {limit : Duration}
    (limited : r.attemptLimit now = some limit) : 0 < limit.nanos := by
  have rest : ∀ time ∈ r.left now, 0 < time.nanos := by
    intro time left
    obtain ⟨d, deadline, rfl⟩ := Option.map_eq_some_iff.1 left
    have lt := lt_deadline inTime deadline
    simp only [Instant.left, Duration.nanos_saturate]
    have : 0 < Duration.maxNanos := by decide
    omega
  unfold attemptLimit at limited
  cases own : r.terms.attemptTimeout with
  | none =>
    rw [own] at limited
    exact rest limit limited
  | some most =>
    have pos := positive most own
    cases left : r.left now with
    | none =>
      simp only [own, left, shorterLimit, Option.some.injEq] at limited
      exact limited ▸ pos
    | some time =>
      simp only [own, left, shorterLimit, Option.some.injEq] at limited
      rw [← limited, Duration.nanos_shorter]
      exact Nat.lt_min.2 ⟨pos, rest time left⟩

/-- An attempt that is over as soon as it begins did not overrun. -/
theorem not_overrun_of_ready (positive : ∀ limit ∈ r.terms.attemptTimeout, 0 < limit.nanos)
    (ready : r.phase = .ready) : ¬ r.ComesTo tokens now .overrun := by
  intro overran
  cases overran with
  | atOnce _ inTime comes =>
    obtain ⟨limit, limited, passed⟩ :=
      passed_of_overrun (Nat.le_refl now) (by rwa [Nat.sub_self])
    have pos := attemptLimit_pos positive inTime limited
    unfold Instant.after at passed
    omega
  | inTheEnd attempting _ => simp [ready] at attempting

/-- An attempt that overran is dropped in the next turn, and its token is cancelled. -/
theorem Abides.turn_of_overrun (h : Abides job terms start now r) (picks : Picks)
    (positive : ∀ limit ∈ terms.attemptTimeout, 0 < limit.nanos)
    (overran : r.ComesTo tokens now .overrun) :
    ∃ a limit t, r.phase = .attempting a ∧ terms.limitAt start a.began = some limit ∧
      Instant.after a.began limit ≤ now ∧ r.turn picks now tokens = some t ∧
      t.tokens = tokens.cancel a.token ∧ ∀ a', t.next.phase ≠ .attempting a' := by
  obtain ⟨t, taken⟩ := h.exists_turn picks overran
  cases overran with
  | atOnce ready inTime comes =>
    rw [← h.inRound.terms_eq] at positive
    exact absurd (.atOnce ready inTime comes) (not_overrun_of_ready positive ready)
  | @inTheEnd a attempting comes =>
    obtain ⟨limit, limited, passed⟩ := passed_of_overrun (h.began a attempting).2.1 comes
    rw [h.attemptLimit_eq] at limited
    obtain ⟨e, ends, -, ev, -, concluded⟩ := ends_of_attempting attempting taken
    obtain ⟨result, comes', -, tokens_eq⟩ := h.comesTo_of_ends attempting ends
    obtain rfl := comes'.unique (.inTheEnd attempting comes)
    exact ⟨a, limit, t, attempting, limited, passed, taken, by rw [tokens_eq, if_pos rfl],
      concluded.phase_ne⟩

end

/-- On a course of a run the attempts are made one after another, none past the total limit and
none for longer than its limit, with the back-off in between. -/
theorem series_of_course {job : Job} {defaults : JobDefaults} {picks : Picks} {now : Nat}
    {tokens : Tokens} {ts : List Taken} {m : Moment}
    (course : Course picks (.start job defaults now tokens) ts m) :
    Series job (.resolve job.overrides defaults) picks now ts m := by
  have serial : Serial job (.resolve job.overrides defaults) picks now ts m :=
    (serial_start job defaults picks now tokens).of_course course
  have making : ∀ a, m.run.phase = .attempting a →
      (bouts ts).getLast? = some ⟨⟨job, m.run.attempt, a.token⟩, a.began, none⟩ := by
    intro a attempting
    have leads := serial.leads
    simp only [Leads, attempting] at leads
    obtain ⟨bs, -, made⟩ := leads
    rw [made, List.getLast?_concat, serial.abides.inRound.job_eq]
  refine ⟨serial.inOrder, making, fun b hb unended => ?_, fun overran => ?_⟩
  · have leads := serial.leads
    unfold Leads at leads
    split at leads
    · simp [leads.1] at hb
    · exact absurd unended (leads.1 b hb)
    · rename_i a attempting
      obtain ⟨bs, closed, made⟩ := leads
      refine ⟨a, attempting, ?_⟩
      rw [made] at hb ⊢
      rcases List.mem_append.1 hb with hb | hb
      · exact absurd unended (closed b hb)
      · rw [List.getLast?_concat, List.mem_singleton.1 hb]
    · exact absurd unended (leads.1 b hb)
    · exact absurd unended (leads b hb)
    · exact absurd unended (leads b hb)
  · obtain ⟨a, limit, t, attempting, limited, passed, taken, cancelled, dropped⟩ :=
      serial.abides.turn_of_overrun picks (Terms.isNormal_resolve ..).attempt_pos overran
    have mem := List.mem_of_getLast? (making a attempting)
    have le := (serial.inOrder.proper _ mem).limited limit limited
    exact ⟨_, limit, t, mem, rfl, limited, Instant.fires_of_le passed le, taken, cancelled, dropped⟩

end Run
end JobPool
