/-
JobPool.Proofs.Queue.HandOff — a hand-off loses neither items nor signals.

A party has so many steps left as its state says, and a signal costs its giver more than it
brings those who get it; so without new parties the turns come to an end, and `HandOff.settle`
goes on long enough to get there. At rest all announcements have been used, and what covers the
stock says that nobody waits for what is there. A lone producer is followed from its wait to
its item.

  §1 The turns come to an end
  §2 At rest
  §3 A lone producer
  §4 The whole
-/
import JobPool.Proofs.Queue.Turns
import Mathlib.Algebra.Order.BigOperators.Group.List
import Mathlib.Algebra.Order.Ring.Nat

namespace JobPool
namespace HandOff

variable {α : Type}

/-! ## §1 The turns come to an end -/

/-- At most so many turns does a party still take, one of `n`, if nobody comes. A signal for all
that wait for room is worth a step of each of the others. -/
def Party.stepsLeft (n : Nat) : Party α → Nat
  | .finished _ => 0
  | .signalling .. => n
  | .arriving q => if q.mayWait then n + 3 else n + 1
  | .waiting _ woken => if woken then n + 3 else n + 2

/-- At most so many turns are still possible if nobody comes. -/
def stepsLeft (h : HandOff α) : Nat := (h.parties.map (Party.stepsLeft h.parties.length)).sum

theorem sum_map_set {β : Type} {l : List β} {i : Nat} {old : β} (own : l[i]? = some old)
    (f : β → Nat) (new : β) : ((l.set i new).map f).sum + f old = (l.map f).sum + f new := by
  induction l generalizing i with
  | nil => cases own
  | cons x l ih =>
    cases i with
    | zero =>
      cases own
      simp only [List.set_cons_zero, List.map_cons, List.sum_cons]
      omega
    | succ i =>
      have rest := ih (i := i) own
      simp only [List.set_cons_succ, List.map_cons, List.sum_cons]
      omega

theorem stepsLeft_le (h : HandOff α) :
    h.stepsLeft ≤ h.parties.length * (h.parties.length + 3) := by
  have most : ∀ n ∈ h.parties.map (Party.stepsLeft h.parties.length),
      n ≤ h.parties.length + 3 := by
    intro n mem
    obtain ⟨p, -, rfl⟩ := List.mem_map.1 mem
    cases p with
    | arriving q => simp only [Party.stepsLeft]; split <;> omega
    | waiting q woken => simp only [Party.stepsLeft]; split <;> omega
    | signalling s a => simp only [Party.stepsLeft]; omega
    | finished a => exact Nat.zero_le _
  simpa [stepsLeft] using List.sum_le_card_nsmul _ _ most

theorem Party.stepsLeft_wakeForRoom (n : Nat) (p : Party α) :
    p.wakeForRoom.stepsLeft n = p.stepsLeft n + (p.awaits .roomForAll).toNat := by
  cases p with
  | waiting q woken => cases q <;> cases woken <;> rfl
  | _ => rfl

theorem sum_wakeForRoom (n : Nat) (l : List (Party α)) :
    ((l.map Party.wakeForRoom).map (Party.stepsLeft n)).sum =
      (l.map (Party.stepsLeft n)).sum + l.countP (·.awaits .roomForAll) := by
  induction l with
  | nil => rfl
  | cons p l ih =>
    simp only [List.map_cons, List.sum_cons, ih, Party.stepsLeft_wakeForRoom, List.countP_cons]
    cases p.awaits .roomForAll <;> simp <;> omega

theorem Passes.less {r r' : Ring α} {q : Request α} {old new : Party α}
    (passes : Passes r q r' new) (ready : old = .arriving q ∨ old = .waiting q true) (n : Nat) :
    new.stepsLeft n < old.stepsLeft n := by
  have atLeast : n + 1 ≤ old.stepsLeft n := by
    rcases ready with rfl | rfl
    · simp only [Party.stepsLeft]
      split <;> omega
    · simp only [Party.stepsLeft, if_true]
      omega
  have patient (may : q.mayWait = true) : old.stepsLeft n = n + 3 := by
    rcases ready with rfl | rfl
    · simp only [Party.stepsLeft, may, if_true]
    · rfl
  cases passes with
  | enters | leaves | clears => exact atLeast
  | clearsNone | refuses | findsNone | panics => exact Nat.lt_of_lt_of_le (Nat.succ_pos n) atLeast
  | waitsForRoom wait | waitsForItem wait =>
    rw [patient wait]
    exact Nat.lt_succ_self _

/-- One party goes on and has fewer steps left. -/
theorem stepsLeft_set {h : HandOff α} {i : Nat} {old new : Party α} {r : Ring α}
    (own : h.parties[i]? = some old)
    (less : new.stepsLeft h.parties.length < old.stepsLeft h.parties.length) :
    stepsLeft ⟨r, h.parties.set i new⟩ < h.stepsLeft := by
  have sum := sum_map_set own (Party.stepsLeft h.parties.length) new
  simp only [stepsLeft, List.length_set]
  omega

theorem goes_less {h h' : HandOff α} {t : Turn α} (layout : h.ring.WellFormed)
    (goes : h.Goes t h') (stays : t.isArrival = false) :
    h'.parties.length = h.parties.length ∧ h'.stepsLeft < h.stepsLeft := by
  cases goes with
  | arrives q => cases stays
  | passes own ready =>
    exact ⟨List.length_set, stepsLeft_set own ((passes_attempt layout _).less ready _)⟩
  | lapses own limited =>
    refine ⟨List.length_set, stepsLeft_set own ?_⟩
    rename_i q
    have done : q.hurry.mayWait = false := by cases q <;> rfl
    simp [Party.stepsLeft, done]
  | tells own one target awaits =>
    rename_i i j s a p
    obtain ⟨q, rfl, -⟩ := Party.exists_of_awaits awaits one
    have lt : i < h.parties.length := (List.getElem?_eq_some_iff.1 own).1
    have lt' : j < h.parties.length := (List.getElem?_eq_some_iff.1 target).1
    have ne : i ≠ j := by
      rintro rfl
      rw [own] at target
      cases target
    -- who is told gets a step more, and who tells gives up one for every party
    have first := sum_map_set target (Party.stepsLeft h.parties.length) (.waiting q true)
    have second := sum_map_set (signaller_wakes own target awaits)
      (Party.stepsLeft h.parties.length) (.finished a)
    refine ⟨by simp, ?_⟩
    simp only [stepsLeft, List.length_set, Party.wake, Party.stepsLeft, if_true,
      Bool.false_eq_true, if_false] at first second ⊢
    omega
  | tellsNobody own one nobody =>
    have lt := (List.getElem?_eq_some_iff.1 own).1
    exact ⟨List.length_set, stepsLeft_set own (Nat.lt_of_le_of_lt (Nat.zero_le _) lt)⟩
  | tellsAll own =>
    rename_i i target a
    have others : h.parties.countP (·.awaits .roomForAll) < h.parties.length := by
      refine Nat.lt_of_le_of_ne List.countP_le_length fun all => ?_
      cases List.countP_eq_length.1 all _ (List.mem_iff_getElem?.2 ⟨i, own⟩)
    have sum := sum_map_set (signaller_wakesAll own) (Party.stepsLeft h.parties.length)
      (.finished a)
    rw [sum_wakeForRoom] at sum
    refine ⟨by simp, ?_⟩
    simp only [stepsLeft, List.length_set, List.length_map, Party.stepsLeft] at sum ⊢
    omega

/-- Without new parties, turns one after another use up the steps that are left. -/
theorem length_play_le {capacity : Nat} : ∀ {ts : List (Turn α)} {b b' : Books α}
    {h h' : HandOff α}, Kept capacity b h → (∀ t ∈ ts, t.isArrival = false) →
      play b h ts = some (b', h') → ts.length + h'.stepsLeft ≤ h.stepsLeft
  | [], b, b', h, h', _, _, played => by
    cases played
    simp
  | t :: ts, b, b', h, h', kept, stay, played => by
    rw [play] at played
    split at played
    · rename_i h₁ went
      have stays := stay t List.mem_cons_self
      have step : Kept capacity (h.book b h₁ t) h₁ ∧ h₁.stepsLeft < h.stepsLeft := by
        rcases goes_of_turn went with goes | ⟨i, h₂, rfl, first, second, ring⟩
        · exact ⟨kept.goes goes, (goes_less kept.layout goes stays).2⟩
        · have middle := kept.goes first
          have last := middle.goes second
          rw [book, ring] at last
          exact ⟨last, Nat.lt_trans (goes_less middle.layout second rfl).2
            (goes_less kept.layout first rfl).2⟩
      have rest := length_play_le step.1
        (fun t mem => stay t (List.mem_cons_of_mem _ mem)) played
      have less := step.2
      rw [List.length_cons]
      omega
    · cases played

/-! ## §2 At rest -/

theorem isOwn_of_nextAct {h : HandOff α} {i : Nat} {act : Act α} (next : h.nextAct i = some act) :
    (Turn.act act).isOwn = true := by
  unfold nextAct at next
  split at next <;> cases next <;> rfl

/-- A party that can go on by itself has an act to do so. -/
theorem exists_step {h : HandOff α} {i : Nat} {p : Party α} (own : h.parties[i]? = some p)
    (goesOn : p.rests = false) : ∃ h', (h.nextAct i).bind h.step = some h' := by
  cases p with
  | finished a => cases goesOn
  | arriving q =>
    simp only [nextAct, own, Option.bind_some, step]
    exact ⟨_, rfl⟩
  | waiting q woken =>
    cases woken with
    | false => cases goesOn
    | true =>
      simp only [nextAct, own, Option.bind_some, step]
      exact ⟨_, rfl⟩
  | signalling s a =>
    simp only [nextAct, own, Option.bind_some, step]
    cases s with
    | roomForAll => exact ⟨_, rfl⟩
    | item | room =>
      dsimp only
      split
      · rename_i j found
        obtain ⟨lt, awaits, -⟩ := List.findIdx?_eq_some_iff_getElem.1 found
        simp [List.getElem?_eq_getElem lt, awaits]
      · rename_i none
        simpa [anyAwaits] using List.findIdx?_eq_none_iff.1 none

theorem isAtRest_of_advance {h : HandOff α} (stuck : h.advance = none) : h.isAtRest = true := by
  refine List.all_eq_true.2 fun p mem => ?_
  obtain ⟨i, own⟩ := List.mem_iff_getElem?.1 mem
  have lt : i < h.parties.length := (List.getElem?_eq_some_iff.1 own).1
  cases rests : p.rests with
  | true => rfl
  | false =>
    obtain ⟨h', stepped⟩ := exists_step own rests
    rw [List.findSome?_eq_none_iff.1 stuck i (List.mem_range.2 lt)] at stepped
    cases stepped

/-- With enough steps all go on until nothing is left to run. -/
theorem advanceWithin_rests {capacity : Nat} : ∀ (n : Nat) {b : Books α} {h : HandOff α},
    Kept capacity b h → h.stepsLeft < n →
      ∃ ts b', (∀ t ∈ ts, t.isOwn = true) ∧ play b h ts = some (b', advanceWithin n h) ∧
        (advanceWithin n h).isAtRest = true
  | 0, _, _, _, less => absurd less (Nat.not_lt_zero _)
  | n + 1, b, h, kept, less => by
    cases next : h.advance with
    | none =>
      simp only [advanceWithin, next]
      exact ⟨[], b, (fun _ mem => by cases mem), rfl, isAtRest_of_advance next⟩
    | some h₁ =>
      simp only [advanceWithin, next]
      obtain ⟨i, -, stepped⟩ := List.exists_of_findSome?_eq_some next
      obtain ⟨act, isNext, stepped⟩ := Option.bind_eq_some_iff.1 stepped
      have own := isOwn_of_nextAct isNext
      -- `settle` lets no wait run out, so its act is one turn and not two
      have goes : h.Goes (.act act) h₁ := by
        rcases goes_of_turn (t := .act act) stepped with goes | ⟨j, -, eq, -⟩
        · exact goes
        · cases eq
          cases own
      have fewer := (goes_less kept.layout goes (by cases act <;> first | rfl | cases own)).2
      obtain ⟨ts, b', owns, played, rests⟩ :=
        advanceWithin_rests n (kept.goes goes) (Nat.lt_of_lt_of_le fewer (Nat.le_of_lt_succ less))
      refine ⟨.act act :: ts, b', fun t mem => ?_, ?_, rests⟩
      · rcases List.mem_cons.1 mem with rfl | mem
        · exact own
        · exact owns t mem
      · rw [play, show h.turn (.act act) = some h₁ from stepped]
        exact played

theorem settle_rests {capacity : Nat} {b : Books α} {h : HandOff α} (kept : Kept capacity b h) :
    ∃ ts b', (∀ t ∈ ts, t.isOwn = true) ∧ play b h ts = some (b', h.settle) ∧
      h.settle.isAtRest = true := by
  refine advanceWithin_rests _ kept (Nat.lt_of_le_of_lt h.stepsLeft_le ?_)
  exact Nat.mul_lt_mul_of_pos_right (Nat.lt_succ_self _) (Nat.succ_pos _)

/-- At rest nothing is announced any more. -/
theorem Covers.stock_eq_zero {h : HandOff α} {s : Signal} (covers : h.Covers s 0)
    (rests : h.isAtRest = true) (awaited : h.anyAwaits s = true) : stock h.ring s = 0 := by
  have quiet (p : Party α) (mem : p ∈ h.parties) (t : Signal) :
      p.isWoken t = false ∧ p.owes t = false := by
    have still := List.all_eq_true.1 rests p mem
    cases p with
    | waiting q woken =>
      cases woken with
      | false => exact ⟨by cases q <;> rfl, rfl⟩
      | true => cases still
    | finished a => exact ⟨rfl, rfl⟩
    | arriving | signalling => cases still
  rcases covers awaited with ⟨-, all⟩ | counts
  · obtain ⟨p, mem, owes⟩ := List.any_eq_true.1 all
    rw [(quiet p mem _).2] at owes
    cases owes
  · have woken : h.parties.countP (·.isWoken s) = 0 :=
      List.countP_eq_zero.2 fun p mem => by simp [(quiet p mem s).1]
    have owing : h.parties.countP (·.owes s) = 0 :=
      List.countP_eq_zero.2 fun p mem => by simp [(quiet p mem s).2]
    omega

/-! ## §3 A lone producer -/

/-- True of parties of which one may stand for the other: a wait for the same goes on, and an
item that is in is in. -/
def Party.Follows (p p' : Party α) : Prop :=
  (∀ q woken, p = .waiting q woken → ∃ woken', p' = .waiting q woken') ∧
    (p.outcome = some .accepted → p'.outcome = some .accepted)

theorem Party.follows_refl (p : Party α) : p.Follows p := ⟨fun _ woken eq => ⟨woken, eq⟩, id⟩

theorem Party.follows_finished (s : Signal) (a : Answer α) :
    (signalling s a).Follows (finished a) := ⟨fun _ _ eq => (by cases eq), id⟩

theorem Party.follows_wake (p : Party α) : p.Follows p.wake := by
  refine ⟨fun q woken eq => ?_, fun out => ?_⟩
  · subst eq
    exact ⟨true, rfl⟩
  · cases p <;> exact out

theorem Party.follows_wakeForRoom (p : Party α) : p.Follows p.wakeForRoom := by
  unfold wakeForRoom
  split
  · exact p.follows_wake
  · exact p.follows_refl

theorem Party.isProducing_wake (p : Party α) : p.wake.isProducing = p.isProducing := by
  cases p with
  | waiting q woken => cases q <;> rfl
  | _ => rfl

theorem Party.isProducing_wakeForRoom (p : Party α) :
    p.wakeForRoom.isProducing = p.isProducing := by
  unfold wakeForRoom
  split
  · exact p.isProducing_wake
  · rfl

/-- Since the books `b₀` only party `i` could put something in. It still waits to put in `a`,
and nothing entered; or `a` is what entered. -/
structure Lone (i : Nat) (a : α) (b₀ : Books α) (b : Books α) (h : HandOff α) : Prop where
  alone : ∀ {k : Nat} {p : Party α}, h.parties[k]? = some p → p.isProducing = true → k = i
  later : ∃ gone, b.left = b₀.left ++ gone
  stands : ∃ p, h.parties[i]? = some p ∧
    ((∃ patience woken, p = .waiting (.enqueue a patience) woken ∧
        (Request.enqueue a patience).mayWait = true ∧ b.entered = b₀.entered) ∨
      (p.outcome = some .accepted ∧ b.entered = b₀.entered ++ [(i, a)]))

namespace Lone

variable {i : Nat} {a : α} {b₀ b : Books α} {h h' : HandOff α} {t : Turn α}

/-- Outside the critical section the books stay, and nobody becomes a producer. -/
theorem apart (lone : Lone i a b₀ b h) {ps : List (Party α)}
    (idle : ∀ {k : Nat} {p : Party α}, ps[k]? = some p → p.isProducing = true →
      ∃ p', h.parties[k]? = some p' ∧ p'.isProducing = true)
    (follows : ∀ {p : Party α}, h.parties[i]? = some p → ∃ p', ps[i]? = some p' ∧ p.Follows p') :
    Lone i a b₀ b { h with parties := ps } where
  alone found producing := by
    obtain ⟨p', before, still⟩ := idle found producing
    exact lone.alone before still
  later := lone.later
  stands := by
    obtain ⟨p, own, stands⟩ := lone.stands
    obtain ⟨p', now, waits, out⟩ := follows own
    refine ⟨p', now, stands.imp ?_ fun done => ⟨out done.1, done.2⟩⟩
    rintro ⟨patience, woken, rfl, patient, entered⟩
    obtain ⟨woken', rfl⟩ := waits _ _ rfl
    exact ⟨patience, woken', rfl, patient, entered⟩

theorem set (lone : Lone i a b₀ b h) {k : Nat} {old new : Party α}
    (own : h.parties[k]? = some old)
    (idle : new.isProducing = true → old.isProducing = true)
    (follows : k = i → old.Follows new) :
    Lone i a b₀ b { h with parties := h.parties.set k new } := by
  have lt : k < h.parties.length := (List.getElem?_eq_some_iff.1 own).1
  refine lone.apart (fun {m p} found producing => ?_) fun {p} here => ?_
  · by_cases same : k = m
    · subst same
      rw [List.getElem?_set_self lt] at found
      cases found
      exact ⟨old, own, idle producing⟩
    · rw [List.getElem?_set_ne same] at found
      exact ⟨p, found, producing⟩
  · by_cases same : k = i
    · subst same
      rw [own] at here
      cases here
      exact ⟨new, List.getElem?_set_self lt, follows rfl⟩
    · exact ⟨p, by rw [List.getElem?_set_ne same, here], p.follows_refl⟩

theorem map (lone : Lone i a b₀ b h) {f : Party α → Party α}
    (idle : ∀ p : Party α, (f p).isProducing = p.isProducing)
    (follows : ∀ p : Party α, p.Follows (f p)) :
    Lone i a b₀ b { h with parties := h.parties.map f } := by
  refine lone.apart (fun {m p} found producing => ?_) fun {p} here => ?_
  · rw [List.getElem?_map] at found
    obtain ⟨p, before, rfl⟩ := Option.map_eq_some_iff.1 found
    exact ⟨p, before, idle p ▸ producing⟩
  · exact ⟨f p, by rw [List.getElem?_map, here]; rfl, follows p⟩

theorem arrives (lone : Lone i a b₀ b h) {q : Request α}
    (consumer : (Party.arriving q).isProducing = false) :
    Lone i a b₀ { b with asked := b.asked ++ [q] }
      { h with parties := h.parties ++ [.arriving q] } where
  alone {k p} found producing := by
    rcases List.getElem?_append .. ▸ found with found
    split at found
    · exact lone.alone found producing
    · rename_i past
      rw [List.getElem?_singleton] at found
      split at found
      · cases found
        rw [consumer] at producing
        cases producing
      · cases found
  later := lone.later
  stands := by
    obtain ⟨p, own, stands⟩ := lone.stands
    exact ⟨p, by rw [List.getElem?_append_left (List.getElem?_eq_some_iff.1 own).1, own], stands⟩

theorem later_change (lone : Lone i a b₀ b h) (k : Nat) (before after : List α) :
    ∃ gone, (b.change k before after).left = b₀.left ++ gone := by
  obtain ⟨gone, later⟩ := lone.later
  exact ⟨gone ++ _, (congrArg (· ++ _) later).trans (List.append_assoc ..)⟩

/-- The producer passes: its item goes in behind the others, or it waits again. -/
theorem enters (lone : Lone i a b₀ b h) (layout : h.ring.WellFormed) {q : Request α}
    {p : Party α} (own : h.parties[i]? = some p) (ready : p = .arriving q ∨ p = .waiting q true) :
    Lone i a b₀ (b.change i h.ring.toList (attempt h.ring q).1.toList)
      (h.settleParty i (attempt h.ring q)) := by
  have lt : i < h.parties.length := (List.getElem?_eq_some_iff.1 own).1
  have now : (h.settleParty i (attempt h.ring q)).parties[i]? = some (attempt h.ring q).2 :=
    List.getElem?_set_self lt
  refine ⟨fun {k p'} found producing => ?_, lone.later_change i _ _, ?_⟩
  · by_cases same : i = k
    · exact same.symm
    · simp only [settleParty, List.getElem?_set_ne same] at found
      exact lone.alone found producing
  · obtain ⟨p', here, stands⟩ := lone.stands
    rw [own] at here
    cases here
    rcases stands with ⟨patience, woken, rfl, patient, entered⟩ | ⟨out, -⟩
    · obtain rfl : q = .enqueue a patience := by
        rcases ready with eq | eq <;> cases eq
        rfl
      refine ⟨_, now, ?_⟩
      have passes := passes_attempt layout (.enqueue a patience)
      generalize attempt h.ring (.enqueue a patience) = out at passes ⊢
      obtain ⟨r', new⟩ := out
      dsimp only at passes ⊢
      cases passes with
      | enters room items => exact .inr ⟨rfl, by simp [Books.change, items, entered]⟩
      | refuses full => cases patient
      | panics overflows =>
        rw [Request.not_overflows_of_mayWait patient] at overflows
        cases overflows
      | waitsForRoom _ full =>
        exact .inl ⟨patience, false, rfl, patient, by simp [Books.change, entered]⟩
    · rcases ready with rfl | rfl <;> cases out

/-- Another party passes: it takes out what it takes out. -/
theorem otherEnters (lone : Lone i a b₀ b h) (layout : h.ring.WellFormed) {k : Nat}
    {q : Request α} {p : Party α} (own : h.parties[k]? = some p)
    (ready : p = .arriving q ∨ p = .waiting q true) (other : k ≠ i) :
    Lone i a b₀ (b.change k h.ring.toList (attempt h.ring q).1.toList)
      (h.settleParty k (attempt h.ring q)) := by
  have idle : p.isProducing = false :=
    Bool.eq_false_iff.2 fun producing => other (lone.alone own producing)
  have consumes : (Party.arriving q).isProducing = false := by
    rcases ready with rfl | rfl
    · exact idle
    · cases q <;> first | rfl | cases idle
  have passes := passes_attempt layout q
  generalize attempt h.ring q = out at passes ⊢
  obtain ⟨r', new⟩ := out
  have quiet : new.isProducing = false ∧ r'.toList.drop h.ring.toList.length = [] := by
    cases passes with
    | enters | refuses | waitsForRoom => cases consumes
    | leaves items => exact ⟨rfl, by simp [items]⟩
    | clears _ emptied | clearsNone _ emptied => exact ⟨rfl, by simp [emptied]⟩
    | findsNone | waitsForItem | panics => exact ⟨rfl, by simp⟩
  have moved : Lone i a b₀ b { h with parties := h.parties.set k new } :=
    lone.set own (fun producing => absurd producing (Bool.eq_false_iff.1 quiet.1))
      fun same => absurd same other
  refine ⟨moved.alone, lone.later_change k _ _, ?_⟩
  obtain ⟨p', here, stands⟩ := moved.stands
  exact ⟨p', here,
    by simpa only [Books.change, quiet.2, List.map_nil, List.append_nil] using stands⟩

theorem goes (lone : Lone i a b₀ b h) (layout : h.ring.WellFormed) (leaves : t.leavesTo i = true)
    (goes : h.Goes t h') : Lone i a b₀ (h.book b h' t) h' := by
  cases goes with
  | arrives q => exact lone.arrives (by cases q <;> first | rfl | cases leaves)
  | passes own ready =>
    rename_i k q p
    by_cases same : k = i
    · subst same
      exact lone.enters layout own ready
    · exact lone.otherEnters layout own ready same
  | lapses own limited =>
    rename_i k q
    have other : k ≠ i := by simpa [Turn.leavesTo] using leaves
    exact lone.set own (fun producing => by cases q <;> first | rfl | cases producing)
      fun same => absurd same other
  | tells own one target awaits =>
    rename_i k j s out p
    have told := lone.set target (fun producing => p.isProducing_wake ▸ producing)
      fun _ => p.follows_wake
    exact told.set (signaller_wakes own target awaits) (fun producing => by cases producing)
      fun _ => Party.follows_finished _ _
  | tellsNobody own one nobody =>
    exact lone.set own (fun producing => by cases producing)
      fun _ => Party.follows_finished _ _
  | tellsAll own =>
    exact (lone.map Party.isProducing_wakeForRoom Party.follows_wakeForRoom).set
      (signaller_wakesAll own) (fun producing => by cases producing)
      fun _ => Party.follows_finished _ _

end Lone

/-! ## §4 The whole -/

/-- The books agree, and whoever waits waits for what is not there or is announced. -/
structure Holds (capacity : Nat) (b : Books α) (h : HandOff α) : Prop where
  kept : Kept capacity b h
  item : h.Covers .item 0
  room : h.Covers .room 0

namespace Holds

variable {capacity : Nat} {b b' : Books α} {h h' : HandOff α} {ts : List (Turn α)}

theorem of_play (holds : Holds capacity b h) (played : play b h ts = some (b', h')) :
    Holds capacity b' h' := by
  refine keeps_of_play (fun _ => True) (fun _ _ => ⟨trivial, trivial⟩) ?_
    (fun _ _ => trivial) holds played
  intro b h t h' holds _ goes
  exact ⟨holds.kept.goes goes, holds.item.goes holds.kept (by simp) goes,
    holds.room.goes holds.kept (by simp) goes⟩

theorem start (capacity : Nat) :
    Holds capacity ({} : Books α) (ofRing (Ring.empty capacity)) where
  kept := .empty capacity
  item := .of_nobody fun _ mem => by cases mem
  room := .of_nobody fun _ mem => by cases mem

theorem sound (holds : Holds capacity b h) : Sound b h where
  order := holds.kept.order
  told := holds.kept.told
  items awaited := by
    rcases holds.item awaited with ⟨room, -⟩ | counts
    · cases room
    · exact counts
  rooms awaited := (holds.room awaited).imp And.right id

/-- Who waits at rest waits for what is not there. -/
theorem atRest (holds : Holds capacity b h) (rests : h.isAtRest = true) :
    (h.anyAwaits .item = true → h.ring.len = 0) ∧
      (h.anyAwaits .room = true → h.ring.len = h.ring.capacity) := by
  refine ⟨holds.item.stock_eq_zero rests, fun awaited => ?_⟩
  have noRoom : h.ring.capacity - h.ring.len = 0 := holds.room.stock_eq_zero rests awaited
  exact Nat.le_antisymm holds.kept.layout.len_le (Nat.le_of_sub_eq_zero noRoom)

/-- As many items are in the queue as entered and did not leave. -/
theorem length_entered (holds : Holds capacity b h) :
    b.entered.length = b.left.length + h.ring.len := by
  have lengths := congrArg List.length holds.kept.order
  simpa [Ring.length_toList holds.kept.layout] using lengths

theorem lone {i : Nat} {a : α} {patience : Patience} (holds : Holds capacity b h)
    (waits : h.parties[i]? = some (.waiting (.enqueue a patience) false))
    (alone : ∀ {k : Nat} {p : Party α}, h.parties[k]? = some p → p.isProducing = true → k = i) :
    Lone i a b b h :=
  ⟨alone, ⟨[], (List.append_nil _).symm⟩, _, waits,
    .inl ⟨patience, false, rfl, holds.kept.mayWait waits, rfl⟩⟩

/-- A producer that waits alone, and as long as it takes, gets its item in once anything has
left: at rest it would wait at a full queue, but nothing has filled it again. -/
theorem gets_in {i : Nat} {a : α} {patience : Patience} (holds : Holds capacity b h)
    (waits : h.parties[i]? = some (.waiting (.enqueue a patience) false))
    (alone : ∀ {k : Nat} {p : Party α}, h.parties[k]? = some p → p.isProducing = true → k = i)
    (leaves : ∀ t ∈ ts, t.leavesTo i = true) (played : play b h ts = some (b', h'))
    (rests : h'.isAtRest = true) (some_left : b'.left ≠ b.left) :
    h'.parties[i]? = some (.finished .accepted) ∧ b'.entered = b.entered ++ [(i, a)] := by
  have both : Kept capacity b' h' ∧ Lone i a b b' h' := by
    refine keeps_of_play (I := fun b' h' => Kept capacity b' h' ∧ Lone i a b b' h')
      (fun t => t.leavesTo i = true) (fun k leaves => ⟨leaves, rfl⟩) ?_ leaves
      ⟨holds.kept, holds.lone waits alone⟩ played
    intro b' h t h' both leaves goes
    exact ⟨both.1.goes goes, both.2.goes both.1.layout leaves goes⟩
  have holds' := holds.of_play played
  obtain ⟨p, own, stands⟩ := both.2.stands
  have still : p.rests = true := List.all_eq_true.1 rests p (List.mem_iff_getElem?.2 ⟨i, own⟩)
  rcases stands with ⟨patience, woken, rfl, -, entered⟩ | ⟨out, entered⟩
  · obtain rfl : woken = false := by
      cases woken with
      | false => rfl
      | true => cases still
    have awaited : h'.anyAwaits .room = true :=
      List.any_eq_true.2 ⟨_, List.mem_iff_getElem?.2 ⟨i, own⟩, rfl⟩
    -- the queue is full now and was no fuller before; since nothing entered, nothing has left
    have full := (holds'.atRest rests).2 awaited
    have before := holds.length_entered
    have after := holds'.length_entered
    have fits := holds.kept.layout.len_le
    have slots : h'.ring.capacity = h.ring.capacity :=
      holds'.kept.capacity.trans holds.kept.capacity.symm
    obtain ⟨gone, later⟩ := both.2.later
    rw [entered, later, List.length_append] at after
    have nothing : gone = [] := List.length_eq_zero_iff.1 (by omega)
    exact absurd (by rw [later, nothing, List.append_nil]) some_left
  · refine ⟨?_, entered⟩
    cases p with
    | finished answer => rw [own, Option.some.inj out]
    | signalling => cases still
    | arriving | waiting => cases out

end Holds
end HandOff

open HandOff (Turn Party Sound play ofRing)

/-- A queue made for any capacity, and any turns of any parties at it.

What left are the first of the items that entered, in order; a party's answer says what it put
in and took out; and if a party waits unsignalled, all that it could take is announced. So when
nothing is left to run, who waits waits for what is not there. That point is reached: by the
parties' own turns from any state, and whatever the order of turns, unless new parties come, after
a bounded number of them. A producer that waits alone and for as long as it takes has then got
its item in, as the last one, if anything has left. -/
theorem hand_off_loses_nothing {capacity : Nat} {ts : List (Turn α)} {b : Books α}
    {h : HandOff α} (played : play {} (ofRing (Ring.empty capacity)) ts = some (b, h)) :
    Sound b h ∧
    (h.isAtRest = true → (h.anyAwaits .item = true → h.ring.len = 0) ∧
      (h.anyAwaits .room = true → h.ring.len = h.ring.capacity)) ∧
    (∃ own b', (∀ t ∈ own, t.isOwn = true) ∧ play b h own = some (b', h.settle) ∧
      h.settle.isAtRest = true) ∧
    (∀ {more b' h'}, (∀ t ∈ more, t.isArrival = false) → play b h more = some (b', h') →
      more.length ≤ h.parties.length * (h.parties.length + 3)) ∧
    (∀ {i a patience more b' h'}, h.parties[i]? = some (.waiting (.enqueue a patience) false) →
      (∀ {k : Nat} {p : Party α}, h.parties[k]? = some p → p.isProducing = true → k = i) →
      (∀ t ∈ more, t.leavesTo i = true) → play b h more = some (b', h') →
      h'.isAtRest = true → b'.left ≠ b.left →
      h'.parties[i]? = some (.finished .accepted) ∧ b'.entered = b.entered ++ [(i, a)]) := by
  have holds := (HandOff.Holds.start capacity).of_play played
  refine ⟨holds.sound, holds.atRest, HandOff.settle_rests holds.kept, fun stay more => ?_,
    fun waits alone leaves more rests some_left =>
      holds.gets_in waits alone leaves more rests some_left⟩
  have bound := HandOff.length_play_le holds.kept stay more
  have most := h.stepsLeft_le
  omega

/-- A queue with room for one item, and a second producer that waits. A consumer takes the first
item and says so; the second item goes in as the last. -/
theorem hand_off_loses_nothing_producer :
    let turns : List (Turn Nat) := [.act (.arrive (.enqueue 1 .never)), .act (.enter 0),
      .act (.signal 0 none), .act (.arrive (.enqueue 2 .endless)), .act (.enter 1)]
    let more : List (Turn Nat) := [.act (.arrive (.dequeue .never)), .act (.enter 2),
      .act (.signal 2 (some 1)), .act (.enter 1), .act (.signal 1 none)]
    let b : Books Nat := { asked := [.enqueue 1 .never, .enqueue 2 .endless], entered := [(0, 1)] }
    let h : HandOff Nat :=
      ⟨⟨#[some 1], 0, 1⟩, [.finished .accepted, .waiting (.enqueue 2 .endless) false]⟩
    let b' : Books Nat := { asked := [.enqueue 1 .never, .enqueue 2 .endless, .dequeue .never]
                            entered := [(0, 1), (1, 2)], left := [(2, 1)] }
    let h' : HandOff Nat :=
      ⟨⟨#[some 2], 0, 1⟩, [.finished .accepted, .finished .accepted, .finished (.received 1)]⟩
    play {} (ofRing (Ring.empty 1)) turns = some (b, h) ∧ h.anyAwaits .room = true ∧
      play b h more = some (b', h') ∧ h'.isAtRest = true ∧
      h'.parties[1]? = some (.finished .accepted) ∧ b'.entered = b.entered ++ [(1, 2)] := by
  intro turns more b h b' h'
  have played : play {} (ofRing (Ring.empty 1)) turns = some (b, h) := rfl
  have went : play b h more = some (b', h') := by with_unfolding_all rfl
  have alone {k : Nat} {p : Party Nat} (found : h.parties[k]? = some p)
      (producing : p.isProducing = true) : k = 1 := by
    rcases k with _ | _ | k
    · cases found
      cases producing
    · rfl
    · cases found
  obtain ⟨-, -, -, -, gets_in⟩ := hand_off_loses_nothing played
  exact ⟨played, rfl, went, rfl, gets_in rfl alone (by decide) went rfl (by decide)⟩

end JobPool
