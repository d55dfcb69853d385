/-
JobPool.Proofs.Queue.Turns — what a turn does to a queue, its parties and its books.

`Passes` lists what becomes of a request in the critical section, and `Goes` what becomes of
the parties in a turn, each with all its guards; the invariants are case splits on the two.
An act in which a wait runs out is the end of the wait and a pass after it (`goes_expire`),
so it needs no case of its own.

  §1 What a turn does
  §2 The books
  §3 The signals
-/
import JobPool.Queue.Turns
import JobPool.Proofs.Queue.Refinement

namespace JobPool
namespace HandOff

variable {α : Type}

/-! ## §1 What a turn does -/

/-- What a pass through the critical section does to the items, and where it leaves the
party. -/
inductive Passes (r : Ring α) : Request α → Ring α → Party α → Prop where
  | enters {a : α} {p : Patience} {r' : Ring α} (room : r.isFull = false)
      (items : r'.toList = r.toList ++ [a]) :
      Passes r (.enqueue a p) r' (.signalling .item .accepted)
  | leaves {a : α} {p : Patience} {r' : Ring α} (items : r.toList = a :: r'.toList) :
      Passes r (.dequeue p) r' (.signalling .room (.received a))
  | clears {n : Nat} {r' : Ring α} (items : r.toList.length = n + 1) (none : r'.toList = []) :
      Passes r .clear r' (.signalling .roomForAll (.dropped (n + 1)))
  | clearsNone {r' : Ring α} (items : r.toList = []) (none : r'.toList = []) :
      Passes r .clear r' (.finished (.dropped 0))
  | refuses {a : α} (full : r.isFull = true) :
      Passes r (.enqueue a .never) r (.finished (.refused a))
  | findsNone (items : r.toList = []) : Passes r (.dequeue .never) r (.finished .nothing)
  | waitsForRoom {a : α} {p : Patience} (patient : (Request.enqueue a p).mayWait = true)
      (full : r.isFull = true) : Passes r (.enqueue a p) r (.waiting (.enqueue a p) false)
  | waitsForItem {p : Patience} (patient : (Request.dequeue (α := α) p).mayWait = true)
      (items : r.toList = []) : Passes r (.dequeue p) r (.waiting (.dequeue p) false)
  | panics {q : Request α} (overflows : q.overflows = true) : Passes r q r (.finished .panicked)

theorem Request.not_overflows_of_mayWait {q : Request α} (may : q.mayWait = true) :
    q.overflows = false := by
  cases q with
  | enqueue | dequeue => simpa [overflows] using (Bool.and_eq_true_iff.1 may).2
  | clear => rfl

theorem passes_attempt {r : Ring α} (layout : r.WellFormed) (q : Request α) :
    Passes r q (attempt r q).1 (attempt r q).2 := by
  cases q with
  | enqueue a p =>
    simp only [attempt]
    cases full : r.isFull with
    | false => exact .enters full (congrArg Fifo.items (Ring.toFifo_push layout full a).2)
    | true =>
      simp only [if_true]
      split
      · subst_vars
        exact .refuses full
      · split
        · exact .panics ‹_›
        · exact .waitsForRoom (by simp [Request.mayWait, *]) full
  | dequeue p =>
    simp only [attempt]
    split
    · exact .panics ‹_›
    · rcases Ring.pop_cases layout with ⟨empty, pop⟩ | ⟨a, r', pop, -, -, items⟩
      · simp only [pop]
        split
        · subst_vars
          exact .findsNone empty
        · exact .waitsForItem (by simp [Request.mayWait, *]) empty
      · simp only [pop]
        exact .leaves items
  | clear =>
    obtain ⟨-, count, -⟩ := Ring.toFifo_clear layout
    have emptied := Ring.toList_clear layout
    simp only [attempt]
    split <;> rename_i cleared <;> rw [cleared] at count emptied
    · exact .clearsNone (List.length_eq_zero_iff.1 count.symm) emptied
    · exact .clears count.symm emptied

/-- A pass keeps the layout and the number of slots. -/
theorem layout_attempt {r : Ring α} (layout : r.WellFormed) (q : Request α) :
    (attempt r q).1.WellFormed ∧ (attempt r q).1.capacity = r.capacity := by
  obtain ⟨kept, follows⟩ := attempt_pass layout q
  have capacity := Fifo.capacity_pass r.toFifo false q
  rw [← follows] at capacity
  exact ⟨kept, capacity⟩

/-- A party becomes signalled if it waits for room. -/
def Party.wakeForRoom (p : Party α) : Party α := if p.awaits .roomForAll then p.wake else p

/-- What a turn does to the parties. -/
inductive Goes (h : HandOff α) : Turn α → HandOff α → Prop where
  | arrives (q : Request α) :
      Goes h (.act (.arrive q)) { h with parties := h.parties ++ [.arriving q] }
  | passes {i : Nat} {q : Request α} {p : Party α} (own : h.parties[i]? = some p)
      (ready : p = .arriving q ∨ p = .waiting q true) :
      Goes h (.act (.enter i)) (h.settleParty i (attempt h.ring q))
  | lapses {i : Nat} {q : Request α} (own : h.parties[i]? = some (.waiting q false))
      (limited : q.isLimited = true) :
      Goes h (.lapse i) { h with parties := h.parties.set i (.arriving q.hurry) }
  | tells {i j : Nat} {s : Signal} {a : Answer α} {p : Party α}
      (own : h.parties[i]? = some (.signalling s a)) (one : s ≠ .roomForAll)
      (target : h.parties[j]? = some p) (awaits : p.awaits s = true) :
      Goes h (.act (.signal i (some j)))
        { h with parties := (h.parties.set j p.wake).set i (.finished a) }
  | tellsNobody {i : Nat} {s : Signal} {a : Answer α}
      (own : h.parties[i]? = some (.signalling s a)) (one : s ≠ .roomForAll)
      (nobody : h.anyAwaits s = false) :
      Goes h (.act (.signal i none)) { h with parties := h.parties.set i (.finished a) }
  | tellsAll {i : Nat} {target : Option Nat} {a : Answer α}
      (own : h.parties[i]? = some (.signalling .roomForAll a)) :
      Goes h (.act (.signal i target))
        { h with parties := (h.parties.map Party.wakeForRoom).set i (.finished a) }

theorem lastAttempt_eq (r : Ring α) (q : Request α) : lastAttempt r q = attempt r q.hurry := by
  cases q <;> rfl

theorem turn_lapse {h h' : HandOff α} {i : Nat} (went : h.turn (.lapse i) = some h') :
    ∃ q, h.parties[i]? = some (.waiting q false) ∧ q.isLimited = true ∧
      h' = { h with parties := h.parties.set i (.arriving q.hurry) } := by
  simp only [turn, lapse] at went
  split at went
  · rename_i q own
    split at went
    · rename_i limited
      exact ⟨q, own, limited, (Option.some.inj went).symm⟩
    · cases went
  · cases went

theorem turn_signal {h h' : HandOff α} {i : Nat} {target : Option Nat}
    (went : h.turn (.act (.signal i target)) = some h') : h.Goes (.act (.signal i target)) h' := by
  simp only [turn, step] at went
  split at went
  · rename_i a own
    obtain rfl := Option.some.inj went
    exact .tellsAll own
  · rename_i s a _ own
    have one : s ≠ .roomForAll := by
      rintro rfl
      exact absurd own (by simp_all)
    cases target with
    | none =>
      dsimp only at went
      split at went
      · cases went
      · rename_i nobody
        obtain rfl := Option.some.inj went
        exact .tellsNobody own one (by simpa using nobody)
    | some j =>
      dsimp only at went
      split at went
      · rename_i p found
        split at went
        · rename_i awaits
          obtain rfl := Option.some.inj went
          exact .tells own one found awaits
        · cases went
      · cases went
  · cases went

theorem turn_enter {h h' : HandOff α} {i : Nat} (went : h.turn (.act (.enter i)) = some h') :
    h.Goes (.act (.enter i)) h' := by
  simp only [turn, step] at went
  split at went
  · rename_i q own
    obtain rfl := Option.some.inj went
    exact .passes own (.inl rfl)
  · rename_i q own
    obtain rfl := Option.some.inj went
    exact .passes own (.inr rfl)
  · cases went

/-- An act in which a wait runs out is the end of the wait, and then a pass. -/
theorem goes_expire {h h' : HandOff α} {i : Nat} (went : h.turn (.act (.expire i)) = some h') :
    ∃ h₁, h.Goes (.lapse i) h₁ ∧ h₁.Goes (.act (.enter i)) h' ∧ h₁.ring = h.ring := by
  simp only [turn, step] at went
  split at went
  · rename_i q own
    split at went
    · rename_i limited
      obtain rfl := Option.some.inj went
      have lt : i < h.parties.length := (List.getElem?_eq_some_iff.1 own).1
      have entered := Goes.passes (h := { h with parties := h.parties.set i (.arriving q.hurry) })
        (i := i) (List.getElem?_set_self lt) (.inl rfl)
      simp only [settleParty, List.set_set, ← lastAttempt_eq] at entered
      exact ⟨_, .lapses own limited, entered, rfl⟩
    · cases went
  · cases went

/-- A turn is one of these, or the end of a wait and a pass in one. -/
theorem goes_of_turn {h h' : HandOff α} {t : Turn α} (went : h.turn t = some h') :
    h.Goes t h' ∨ ∃ i h₁, t = .act (.expire i) ∧ h.Goes (.lapse i) h₁ ∧
      h₁.Goes (.act (.enter i)) h' ∧ h₁.ring = h.ring := by
  cases t with
  | lapse i =>
    obtain ⟨q, own, limited, rfl⟩ := turn_lapse went
    exact .inl (.lapses own limited)
  | act a =>
    cases a with
    | arrive q => cases went; exact .inl (.arrives q)
    | enter i => exact .inl (turn_enter went)
    | expire i =>
      obtain ⟨h₁, first, second, ring⟩ := goes_expire went
      exact .inr ⟨i, h₁, rfl, first, second, ring⟩
    | signal i target => exact .inl (turn_signal went)

/-- A party that gives a signal is not the one that gets it. -/
theorem signaller_wakes {h : HandOff α} {i j : Nat} {s : Signal} {a : Answer α} {p : Party α}
    (own : h.parties[i]? = some (.signalling s a)) (target : h.parties[j]? = some p)
    (awaits : p.awaits s = true) :
    (h.parties.set j p.wake)[i]? = some (.signalling s a) := by
  have ne : j ≠ i := by
    rintro rfl
    rw [own] at target
    cases target
    cases awaits
  rw [List.getElem?_set_ne ne, own]

theorem signaller_wakesAll {h : HandOff α} {i : Nat} {s : Signal} {a : Answer α}
    (own : h.parties[i]? = some (.signalling s a)) :
    (h.parties.map Party.wakeForRoom)[i]? = some (.signalling s a) := by
  rw [List.getElem?_map, own]
  rfl

/-- What every single turn keeps, with its books, is kept by turns one after another. -/
theorem keeps_of_play {I : Books α → HandOff α → Prop} (allowed : Turn α → Prop)
    (both : ∀ i, allowed (.act (.expire i)) → allowed (.lapse i) ∧ allowed (.act (.enter i)))
    (keeps : ∀ {b h t h'}, I b h → allowed t → h.Goes t h' → I (h.book b h' t) h') :
    ∀ {ts : List (Turn α)} {b b' : Books α} {h h' : HandOff α}, (∀ t ∈ ts, allowed t) →
      I b h → play b h ts = some (b', h') → I b' h'
  | [], b, b', h, h', _, holds, played => by
    cases played
    exact holds
  | t :: ts, b, b', h, h', every, holds, played => by
    rw [play] at played
    split at played
    · rename_i h₁ went
      refine keeps_of_play allowed both keeps (fun t mem => every t (List.mem_cons_of_mem _ mem)) ?_
        played
      have isAllowed := every t List.mem_cons_self
      rcases goes_of_turn went with goes | ⟨i, h₂, rfl, first, second, ring⟩
      · exact keeps holds isAllowed goes
      · -- the books of the act are those of the pass at its end
        obtain ⟨lapse, enter⟩ := both i isAllowed
        have booked := keeps (keeps holds lapse first) enter second
        rwa [book, ring] at booked
    · cases played

end HandOff

/-! ## §2 The books -/

namespace Books

theorem by_pairs (i k : Nat) (as : List α) :
    ((as.map fun a => (i, a)).filter (·.1 == k)).map (·.2) = if i = k then as else [] := by
  by_cases same : i = k
  · simp [List.filter_map, Function.comp_def, same]
  · simp [List.filter_map, Function.comp_def, same]

theorem enteredBy_change (b : Books α) (i k : Nat) (before after : List α) :
    (b.change i before after).enteredBy k =
      b.enteredBy k ++ if i = k then after.drop before.length else [] := by
  rw [← by_pairs i k]
  simp only [enteredBy, change, List.filter_append, List.map_append]

theorem leftBy_change (b : Books α) (i k : Nat) (before after : List α) :
    (b.change i before after).leftBy k =
      b.leftBy k ++ if i = k then before.take (before.length - after.length) else [] := by
  rw [← by_pairs i k]
  simp only [leftBy, change, List.filter_append, List.map_append]

end Books

namespace HandOff

theorem Request.comesTo_enqueue {q : Request α} {a : α} {p : Patience}
    (comes : q.ComesTo (.enqueue a p)) :
    ∃ p', q = .enqueue a p' ∧ (p = p' ∨ p'.isLimited = true) := by
  rcases comes with rfl | ⟨limited, same⟩
  · exact ⟨p, rfl, .inl rfl⟩
  · cases q with
    | enqueue a' p' =>
      cases same
      exact ⟨p', rfl, .inr limited⟩
    | dequeue => cases same
    | clear => cases same

theorem Request.comesTo_dequeue {q : Request α} {p : Patience}
    (comes : q.ComesTo (.dequeue p)) :
    ∃ p', q = .dequeue p' ∧ (p = p' ∨ p'.isLimited = true) := by
  rcases comes with rfl | ⟨limited, same⟩
  · exact ⟨p, rfl, .inl rfl⟩
  · cases q with
    | enqueue => cases same
    | dequeue p' => exact ⟨p', rfl, .inr limited⟩
    | clear => cases same

theorem Request.comesTo_clear {q : Request α} (comes : q.ComesTo .clear) : q = .clear := by
  rcases comes with rfl | ⟨limited, same⟩
  · rfl
  · cases q with
    | enqueue => cases same
    | dequeue => cases same
    | clear => rfl

/-- A wait runs out once. -/
theorem Request.comesTo_hurry {q q' : Request α} (comes : q.ComesTo q')
    (limited : q'.isLimited = true) : q.ComesTo q'.hurry := by
  rcases comes with rfl | ⟨-, rfl⟩
  · exact .inr ⟨limited, rfl⟩
  · cases q <;> cases limited

/-- Who no longer waits was not prepared to wait for ever. -/
theorem ne_endless {p : Patience} (asked : .never = p ∨ p.isLimited = true) : p ≠ .endless := by
  rintro rfl
  rcases asked with never | limited
  · cases never
  · cases limited

/-- Who no longer waits does not overflow. -/
theorem Request.overflows_of_comesTo {q q' : Request α} (comes : q.ComesTo q')
    (overflows : q'.overflows = true) : q.overflows = true := by
  rcases comes with rfl | ⟨-, rfl⟩
  · exact overflows
  · cases q <;> cases overflows

namespace Passes

variable {r r' : Ring α} {q q₀ : Request α} {p : Party α}

/-- What was there and then enters is what leaves and is there then. -/
theorem order (passes : Passes r q r' p) :
    r.toList ++ r'.toList.drop r.toList.length =
      r.toList.take (r.toList.length - r'.toList.length) ++ r'.toList := by
  cases passes with
  | enters room items => simp [items]
  | leaves items => simp [items]
  | clears items emptied => simp [emptied]
  | clearsNone items emptied => simp [items, emptied]
  | refuses | findsNone | waitsForRoom | waitsForItem | panics => simp

/-- The party is told what it did. -/
theorem tells (passes : Passes r q r' p) (comes : q₀.ComesTo q) :
    p.Tells q₀ (r'.toList.drop r.toList.length)
      (r.toList.take (r.toList.length - r'.toList.length)) := by
  cases passes with
  | enters room items =>
    obtain ⟨p, rfl, -⟩ := Request.comesTo_enqueue comes
    exact ⟨⟨_, _, rfl, by simp [items]⟩, by simp [items]⟩
  | leaves items =>
    obtain ⟨p, rfl, -⟩ := Request.comesTo_dequeue comes
    exact ⟨⟨_, rfl⟩, by simp [items], by simp [items]⟩
  | clears items emptied =>
    obtain rfl := Request.comesTo_clear comes
    exact ⟨rfl, by simp [emptied], by simp [items, emptied]⟩
  | clearsNone items emptied =>
    obtain rfl := Request.comesTo_clear comes
    exact ⟨rfl, by simp [emptied], by simp [items]⟩
  | refuses full =>
    obtain ⟨p, rfl, asked⟩ := Request.comesTo_enqueue comes
    exact ⟨⟨_, rfl, ne_endless asked⟩, by simp, by simp⟩
  | findsNone items =>
    obtain ⟨p, rfl, asked⟩ := Request.comesTo_dequeue comes
    exact ⟨⟨_, rfl, ne_endless asked⟩, by simp, by simp⟩
  | waitsForRoom patient | waitsForItem patient =>
    exact ⟨⟨comes, patient⟩, by simp, by simp⟩
  | panics overflows => exact ⟨Request.overflows_of_comesTo comes overflows, by simp, by simp⟩

end Passes

theorem Party.tells_wake {p : Party α} {q₀ : Request α} {e l : List α} (tells : p.Tells q₀ e l) :
    p.wake.Tells q₀ e l := by
  cases p <;> exact tells

theorem Party.tells_wakeForRoom {p : Party α} {q₀ : Request α} {e l : List α}
    (tells : p.Tells q₀ e l) : p.wakeForRoom.Tells q₀ e l := by
  unfold wakeForRoom
  split
  · exact tells_wake tells
  · exact tells

/-- The books agree with the queue and its parties. -/
structure Kept (capacity : Nat) (b : Books α) (h : HandOff α) : Prop where
  layout : h.ring.WellFormed
  capacity : h.ring.capacity = max capacity 1
  order : b.entered.map (·.2) = b.left.map (·.2) ++ h.ring.toList
  asked : b.asked.length = h.parties.length
  unused : ∀ k, h.parties.length ≤ k → b.enteredBy k = [] ∧ b.leftBy k = []
  told : ∀ {i : Nat} {q : Request α} {p : Party α}, b.asked[i]? = some q →
    h.parties[i]? = some p → p.Tells q (b.enteredBy i) (b.leftBy i)

namespace Kept

variable {capacity : Nat} {b : Books α} {h h' : HandOff α} {t : Turn α}

/-- Who waits is prepared to, and can. -/
theorem mayWait (kept : Kept capacity b h) {i : Nat} {q : Request α} {woken : Bool}
    (waits : h.parties[i]? = some (.waiting q woken)) : q.mayWait = true := by
  have lt : i < b.asked.length := kept.asked ▸ (List.getElem?_eq_some_iff.1 waits).1
  exact (kept.told (List.getElem?_eq_getElem lt) waits).1.2

theorem empty (capacity : Nat) : Kept capacity ({} : Books α) (ofRing (.empty capacity)) where
  layout := Ring.wellFormed_empty capacity
  capacity := Ring.capacity_empty capacity
  order := rfl
  asked := rfl
  unused _ _ := ⟨rfl, rfl⟩
  told asked := by simp at asked

/-- Parties that go on outside the critical section have nothing new to tell. -/
theorem apart (kept : Kept capacity b h) {ps : List (Party α)}
    (count : ps.length = h.parties.length)
    (same : ∀ {k : Nat} {p' : Party α}, ps[k]? = some p' → ∃ p, h.parties[k]? = some p ∧
      ∀ {q : Request α} {e l : List α}, p.Tells q e l → p'.Tells q e l) :
    Kept capacity b { h with parties := ps } where
  layout := kept.layout
  capacity := kept.capacity
  order := kept.order
  asked := kept.asked.trans count.symm
  unused k le := kept.unused k (count ▸ le)
  told {i q p'} asked found := by
    obtain ⟨p, before, tells⟩ := same found
    exact tells (kept.told asked before)

theorem set (kept : Kept capacity b h) {i : Nat} {old new : Party α}
    (own : h.parties[i]? = some old)
    (same : ∀ {q : Request α} {e l : List α}, old.Tells q e l → new.Tells q e l) :
    Kept capacity b { h with parties := h.parties.set i new } := by
  refine kept.apart List.length_set fun {k p'} found => ?_
  rw [List.getElem?_set] at found
  split at found
  · rename_i eq
    subst eq
    split at found
    · cases found
      exact ⟨_, own, same⟩
    · cases found
  · exact ⟨_, found, id⟩

theorem map (kept : Kept capacity b h) {f : Party α → Party α}
    (same : ∀ {p : Party α} {q : Request α} {e l : List α}, p.Tells q e l → (f p).Tells q e l) :
    Kept capacity b { h with parties := h.parties.map f } := by
  refine kept.apart (List.length_map _) fun {k p'} found => ?_
  rw [List.getElem?_map] at found
  obtain ⟨p, before, rfl⟩ := Option.map_eq_some_iff.1 found
  exact ⟨p, before, same⟩

theorem arrives (kept : Kept capacity b h) (q : Request α) :
    Kept capacity { b with asked := b.asked ++ [q] }
      { h with parties := h.parties ++ [.arriving q] } where
  layout := kept.layout
  capacity := kept.capacity
  order := kept.order
  asked := by simp [kept.asked]
  unused k le := kept.unused k (Nat.le_of_lt (by simpa [Nat.succ_le_iff] using le))
  told {i q' p} asked found := by
    rcases Nat.lt_trichotomy i h.parties.length with lt | rfl | lt
    · rw [List.getElem?_append_left (kept.asked ▸ lt)] at asked
      rw [List.getElem?_append_left lt] at found
      exact kept.told asked found
    · rw [← kept.asked, List.getElem?_concat_length] at asked
      rw [List.getElem?_concat_length] at found
      cases asked
      cases found
      exact ⟨.inl rfl, kept.unused _ (Nat.le_refl _)⟩
    · rw [List.getElem?_eq_none (by simpa [Nat.succ_le_iff] using lt)] at found
      cases found

theorem passes (kept : Kept capacity b h) {i : Nat} {q : Request α} {p : Party α}
    (own : h.parties[i]? = some p) (ready : p = .arriving q ∨ p = .waiting q true) :
    Kept capacity (b.change i h.ring.toList (attempt h.ring q).1.toList)
      (h.settleParty i (attempt h.ring q)) := by
  obtain ⟨layout, slots⟩ := layout_attempt kept.layout q
  have passes := passes_attempt kept.layout q
  have lt : i < h.parties.length := (List.getElem?_eq_some_iff.1 own).1
  have mine {q₀} (asked : b.asked[i]? = some q₀) :
      q₀.ComesTo q ∧ b.enteredBy i = [] ∧ b.leftBy i = [] := by
    have tells := kept.told asked own
    rcases ready with rfl | rfl
    · exact tells
    · exact ⟨tells.1.1, tells.2⟩
  refine ⟨layout, slots.trans kept.capacity, ?_, by simp [settleParty, Books.change, kept.asked],
    ?_, ?_⟩
  · simp only [Books.change, settleParty, List.map_append, List.map_map, Function.comp_def,
      List.map_id', kept.order, List.append_assoc, passes.order]
  · intro k le
    have le : h.parties.length ≤ k := by simpa [settleParty] using le
    have other : i ≠ k := Nat.ne_of_lt (Nat.lt_of_lt_of_le lt le)
    simpa only [Books.enteredBy_change, Books.leftBy_change, if_neg other, List.append_nil] using
      kept.unused k le
  · intro k q₀ p' asked found
    rw [Books.enteredBy_change, Books.leftBy_change]
    by_cases same : i = k
    · subst same
      obtain ⟨comes, entered, left⟩ := mine asked
      simp only [settleParty, List.getElem?_set_self lt, Option.some.injEq] at found
      rw [entered, left, ← found]
      simpa using passes.tells comes
    · simp only [settleParty, List.getElem?_set_ne same] at found
      simpa [same] using kept.told asked found

theorem goes (kept : Kept capacity b h) (goes : h.Goes t h') :
    Kept capacity (h.book b h' t) h' := by
  cases goes with
  | arrives q => exact kept.arrives q
  | passes own ready => exact kept.passes own ready
  | lapses own limited =>
    exact kept.set own fun tells => ⟨Request.comesTo_hurry tells.1.1 limited, tells.2⟩
  | tells own one target awaits =>
    exact (kept.set target Party.tells_wake).set (signaller_wakes own target awaits) id
  | tellsNobody own one nobody => exact kept.set own id
  | tellsAll own =>
    exact (kept.map Party.tells_wakeForRoom).set (signaller_wakesAll own) id

end Kept

/-! ## §3 The signals -/

/-- What a party that waits for `s` waits for, as far as it is there. -/
def stock (r : Ring α) : Signal → Nat
  | .item => r.len
  | .room => r.capacity - r.len
  | .roomForAll => 0

/-- A party counts for `s` once it was given `s`, or as long as it has still to give it. -/
def Party.counts (s : Signal) (p : Party α) : Nat := (p.isWoken s).toNat + (p.owes s).toNat

/-- If a party waits for `s` and was not signalled, then all that is there of what it waits for,
and `spare` more, is announced. -/
def Covers (h : HandOff α) (s : Signal) (spare : Nat) : Prop :=
  h.anyAwaits s = true →
    (s = .room ∧ h.parties.any (·.owes .roomForAll) = true) ∨
      stock h.ring s + spare ≤ h.parties.countP (·.isWoken s) + h.parties.countP (·.owes s)

theorem countP_set_add {β : Type} {l : List β} {i : Nat} {old : β} (own : l[i]? = some old)
    (f : β → Bool) (new : β) :
    (l.set i new).countP f + (f old).toNat = l.countP f + (f new).toNat := by
  obtain ⟨lt, rfl⟩ := List.getElem?_eq_some_iff.1 own
  have pos : f l[i] = true → 0 < l.countP f :=
    fun holds => List.countP_pos_iff.2 ⟨_, List.getElem_mem lt, holds⟩
  rw [List.countP_set lt]
  cases before : f l[i] with
  | false => cases f new <;> simp
  | true =>
    have := pos before
    cases f new <;> simp <;> omega

theorem mem_set_of_ne {β : Type} {l : List β} {i : Nat} {old new x : β} (own : l[i]? = some old)
    (mem : x ∈ l) (ne : x ≠ old) : x ∈ l.set i new := by
  obtain ⟨k, found⟩ := List.mem_iff_getElem?.1 mem
  have other : i ≠ k := fun same => ne (Option.some.inj ((same ▸ found).symm.trans own))
  exact List.mem_iff_getElem?.2 ⟨k, by rw [List.getElem?_set_ne other, found]⟩

/-- One party goes on, and the ring may change. Either nothing is left of what is waited for,
or everybody is to be told, or the party does not wait and pays for what it adds. -/
theorem Covers.set {h : HandOff α} {s : Signal} {spare spare' i : Nat} {old new : Party α}
    {r : Ring α} (covers : h.Covers s spare) (own : h.parties[i]? = some old)
    (quiet : s = .room → old.owes .roomForAll = false)
    (enough : stock r s + spare' = 0 ∨ (s = .room ∧ new.owes .roomForAll = true) ∨
      (new.awaits s = false ∧
        stock r s + spare' + old.counts s ≤ stock h.ring s + spare + new.counts s)) :
    Covers ⟨r, h.parties.set i new⟩ s spare' := by
  intro awaited
  have lt : i < h.parties.length := (List.getElem?_eq_some_iff.1 own).1
  rcases enough with nothing | ⟨room, all⟩ | ⟨idle, pays⟩
  · exact .inr (by show stock r s + spare' ≤ _; omega)
  · exact .inl ⟨room, List.any_eq_true.2 ⟨new, List.mem_set lt new, all⟩⟩
  · obtain ⟨p, mem, awaits⟩ := List.any_eq_true.1 awaited
    -- the party does not wait, so whoever waits now waited before, and what covered that is left
    have before : h.anyAwaits s = true := by
      rcases List.mem_or_eq_of_mem_set mem with mem | rfl
      · exact List.any_eq_true.2 ⟨p, mem, awaits⟩
      · rw [idle] at awaits
        cases awaits
    rcases covers before with ⟨room, all⟩ | counts
    · obtain ⟨p, mem, owes⟩ := List.any_eq_true.1 all
      have ne : p ≠ old := by
        rintro rfl
        rw [quiet room] at owes
        cases owes
      exact .inl ⟨room, List.any_eq_true.2 ⟨p, mem_set_of_ne own mem ne, owes⟩⟩
    · have woken := countP_set_add own (·.isWoken s) new
      have owing := countP_set_add own (·.owes s) new
      simp only [Party.counts] at pays woken owing
      refine .inr ?_
      show stock r s + spare' ≤
        (h.parties.set i new).countP (·.isWoken s) + (h.parties.set i new).countP (·.owes s)
      omega

/-- Nobody waits. -/
theorem Covers.of_nobody {h : HandOff α} {s : Signal} {spare : Nat}
    (nobody : ∀ p ∈ h.parties, p.awaits s = false) : h.Covers s spare := by
  intro awaited
  obtain ⟨p, mem, awaits⟩ := List.any_eq_true.1 awaited
  rw [nobody p mem] at awaits
  cases awaits

/-- The signal that a request waits for, if it waits. -/
def Request.seeks : Request α → Signal → Bool
  | .enqueue .., s => s == .room
  | .dequeue _, s => s == .item
  | .clear, _ => false

namespace Party

@[simp] theorem counts_arriving (q : Request α) (s : Signal) : (arriving q).counts s = 0 := rfl

@[simp] theorem counts_finished (a : Answer α) (s : Signal) : (finished a).counts s = 0 := rfl

@[simp] theorem counts_signalling (t : Signal) (a : Answer α) (s : Signal) :
    (signalling t a).counts s = (t == s).toNat := Nat.zero_add _

@[simp] theorem counts_waiting (q : Request α) (woken : Bool) (s : Signal) :
    (waiting q woken).counts s = (woken && q.seeks s).toNat := by
  cases q <;> cases woken <;> rfl

theorem awaits_waiting (q : Request α) (woken : Bool) {s : Signal} (one : s ≠ .roomForAll) :
    (waiting q woken).awaits s = (!woken && q.seeks s) := by
  cases q <;> cases woken <;> simp [awaits, Request.seeks, one]

theorem exists_of_awaits {p : Party α} {s : Signal} (awaits : p.awaits s = true)
    (one : s ≠ .roomForAll) : ∃ q : Request α, p = .waiting q false ∧ q.seeks s = true := by
  cases p with
  | waiting q woken =>
    rw [awaits_waiting q woken one] at awaits
    cases woken with
    | false => exact ⟨q, rfl, awaits⟩
    | true => cases awaits
  | _ => cases awaits

theorem counts_of_ready {p : Party α} {q : Request α}
    (ready : p = .arriving q ∨ p = .waiting q true) (s : Signal) :
    p.counts s ≤ (q.seeks s).toNat := by
  rcases ready with rfl | rfl <;> simp

/-- A party that waits for one thing does not wait for another. -/
theorem seeks_of_ne {q : Request α} {s s' : Signal} (seeks : q.seeks s = true) (ne : s' ≠ s) :
    q.seeks s' = false := by
  cases q <;> cases s <;> cases s' <;> simp_all [Request.seeks]

end Party

namespace Covers

variable {h h' : HandOff α} {s : Signal} {t : Turn α}

/-- A pass takes of the stock no more than the party was counted for, or leaves nothing; what
it adds it will announce. Nobody is told who then panics. -/
theorem enough {r' : Ring α} {q : Request α} {old new : Party α} (layout : h.ring.WellFormed)
    (layout' : r'.WellFormed) (slots : r'.capacity = h.ring.capacity)
    (passes : Passes h.ring q r' new) (few : old.counts s ≤ (q.seeks s).toNat)
    (untold : q.overflows = true → old.counts s = 0)
    (one : s ≠ .roomForAll) :
    stock r' s + 0 = 0 ∨ (s = .room ∧ new.owes .roomForAll = true) ∨
      (new.awaits s = false ∧
        stock r' s + 0 + old.counts s ≤ stock h.ring s + 0 + new.counts s) := by
  have len := Ring.length_toList layout
  have len' := Ring.length_toList layout'
  have fits := layout.len_le
  cases s with
  | roomForAll => exact absurd rfl one
  | item =>
    cases passes with
    | enters room items =>
      have more : r'.len = h.ring.len + 1 := by simp [← len, ← len', items]
      have uncounted : old.counts .item = 0 := Nat.le_zero.1 few
      exact .inr (.inr ⟨rfl, by simp [stock, more, uncounted]⟩)
    | leaves items =>
      have less : h.ring.len = r'.len + 1 := by simp [← len, ← len', items]
      have most : old.counts .item ≤ 1 := few
      refine .inr (.inr ⟨rfl, ?_⟩)
      simp only [stock, less]
      omega
    | clears items emptied | clearsNone items emptied =>
      exact .inl (by simp [stock, ← len', emptied])
    | refuses full =>
      have uncounted : old.counts .item = 0 := Nat.le_zero.1 few
      exact .inr (.inr ⟨rfl, by simp [uncounted]⟩)
    | findsNone items | waitsForItem patient items =>
      exact .inl (by simp [stock, ← len, items])
    | waitsForRoom patient full =>
      have uncounted : old.counts .item = 0 := Nat.le_zero.1 few
      exact .inr (.inr ⟨rfl, by simp [uncounted]⟩)
    | panics overflows => exact .inr (.inr ⟨rfl, by simp [untold overflows]⟩)
  | room =>
    cases passes with
    | enters room items =>
      have more : r'.len = h.ring.len + 1 := by simp [← len, ← len', items]
      have most : old.counts .room ≤ 1 := few
      have space : h.ring.len ≠ h.ring.capacity := by simpa [Ring.isFull] using room
      refine .inr (.inr ⟨rfl, ?_⟩)
      simp only [stock, more, slots, Party.counts_signalling]
      omega
    | leaves items =>
      have less : h.ring.len = r'.len + 1 := by simp [← len, ← len', items]
      have uncounted : old.counts .room = 0 := Nat.le_zero.1 few
      refine .inr (.inr ⟨rfl, ?_⟩)
      simp only [stock, less, slots, uncounted, Party.counts_signalling, beq_self_eq_true,
        Bool.toNat_true]
      omega
    | clears items emptied => exact .inr (.inl ⟨rfl, rfl⟩)
    | clearsNone items emptied =>
      have same : r'.len = h.ring.len := by rw [← len, ← len', items, emptied]
      have uncounted : old.counts .room = 0 := Nat.le_zero.1 few
      exact .inr (.inr ⟨rfl, by simp [stock, same, slots, uncounted]⟩)
    | refuses full | waitsForRoom patient full =>
      have last : h.ring.len = h.ring.capacity := by simpa [Ring.isFull] using full
      exact .inl (by simp [stock, last])
    | findsNone items | waitsForItem patient items =>
      have uncounted : old.counts .room = 0 := Nat.le_zero.1 few
      exact .inr (.inr ⟨rfl, by simp [uncounted]⟩)
    | panics overflows => exact .inr (.inr ⟨rfl, by simp [untold overflows]⟩)

theorem arrives (covers : h.Covers s 0) (q : Request α) :
    Covers { h with parties := h.parties ++ [.arriving q] } s 0 := by
  intro awaited
  have before : h.anyAwaits s = true := by
    simpa [anyAwaits, Party.awaits] using awaited
  simpa [Party.owes, Party.isWoken] using covers before

theorem signaller_quiet {u : Signal} {a : Answer α} (other : u ≠ .roomForAll) :
    s = .room → (Party.signalling u a).owes .roomForAll = false :=
  fun _ => by simpa [Party.owes] using other

/-- A signal that is given goes from one count to the other. -/
theorem tells (covers : h.Covers s 0) {i j : Nat} {u : Signal} {a : Answer α} {p : Party α}
    (own : h.parties[i]? = some (.signalling u a)) (one' : u ≠ .roomForAll)
    (target : h.parties[j]? = some p) (awaits : p.awaits u = true) (one : s ≠ .roomForAll) :
    Covers { h with parties := (h.parties.set j p.wake).set i (.finished a) } s 0 := by
  obtain ⟨q, rfl, seeks⟩ := Party.exists_of_awaits awaits one'
  have after := signaller_wakes own target awaits
  have idle : (Party.waiting q true).awaits s = false := Party.awaits_waiting q true one
  by_cases same : s = u
  · subst same
    have woken : Covers ⟨h.ring, h.parties.set j (.waiting q true)⟩ s 1 :=
      covers.set target (fun _ => rfl) (.inr (.inr ⟨idle, by simp [seeks]⟩))
    exact woken.set after (signaller_quiet one') (.inr (.inr ⟨rfl, by simp⟩))
  · have unsought : q.seeks s = false := Party.seeks_of_ne seeks same
    have other : (u == s) = false := by simpa using Ne.symm same
    have woken : Covers ⟨h.ring, h.parties.set j (.waiting q true)⟩ s 0 :=
      covers.set target (fun _ => rfl) (.inr (.inr ⟨idle, by simp [unsought]⟩))
    exact woken.set after (signaller_quiet one') (.inr (.inr ⟨rfl, by simp [other]⟩))

/-- A signal is lost only if nobody waits for it. -/
theorem tellsNobody (covers : h.Covers s 0) {i : Nat} {u : Signal} {a : Answer α}
    (own : h.parties[i]? = some (.signalling u a)) (one' : u ≠ .roomForAll)
    (nobody : h.anyAwaits u = false) :
    Covers { h with parties := h.parties.set i (.finished a) } s 0 := by
  by_cases same : s = u
  · subst same
    refine of_nobody fun p mem => ?_
    rcases List.mem_or_eq_of_mem_set mem with mem | rfl
    · exact Bool.eq_false_iff.2 fun awaits =>
        absurd (List.any_eq_true.2 ⟨p, mem, awaits⟩) (Bool.eq_false_iff.1 nobody)
    · rfl
  · have other : (u == s) = false := by simpa using Ne.symm same
    exact covers.set own (signaller_quiet one') (.inr (.inr ⟨rfl, by simp [other]⟩))

/-- Everybody who waits for room is told; who waits for an item is not concerned. -/
theorem tellsAll (covers : h.Covers s 0) {i : Nat} {a : Answer α}
    (own : h.parties[i]? = some (.signalling .roomForAll a)) (one : s ≠ .roomForAll) :
    Covers { h with parties := (h.parties.map Party.wakeForRoom).set i (.finished a) } s 0 := by
  cases s with
  | roomForAll => exact absurd rfl one
  | room =>
    refine of_nobody fun p mem => ?_
    rcases List.mem_or_eq_of_mem_set mem with mem | rfl
    · obtain ⟨p, -, rfl⟩ := List.mem_map.1 mem
      cases p with
      | waiting q woken => cases q <;> cases woken <;> rfl
      | _ => rfl
    · rfl
  | item =>
    have told : Covers { h with parties := h.parties.map Party.wakeForRoom } .item 0 := by
      have same (p : Party α) : p.wakeForRoom.awaits .item = p.awaits .item ∧
          p.wakeForRoom.isWoken .item = p.isWoken .item ∧
          p.wakeForRoom.owes .item = p.owes .item := by
        cases p with
        | waiting q woken => cases q <;> cases woken <;> exact ⟨rfl, rfl, rfl⟩
        | _ => exact ⟨rfl, rfl, rfl⟩
      intro awaited
      simp only [anyAwaits, List.any_map, Function.comp_def, same] at awaited
      rcases covers awaited with ⟨room, -⟩ | counts
      · cases room
      · refine .inr ?_
        simpa only [List.countP_map, Function.comp_def, same] using counts
    exact told.set (signaller_wakesAll own) (fun room => by cases room)
      (.inr (.inr ⟨rfl, Nat.le_refl _⟩))

theorem goes {capacity : Nat} {b : Books α} (kept : Kept capacity b h) (covers : h.Covers s 0)
    (one : s ≠ .roomForAll) (goes : h.Goes t h') : h'.Covers s 0 := by
  cases goes with
  | arrives q => exact covers.arrives q
  | passes own ready =>
    rename_i i q p
    obtain ⟨layout', slots⟩ := layout_attempt kept.layout q
    refine covers.set own (fun _ => ?_) (enough kept.layout layout' slots
      (passes_attempt kept.layout q) (Party.counts_of_ready ready s) (fun overflows => ?_) one)
    · rcases ready with rfl | rfl <;> rfl
    · rcases ready with rfl | rfl
      · rfl
      · -- who waits has asked how long
        rw [Request.not_overflows_of_mayWait (kept.mayWait own)] at overflows
        cases overflows
  | lapses own limited =>
    exact covers.set own (fun _ => rfl) (.inr (.inr ⟨rfl, by simp⟩))
  | tells own one' target awaits => exact covers.tells own one' target awaits one
  | tellsNobody own one' nobody => exact covers.tellsNobody own one' nobody
  | tellsAll own => exact covers.tellsAll own one

end Covers
end HandOff
end JobPool
