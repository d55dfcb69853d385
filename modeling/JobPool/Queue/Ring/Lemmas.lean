/-
JobPool.Queue.Ring.Lemmas — what the operations of a ring do to its items.

A well-formed ring stays well-formed and keeps its capacity. In terms of the
items `toList`, `push` puts one behind the last (`toList_push`), `pop` takes the
first one or finds none (`pop_cases`), and `clear` leaves none (`toList_clear`),
wherever in the ring the items lie.
-/
import JobPool.Queue.Ring
import Mathlib.Data.List.Basic

namespace JobPool
namespace Ring

variable {α : Type}

/-! ## Places and slots -/

theorem slot_lt {r : Ring α} (h : r.WellFormed) (k : Nat) : r.slot k < r.capacity :=
  Nat.mod_lt _ (Nat.lt_of_le_of_lt (Nat.zero_le _) h.head_lt)

/-- Places less than the capacity apart have slots of their own. -/
theorem slot_inj {r : Ring α} {j k : Nat} (hj : j < r.capacity) (hk : k < r.capacity)
    (h : r.slot j = r.slot k) : j = k := by
  have hm : (r.head + j) % r.capacity = (r.head + k) % r.capacity := h
  have h1 := Nat.div_add_mod (r.head + j) r.capacity
  have h2 := Nat.div_add_mod (r.head + k) r.capacity
  rw [hm] at h1
  generalize (r.head + j) / r.capacity = a at h1
  generalize (r.head + k) / r.capacity = b at h2
  rcases Nat.lt_trichotomy a b with hab | hab | hab
  · have : r.capacity * (a + 1) ≤ r.capacity * b := Nat.mul_le_mul_left _ hab
    rw [Nat.mul_add] at this
    omega
  · subst hab; omega
  · have : r.capacity * (b + 1) ≤ r.capacity * a := Nat.mul_le_mul_left _ hab
    rw [Nat.mul_add] at this
    omega

/-- Every slot lies at some place. -/
theorem exists_slot_eq {r : Ring α} (h : r.WellFormed) {i : Nat} (hi : i < r.capacity) :
    ∃ k, k < r.capacity ∧ r.slot k = i := by
  have hh := h.head_lt
  by_cases hle : r.head ≤ i
  · exact ⟨i - r.head, by omega, by
      rw [slot, show r.head + (i - r.head) = i by omega, Nat.mod_eq_of_lt hi]⟩
  · exact ⟨i + r.capacity - r.head, by omega, by
      rw [slot, show r.head + (i + r.capacity - r.head) = i + r.capacity by omega,
        Nat.add_mod_right, Nat.mod_eq_of_lt hi]⟩

/-! ## The items -/

/-- A ring has as many items as it says. -/
theorem length_toList {r : Ring α} (h : r.WellFormed) : r.toList.length = r.len := by
  rw [toList]
  have all : ∀ n, n ≤ r.len → ((List.range n).filterMap r.peek).length = n := by
    intro n
    induction n with
    | zero => intro _; rfl
    | succ n ih =>
      intro hn
      have hs := (h.filled _ (by have := h.len_le; omega)).2 (show n < r.len by omega)
      obtain ⟨a, ha⟩ := Option.isSome_iff_exists.1 hs
      rw [List.range_succ, List.filterMap_append, List.length_append, ih (by omega)]
      simp [ha]
  exact all _ (Nat.le_refl _)

/-! ## The empty ring -/

theorem wellFormed_empty (capacity : Nat) : (empty capacity : Ring α).WellFormed where
  head_lt := by
    show 0 < (Array.replicate (max capacity 1) (none : Option α)).size
    rw [Array.size_replicate]
    omega
  len_le := Nat.zero_le _
  filled k _ := by
    have none_at : (empty capacity : Ring α).peek k = none := by
      unfold peek empty
      rw [Array.getElem?_replicate]
      split <;> rfl
    rw [none_at]
    simp [empty]

@[simp] theorem toList_empty (capacity : Nat) : (empty capacity : Ring α).toList = [] := rfl

@[simp] theorem capacity_empty (n : Nat) : (empty n : Ring α).capacity = max n 1 := by
  simp [empty, capacity]

/-! ## Putting an item behind the last -/

@[simp] theorem capacity_push (r : Ring α) (a : α) : (r.push a).capacity = r.capacity := by
  simp [push, capacity]

@[simp] theorem slot_push (r : Ring α) (a : α) (k : Nat) : (r.push a).slot k = r.slot k := by
  simp [push, slot, capacity]

theorem peek_push {r : Ring α} (h : r.WellFormed) (room : r.len < r.capacity) (a : α) {k : Nat}
    (hk : k < r.capacity) : (r.push a).peek k = if k = r.len then some a else r.peek k := by
  unfold peek
  rw [slot_push]
  show ((r.slots.setIfInBounds (r.slot r.len) (some a))[r.slot k]?).join = _
  rw [Array.getElem?_setIfInBounds]
  by_cases hkl : k = r.len
  · have := slot_lt h r.len
    simp only [capacity] at this
    simp [hkl, this]
  · have hne : ¬ r.slot r.len = r.slot k := fun e => hkl (slot_inj hk room e.symm)
    simp [hkl, hne]

theorem wellFormed_push {r : Ring α} (h : r.WellFormed) (room : r.len < r.capacity) (a : α) :
    (r.push a).WellFormed where
  head_lt := by rw [capacity_push]; exact h.head_lt
  len_le := by rw [capacity_push]; exact room
  filled k hk := by
    rw [capacity_push] at hk
    show ((r.push a).peek k).isSome ↔ k < r.len + 1
    rw [peek_push h room a hk]
    by_cases hkl : k = r.len
    · simp [hkl]
    · rw [if_neg hkl, h.filled k hk]; omega

/-- A pushed item comes last. -/
theorem toList_push {r : Ring α} (h : r.WellFormed) (room : r.len < r.capacity) (a : α) :
    (r.push a).toList = r.toList ++ [a] := by
  rw [toList, toList]
  show (List.range (r.len + 1)).filterMap (r.push a).peek = _
  rw [List.range_succ, List.filterMap_append]
  have old : ∀ k, k < r.len → (r.push a).peek k = r.peek k := fun k hk => by
    rw [peek_push h room a (by omega), if_neg (by omega)]
  rw [List.filterMap_congr fun k hk => old k (List.mem_range.1 hk)]
  simp [peek_push h room a room]

/-! ## Taking the oldest item -/

theorem pop_of_pos {r : Ring α} (h : r.WellFormed) (pos : 0 < r.len) :
    r.pop = (r.peek 0, r.tail) := by
  unfold pop peek tail
  rw [if_neg (by omega)]
  simp [slot, Nat.mod_eq_of_lt h.head_lt]

@[simp] theorem capacity_tail (r : Ring α) : r.tail.capacity = r.capacity := by
  simp [tail, capacity]

theorem slot_tail (r : Ring α) (k : Nat) : r.tail.slot k = r.slot (k + 1) := by
  unfold slot
  rw [capacity_tail]
  show ((r.head + 1) % r.capacity + k) % r.capacity = _
  rw [Nat.mod_add_mod, Nat.add_assoc, Nat.add_comm 1 k]

theorem peek_tail {r : Ring α} (h : r.WellFormed) {k : Nat} (hk : k < r.capacity) :
    r.tail.peek k = if k + 1 = r.capacity then none else r.peek (k + 1) := by
  unfold peek
  rw [slot_tail]
  show ((r.slots.setIfInBounds r.head none)[r.slot (k + 1)]?).join = _
  rw [Array.getElem?_setIfInBounds]
  have hhead : r.head = r.slot 0 := by simp [slot, Nat.mod_eq_of_lt h.head_lt]
  by_cases hkc : k + 1 = r.capacity
  · have hs : r.slot r.capacity = r.head := by simp [slot, Nat.mod_eq_of_lt h.head_lt]
    have hlt := h.head_lt
    simp only [capacity] at hlt
    rw [hkc, hs]
    simp [hlt]
  · have hne : ¬ r.head = r.slot (k + 1) := fun e =>
      absurd (slot_inj (by omega) (by omega) (hhead ▸ e)) (by omega)
    simp [hkc, hne]

theorem wellFormed_tail {r : Ring α} (h : r.WellFormed) (pos : 0 < r.len) :
    r.tail.WellFormed where
  head_lt := by rw [capacity_tail]; exact slot_lt h 1
  len_le := by rw [capacity_tail]; have := h.len_le; simp only [tail]; omega
  filled k hk := by
    rw [capacity_tail] at hk
    show (r.tail.peek k).isSome ↔ k < r.len - 1
    rw [peek_tail h hk]
    have := h.len_le
    split
    · simp; omega
    · rw [h.filled _ (by omega)]; omega

/-- The item at the head comes first, and the rest is the list of the tail. -/
theorem toList_of_pos {r : Ring α} (h : r.WellFormed) (pos : 0 < r.len) :
    ∃ a, r.peek 0 = some a ∧ r.toList = a :: r.tail.toList := by
  have hc := h.len_le
  obtain ⟨a, ha⟩ := Option.isSome_iff_exists.1 ((h.filled _ (by omega)).2 pos)
  refine ⟨a, ha, ?_⟩
  obtain ⟨n, hn⟩ : ∃ n, r.len = n + 1 := ⟨r.len - 1, by omega⟩
  have rest : ∀ k, k < n → r.peek (k + 1) = r.tail.peek k := fun k hk => by
    rw [peek_tail h (by omega), if_neg (by omega)]
  rw [toList, toList, hn, List.range_succ_eq_map, List.filterMap_cons, ha,
    List.filterMap_map]
  show a :: (List.range n).filterMap (fun k => r.peek (k + 1)) = _
  rw [List.filterMap_congr fun k hk => rest k (List.mem_range.1 hk)]
  simp [tail, hn]

/-- Taking from a ring that holds nothing leaves it as it is; else the first
item comes out and the others stay in order. -/
theorem pop_cases {r : Ring α} (h : r.WellFormed) :
    (r.toList = [] ∧ r.pop = (none, r)) ∨
      ∃ a r', r.pop = (some a, r') ∧ r'.WellFormed ∧ r'.capacity = r.capacity ∧
        r.toList = a :: r'.toList := by
  by_cases hlen : r.len = 0
  · exact .inl ⟨by simp [toList, hlen], by simp [pop, hlen]⟩
  · have pos : 0 < r.len := by omega
    obtain ⟨a, ha, hl⟩ := toList_of_pos h pos
    exact .inr ⟨a, r.tail, by rw [pop_of_pos h pos, ha], wellFormed_tail h pos, capacity_tail r, hl⟩

/-- Taking out up to `n` items drops that many from the front. -/
theorem toList_drain : ∀ (n : Nat) {r : Ring α}, r.WellFormed →
    (r.drain n).WellFormed ∧ (r.drain n).capacity = r.capacity ∧
      (r.drain n).toList = r.toList.drop n
  | 0, r, h => ⟨h, rfl, by simp [drain]⟩
  | n + 1, r, h => by
    rcases pop_cases h with ⟨hnil, hpop⟩ | ⟨a, r', hpop, hwf, hcap, hl⟩
    · simp [drain, hpop, h, hnil]
    · obtain ⟨h1, h2, h3⟩ := toList_drain n hwf
      simp only [drain, hpop]
      exact ⟨h1, h2.trans hcap, by rw [h3, hl]; rfl⟩

/-! ## Dropping everything -/

theorem len_drain {r : Ring α} (h : r.WellFormed) : (r.drain r.len).len = 0 := by
  have hd := toList_drain r.len h
  rw [← length_toList hd.1, hd.2.2, ← length_toList h]
  simp

theorem toList_clear {r : Ring α} (h : r.WellFormed) : r.clear.2.toList = [] := by
  simp [toList, clear, len_drain h]

theorem wellFormed_clear {r : Ring α} (h : r.WellFormed) : r.clear.2.WellFormed := by
  have hd := (toList_drain r.len h).1
  have hlen := len_drain h
  have blank : ∀ i, i < (r.drain r.len).capacity →
      ¬ (((r.drain r.len).slots[i]?).join).isSome := by
    intro i hi hs
    obtain ⟨k, hk, rfl⟩ := exists_slot_eq hd hi
    exact absurd ((hd.filled k hk).1 hs) (by omega)
  have hpos := Nat.lt_of_le_of_lt (Nat.zero_le _) hd.head_lt
  refine ⟨hpos, by simp [clear, hlen], fun k hk => ?_⟩
  have hk : k < (r.drain r.len).capacity := hk
  have hslot : r.clear.2.slot k = k := by
    show (0 + k) % (r.drain r.len).capacity = k
    rw [Nat.zero_add, Nat.mod_eq_of_lt hk]
  rw [peek, hslot]
  show _ ↔ k < (r.drain r.len).len
  simp only [hlen, Nat.not_lt_zero, iff_false]
  exact blank k hk

@[simp] theorem capacity_clear {r : Ring α} (h : r.WellFormed) :
    r.clear.2.capacity = r.capacity := (toList_drain r.len h).2.1

end Ring
end JobPool
