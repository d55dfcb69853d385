/-
JobPool.Proofs.Settings — the last choice for each field stands.

One choice gives its field its value (`value_choose_self`) and leaves the other fields alone
(`value_choose_of_ne`). The rest is about rows of choices alone: by induction on the row each
field ends up with what `Choice.last?` says of it (`value_chooseAll`), and settings are known by
their fields (`eq_iff_value`), so two rows that say the same in the end come to the same
settings (`chooseAll_congr`).

  §1 Fields
  §2 What a row says in the end
  §3 Rows on settings
-/
import Mathlib.Data.List.Basic
import JobPool.Settings.Field

namespace JobPool

open Settings (Field)

/-! ## §1 Fields -/

namespace Settings

variable (s : Settings) (c : Choice) (f : Field)

theorem ofValues_value : ofValues s.value = s := rfl

theorem eq_iff_value {s t : Settings} : s = t ↔ ∀ f, t.value f = s.value f := by
  constructor
  · rintro rfl f
    rfl
  · intro same
    calc s = ofValues s.value := (ofValues_value s).symm
      _ = ofValues t.value := congrArg ofValues (funext fun f => (same f).symm)
      _ = t := ofValues_value t

theorem value_choose_self : (s.choose c).value c.field = c.value := by
  cases c <;> rfl

theorem value_choose_of_ne {s : Settings} {c : Choice} {f : Field} (other : c.field ≠ f) :
    (s.choose c).value f = s.value f := by
  cases c <;> cases f <;> first | rfl | exact absurd rfl other

theorem value_choose : (s.choose c).value f = (c.valueFor? f).getD (s.value f) := by
  unfold Choice.valueFor?
  split
  · rename_i about
    subst about
    exact s.value_choose_self c
  · rename_i other
    exact value_choose_of_ne other

end Settings

/-! ## §2 What a row says in the end -/

namespace Choice

variable (cs ds : List Choice) (f : Field)

theorem last?_append : last? (cs ++ ds) f = (last? ds f).or (last? cs f) := by
  simp only [last?, List.filterMap_append, List.getLast?_append]

theorem last?_cons (c : Choice) : last? (c :: cs) f = (last? cs f).or (c.valueFor? f) := by
  rw [← List.singleton_append, last?_append]
  cases about : c.valueFor? f <;> simp [last?, about]

theorem isSome_valueFor? (c : Choice) : (c.valueFor? f).isSome = decide (c.field = f) := by
  by_cases about : c.field = f <;> simp [valueFor?, about]

/-- Choices for other fields have no say. -/
theorem last?_filter {p : Choice → Bool} (keeps : ∀ c ∈ cs, c.field = f → p c = true) :
    last? (cs.filter p) f = last? cs f := by
  unfold last?
  rw [List.filterMap_filter]
  congr 1
  refine List.filterMap_congr fun c mem => ?_
  by_cases about : c.field = f
  · simp [keeps c mem about]
  · simp [valueFor?, about]

theorem isSome_last? (chosen : f ∈ cs.map field) : (last? cs f).isSome = true := by
  induction cs with
  | nil => cases chosen
  | cons c cs ih =>
    rw [last?_cons]
    rcases List.mem_cons.1 chosen with rfl | later
    · simp [isSome_valueFor?]
    · simp [ih later]

end Choice

/-! ## §3 Rows on settings -/

namespace Settings

variable (s : Settings) (cs : List Choice)

theorem chooseAll_append (ds : List Choice) :
    s.chooseAll (cs ++ ds) = (s.chooseAll cs).chooseAll ds :=
  List.foldl_append

theorem value_chooseAll (f : Field) :
    (s.chooseAll cs).value f = (Choice.last? cs f).getD (s.value f) := by
  induction cs generalizing s with
  | nil => rfl
  | cons c cs ih =>
    calc ((s.choose c).chooseAll cs).value f
        = (Choice.last? cs f).getD ((s.choose c).value f) := ih (s.choose c)
      _ = (Choice.last? cs f).getD ((c.valueFor? f).getD (s.value f)) := by rw [value_choose]
      _ = (Choice.last? (c :: cs) f).getD (s.value f) := by rw [Choice.last?_cons, Option.getD_or]

theorem chooseAll_congr {cs ds : List Choice} (same : ∀ f, Choice.last? ds f = Choice.last? cs f) :
    s.chooseAll ds = s.chooseAll cs := by
  refine eq_iff_value.2 fun f => ?_
  rw [value_chooseAll, value_chooseAll, same f]

theorem lastStands : s.LastStands cs where
  fields t := by
    rw [eq_iff_value]
    exact forall_congr' fun f => by rw [value_chooseAll]
  order ds alike := by
    refine s.chooseAll_congr fun f => ?_
    have own (row : List Choice) :
        Choice.last? (row.filter (·.field = f)) f = Choice.last? row f :=
      Choice.last?_filter row f fun c _ about => decide_eq_true about
    rw [← own ds, ← own cs, alike f]
  earlier before := by
    refine s.chooseAll_congr fun f => ?_
    rw [Choice.last?_append, Choice.last?_append]
    by_cases again : f ∈ cs.map Choice.field
    · -- whatever was said before, the last word is in `cs`
      obtain ⟨v, last⟩ := Option.isSome_iff_exists.1 (Choice.isSome_last? cs f again)
      simp [last]
    · rw [Choice.last?_filter before f fun c _ about => by simpa [about] using again]

/-- The bound on workers has the last word of the two, and no batch at all counts as one. -/
example :
    ofChoices [.maxWorkers 4, .batch 0, .maxWorkers 0] =
      { worker := { maxWorkers := 1, batch := 1 } } := by
  decide

end Settings
end JobPool
