/-
JobPool.Proofs.Pool.Drafting — in the making of a pool the last word on each thing counts.

What a draft says about the driver and about the bus is the last that its steps said
(`driver_applyAll`, `bus_applyAll`), and its settings are the last ones given with the choices
made since (`settings_applyAll`). All three go by induction on the steps from the end, where
each step is one equation. Building puts this into the world (`build_eq`).
-/
import Mathlib.Data.List.Induction
import JobPool.Pool.Drafting
import JobPool.Proofs.Manager.History
import JobPool.Proofs.Settings

namespace JobPool
namespace Draft

variable (d : Draft) (x : Step) (steps : List Step)

theorem applyAll_concat : d.applyAll (steps ++ [x]) = (d.applyAll steps).apply x :=
  List.foldl_concat ..

/-! ## §1 Driver and bus -/

theorem last?_concat {α : Type} (say : Step → Option α) :
    last? say (steps ++ [x]) = (say x).or (last? say steps) := by
  cases said : say x <;> simp [last?, said]

/-- What a step may replace is in the end as the last such step left it. -/
theorem part_applyAll {α : Type} {say : Step → Option α} {part : Draft → Option α}
    (step : ∀ d x, part (d.apply x) = (say x).or (part d)) :
    part (d.applyAll steps) = (last? say steps).or (part d) := by
  induction steps using List.reverseRecOn with
  | nil => rfl
  | append_singleton steps x ih =>
    calc part (d.applyAll (steps ++ [x]))
        = (say x).or (part (d.applyAll steps)) := by rw [applyAll_concat, step]
      _ = (last? say (steps ++ [x])).or (part d) := by rw [ih, last?_concat, Option.or_assoc]

theorem driver_applyAll :
    (d.applyAll steps).driver = (last? Step.driver? steps).or d.driver :=
  part_applyAll d steps fun _ x => by cases x <;> rfl

theorem bus_applyAll : (d.applyAll steps).bus = (last? Step.bus? steps).or d.bus :=
  part_applyAll d steps fun _ x => by cases x <;> rfl

theorem name_applyAll : (d.applyAll steps).name = d.name := by
  induction steps using List.reverseRecOn with
  | nil => rfl
  | append_singleton steps x ih =>
    rw [applyAll_concat]
    cases x <;> exact ih

/-! ## §2 Settings -/

theorem settings_apply :
    (d.apply x).settings = (x.settings?.getD d.settings).chooseAll x.choices := by
  cases x <;> rfl

theorem choicesSince_concat :
    choicesSince (steps ++ [x]) =
      if x.settings?.isNone then choicesSince steps ++ x.choices else [] := by
  unfold choicesSince
  rw [List.rtakeWhile_concat]
  split <;> simp

theorem settings_applyAll :
    (d.applyAll steps).settings =
      ((last? Step.settings? steps).getD d.settings).chooseAll (choicesSince steps) := by
  induction steps using List.reverseRecOn with
  | nil => rfl
  | append_singleton steps x ih =>
    rw [applyAll_concat, settings_apply, last?_concat, choicesSince_concat, ih]
    cases given : x.settings? with
    | none => exact (Settings.chooseAll_append ..).symm
    | some s =>
      -- a step that gives whole settings makes no choices
      cases x with
      | settings => rfl
      | _ => cases given

/-- If whole settings are never given, every choice stands. -/
theorem last?_settings_of_ungiven (ungiven : ∀ x ∈ steps, x.settings? = none) :
    last? Step.settings? steps = none ∧ choicesSince steps = steps.flatMap Step.choices := by
  constructor
  · unfold last?
    rw [List.filterMap_eq_nil_iff.2 ungiven]
    rfl
  · unfold choicesSince
    rw [List.rtakeWhile_eq_self_iff.2 fun x mem => by rw [ungiven x mem]; rfl]

theorem settings_apply_of_aside {x : Step} (aside : x.isOfSettings = false) :
    (d.apply x).settings = d.settings := by
  cases x with
  | driver | bus => rfl
  | choose | chooseAll | settings => cases aside

/-- Steps about the driver and the bus can be left out. -/
theorem settings_applyAll_filter :
    (d.applyAll (steps.filter (·.isOfSettings))).settings = (d.applyAll steps).settings := by
  induction steps using List.reverseRecOn with
  | nil => rfl
  | append_singleton steps x ih =>
    rw [List.filter_append, applyAll_concat]
    cases own : x.isOfSettings with
    | true =>
      have kept : [x].filter (·.isOfSettings) = [x] := by simp [own]
      rw [kept, applyAll_concat, settings_apply, settings_apply, ih]
    | false =>
      have left : [x].filter (·.isOfSettings) = [] := by simp [own]
      rw [left, List.append_nil, settings_apply_of_aside _ own, ih]

/-! ## §3 The pool that is built -/

theorem build_eq (w : World) :
    d.build w =
      (w.members.length,
        { w with
          drivers := w.drivers ++ if d.driver.isSome then [] else [.memory {}]
          buses := (w.buses ++ if d.bus.isSome then [] else [Bus.empty]).modify
            (d.bus.getD w.buses.length) (·.ensureLifecycle)
          members := w.members ++
            [{ pool := .create d.name d.settings
               driver := d.driver.getD w.drivers.length
               bus := d.bus.getD w.buses.length }] }) := by
  cases driver : d.driver <;> cases bus : d.bus <;>
    simp [build, driver, bus, World.addDriver, World.addBus, World.addPool]

theorem settingsOf_build (w : World) :
    (d.build w).2.settingsOf (d.build w).1 = some d.settings := by
  simp [build_eq, World.settingsOf, Pool.create]

end Draft

theorem World.settingsOf_addPool (w : World) (name : String) (settings : Settings)
    (driver : DriverId) (bus : BusId) :
    (w.addPool name settings driver bus).2.settingsOf w.members.length = some settings := by
  simp [settingsOf, addPool, Pool.create]

/-- Of a row of choices the last one for each field stands, with counts raised to one; fields
that are not chosen keep their values. So choices for different fields may change places, and
what is chosen again later need not have been chosen before. A pool that is made step by step
has the settings given last, or the standard ones, with the choices made after them, and so
what the same choices give when they are applied at once or handed to a manager, if no whole
settings are given. Of drivers and of buses the last one given counts, and settings do not
depend on them. -/
theorem last_word_counts (base : Settings) (cs : List Choice) (name : String)
    (steps : List Draft.Step) (w : World) :
    base.LastStands cs ∧
      Draft.Makes name steps w ((Draft.applyAll { name } steps).build w) := by
  let draft : Draft := Draft.applyAll { name } steps
  have settings := Draft.settings_applyAll { name } steps
  have built : (draft.build w).2.settingsOf (draft.build w).1 = some draft.settings :=
    draft.settingsOf_build w
  have plain (ungiven : ∀ x ∈ steps, x.settings? = none) :
      draft.settings = .ofChoices (steps.flatMap Draft.Step.choices) := by
    obtain ⟨nothing, all⟩ := Draft.last?_settings_of_ungiven steps ungiven
    rw [nothing, all] at settings
    exact settings
  have driver := Draft.driver_applyAll { name } steps
  have bus := Draft.bus_applyAll { name } steps
  rw [Option.or_none] at driver bus
  refine ⟨base.lastStands cs, ?_⟩
  constructor
  case member =>
    rw [Draft.build_eq, Draft.name_applyAll, settings, driver, bus]
    exact ⟨rfl, rfl⟩
  case drivers => rw [Draft.build_eq, driver]
  case buses => rw [Draft.build_eq, bus]
  case ofChoices =>
    intro ungiven
    rw [built, plain ungiven]
  case created =>
    intro ungiven m v other driver free
    refine ⟨_, _, _, m.create_of_none free v driver _, ?_⟩
    rw [World.settingsOf_addPool, built, plain ungiven]
  case aside =>
    intro others alike v i v' made
    have own := (Draft.applyAll { name } others).settingsOf_build v
    rw [made] at own
    calc v'.settingsOf i
        = some (Draft.applyAll { name } others).settings := own
      _ = some draft.settings := by
        rw [← Draft.settings_applyAll_filter, alike, Draft.settings_applyAll_filter]
      _ = (draft.build w).2.settingsOf (draft.build w).1 := built.symm

/-- Steps that give whole settings between choices, and two drivers. -/
def Draft.revised : List Draft.Step :=
  [.choose (.maxWorkers 7), .driver 0, .settings { worker := { batch := 2 } }, .bus 0,
   .chooseAll [.maxAttempts 0, .retryDelay (.ofSecs 1)], .driver 1,
   .choose (.retryDelay (.ofSecs 2))]

/-- The same without the whole settings. -/
def Draft.unrevised : List Draft.Step := Draft.revised.filter (·.settings?.isNone)

/-- A world with two drivers and a bus. -/
def World.twoDrivers : World :=
  { drivers := [.memory {}, .memory {}], buses := [.empty] }

/-- The seven workers chosen first are forgotten when whole settings come after them. They count
if none come, and then a manager makes the same of the choices, and so does a draft with no
word on driver and bus. -/
theorem last_word_counts_revised :
    let early : List Choice := [.retryDelay (.ofSecs 1), .maxWorkers 0, .retryDelay (.ofSecs 2)]
    let late : List Choice := [.maxWorkers 0, .retryDelay (.ofSecs 1), .retryDelay (.ofSecs 2)]
    let made := (Draft.applyAll { name := "a" } Draft.revised).build .twoDrivers
    let plain := (Draft.applyAll { name := "a" } Draft.unrevised).build .twoDrivers
    let bare := Draft.unrevised.filter (·.isOfSettings)
    let manager : Manager := { bus := 0 }
    ((∀ f, late.filter (·.field = f) = early.filter (·.field = f)) ∧
      Settings.chooseAll {} late = Settings.chooseAll {} early) ∧
    made.2.members[made.1]? = some
      { pool := .create "a"
          { worker := { batch := 2 }, job := { maxAttempts := 1, retryDelay := .ofSecs 2 } }
        driver := 1
        bus := 0 } ∧
    ((∀ x ∈ Draft.unrevised, x.settings? = none) ∧
      plain.2.settingsOf plain.1 = some
        { worker := { maxWorkers := 7 }
          job := { maxAttempts := 1, retryDelay := .ofSecs 2 } } ∧
      manager.get? "b" = none ∧
      ∃ i m w, manager.create .twoDrivers "b" 0 (Draft.unrevised.flatMap Draft.Step.choices) =
          ((i, true), m, w) ∧
        w.settingsOf i = plain.2.settingsOf plain.1) ∧
    (bare.filter (·.isOfSettings) = Draft.unrevised.filter (·.isOfSettings) ∧
      ∀ w i w', (Draft.applyAll { name := "a" } bare).build w = (i, w') →
        w'.settingsOf i = plain.2.settingsOf plain.1) := by
  intro early late made plain bare manager
  have revised := last_word_counts {} early "a" Draft.revised .twoDrivers
  have unrevised := (last_word_counts {} early "a" Draft.unrevised .twoDrivers).2
  have alike (f : Settings.Field) : late.filter (·.field = f) = early.filter (·.field = f) := by
    cases f <;> rfl
  have ungiven : ∀ x ∈ Draft.unrevised, x.settings? = none := by
    intro x mem
    exact Option.isNone_iff_eq_none.1 (List.mem_filter.1 mem).2
  have own : bare.filter (·.isOfSettings) = Draft.unrevised.filter (·.isOfSettings) := rfl
  refine ⟨⟨alike, revised.1.order late alike⟩, ?_, ⟨ungiven, ?_, rfl, ?_⟩, own,
    unrevised.aside bare own⟩
  · obtain ⟨number, members⟩ := revised.2.member
    rw [number, members]
    rfl
  · exact unrevised.ofChoices ungiven
  · exact unrevised.created ungiven manager .twoDrivers "b" 0 rfl

end JobPool
