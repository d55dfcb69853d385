/-
JobPool.Settings.Field — settings as a value for each field.

Settings are a value for each of thirteen fields, in two groups; a choice is a new value
for one of them. `Settings.value` and `Choice.value` read both field by field, and
`Choice.last?` is what a row of choices says about a field in the end. `Settings.LastStands`
states what a row of choices makes of settings without carrying it out.
-/
import JobPool.Settings

namespace JobPool
namespace Settings

/-- One of the things that are settled by settings. -/
inductive Field where
  | maxWorkers
  | batch
  | maxIdleTime
  | maxStoppedTime
  | watchInterval
  | idlePollInterval
  | maxAttempts
  | retryDelay
  | retryMaxDelay
  | retryDelayStep
  | attemptLimit
  | totalLimit
  | jitter
  deriving DecidableEq, Repr

/-- The values that a field can have. -/
def Field.Value : Field → Type
  | .maxWorkers | .batch | .maxAttempts => Nat
  | .jitter => Jitter
  | _ => Duration

/-- The value of a field. -/
def value (s : Settings) : (f : Field) → f.Value
  | .maxWorkers => s.worker.maxWorkers
  | .batch => s.worker.batch
  | .maxIdleTime => s.worker.maxIdleTime
  | .maxStoppedTime => s.worker.maxStoppedTime
  | .watchInterval => s.worker.watchInterval
  | .idlePollInterval => s.worker.idlePollInterval
  | .maxAttempts => s.job.maxAttempts
  | .retryDelay => s.job.retryDelay
  | .retryMaxDelay => s.job.retryMaxDelay
  | .retryDelayStep => s.job.retryDelayStep
  | .attemptLimit => s.job.attemptLimit
  | .totalLimit => s.job.totalLimit
  | .jitter => s.job.jitter

/-- The settings with a given value for each field. -/
def ofValues (v : (f : Field) → f.Value) : Settings where
  worker :=
    { maxWorkers := v .maxWorkers, batch := v .batch, maxIdleTime := v .maxIdleTime,
      maxStoppedTime := v .maxStoppedTime, watchInterval := v .watchInterval,
      idlePollInterval := v .idlePollInterval }
  job :=
    { maxAttempts := v .maxAttempts, retryDelay := v .retryDelay,
      retryMaxDelay := v .retryMaxDelay, retryDelayStep := v .retryDelayStep,
      attemptLimit := v .attemptLimit, totalLimit := v .totalLimit, jitter := v .jitter }

end Settings

namespace Choice

open Settings (Field)

/-- The field that is chosen. -/
def field : Choice → Field
  | maxWorkers _ => .maxWorkers
  | batch _ => .batch
  | maxIdleTime _ => .maxIdleTime
  | maxStoppedTime _ => .maxStoppedTime
  | watchInterval _ => .watchInterval
  | idlePollInterval _ => .idlePollInterval
  | maxAttempts _ => .maxAttempts
  | retryDelay _ => .retryDelay
  | retryMaxDelay _ => .retryMaxDelay
  | retryDelayStep _ => .retryDelayStep
  | attemptLimit _ => .attemptLimit
  | totalLimit _ => .totalLimit
  | jitter _ => .jitter

/-- The value that the field is to have. A count is at least one. -/
def value : (c : Choice) → c.field.Value
  | maxWorkers n | batch n | maxAttempts n => (max n 1 : Nat)
  | maxIdleTime d | maxStoppedTime d | watchInterval d | idlePollInterval d | retryDelay d
  | retryMaxDelay d | retryDelayStep d | attemptLimit d | totalLimit d => (d : Duration)
  | jitter j => (j : Jitter)

/-- The value that a choice gives to a field, if it is about that field. -/
def valueFor? (c : Choice) (f : Field) : Option f.Value :=
  if about : c.field = f then some (about ▸ c.value) else none

/-- The last value that a row of choices gives to a field, if any is about that field. -/
def last? (cs : List Choice) (f : Field) : Option f.Value :=
  (cs.filterMap (·.valueFor? f)).getLast?

end Choice

namespace Settings

/-- Of a row of choices on top of some settings, the last one for each field stands. -/
structure LastStands (base : Settings) (cs : List Choice) : Prop where
  /-- Each field has the value that was chosen last, or its old one if it was not chosen. No
  other settings have these values. -/
  fields : ∀ s, base.chooseAll cs = s ↔ ∀ f, s.value f = (Choice.last? cs f).getD (base.value f)
  /-- Choices for different fields change places freely: another row that has the same choices
  for each field, in the same order, comes to the same. -/
  order : ∀ ds : List Choice,
    (∀ f, ds.filter (·.field = f) = cs.filter (·.field = f)) →
    base.chooseAll ds = base.chooseAll cs
  /-- Of choices made before, only those count whose field is not chosen again. -/
  earlier : ∀ before : List Choice,
    base.chooseAll (before ++ cs) =
      base.chooseAll (before.filter (·.field ∉ cs.map Choice.field) ++ cs)

end Settings
end JobPool
