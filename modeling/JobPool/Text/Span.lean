/-
JobPool.Text.Span — a duration as text.

The unit is the largest of seconds, milliseconds, microseconds and
nanoseconds of which the duration holds at least one; what is left over
follows a point, without trailing zeros: `1.5ms`, `100ms`, `3661.123456789s`,
`0ns`.
-/
import JobPool.Time.Duration

namespace JobPool.Text.Span

/-- A unit of time: its length in nanoseconds, which is a one followed by so
many zeros, and its symbol. -/
structure TimeUnit where
  nanos : Nat
  places : Nat
  symbol : String
  deriving DecidableEq, Repr

/-- The largest unit of which `nanos` holds at least one, else nanoseconds. -/
def unitFor (nanos : Nat) : TimeUnit :=
  if 1000000000 ≤ nanos then ⟨1000000000, 9, "s"⟩
  else if 1000000 ≤ nanos then ⟨1000000, 6, "ms"⟩
  else if 1000 ≤ nanos then ⟨1000, 3, "µs"⟩
  else ⟨1, 0, "ns"⟩

/-- The decimal digits of `n`, exactly `places` of them. -/
def digits (places n : Nat) : List Char :=
  let ds := Nat.toDigits 10 n
  List.replicate (places - ds.length) '0' ++ ds

/-- Removes trailing zeros. -/
def dropZeros (ds : List Char) : List Char :=
  (ds.reverse.dropWhile (· == '0')).reverse

/-- The part after the point, with the point; nothing if it is zero. -/
def fraction (places rest : Nat) : String :=
  if rest = 0 then "" else "." ++ String.ofList (dropZeros (digits places rest))

/-- The text of a duration. -/
def render (d : Duration) : String :=
  let u := unitFor d.nanos
  toString (d.nanos / u.nanos) ++ fraction u.places (d.nanos % u.nanos) ++ u.symbol

end JobPool.Text.Span
