/-
JobPool.Text.Fields — records, lists and optional values as text.

A record is its name and its fields in order, `Name { a: 1, b: "x" }`; a
list stands in brackets, `["a", "b"]`; a value that may be missing is
`Some(v)` or `None`.
-/
import JobPool.Text.Quoted
import JobPool.Text.Span

namespace JobPool.Text

/-- The text of a record with the given fields. -/
def record (name : String) (fields : List (String × String)) : String :=
  name ++ " \x7b " ++ ", ".intercalate (fields.map fun f => f.1 ++ ": " ++ f.2) ++ " \x7d"

/-- The text of a list whose members are already written. -/
def bracketed (items : List String) : String :=
  "[" ++ ", ".intercalate items ++ "]"

/-- The text of a value that may be missing. -/
def optional {α : Type} (write : α → String) : Option α → String
  | some a => "Some(" ++ write a ++ ")"
  | none => "None"

/-- The text of a truth value. -/
def truth (b : Bool) : String := if b then "true" else "false"

end JobPool.Text
