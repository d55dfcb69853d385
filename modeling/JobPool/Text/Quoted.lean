/-
JobPool.Text.Quoted — text between double quotes.

A quote and a backslash are written behind a backslash; the tab, the two line
ends and NUL have a letter each; any other character without a visible form of
its own is written `\u{…}` with its code point in hexadecimal. Everything
else, an apostrophe included, stands as it is.
-/
import JobPool.Text.Unprintable

namespace JobPool.Text.Quoted

/-- True of the characters that stand for themselves. Below 127 these are
the visible ones and the blank; above, all that the table does not hold. -/
def isPlain (c : Char) : Bool :=
  if c.toNat < 127 then 32 ≤ c.toNat else !Unprintable.holds c.toNat

/-- The code point in hexadecimal, lower case, without leading zeros. -/
def codePoint (c : Char) : String := String.ofList (Nat.toDigits 16 c.toNat)

/-- How one character is written. -/
def encodeChar (c : Char) : String :=
  match c with
  | '"' => "\\\""
  | '\\' => "\\\\"
  | '\n' => "\\n"
  | '\r' => "\\r"
  | '\t' => "\\t"
  | '\x00' => "\\0"
  | c => if isPlain c then String.singleton c else "\\u\x7b" ++ codePoint c ++ "\x7d"

/-- The text `s` between quotes. -/
def encode (s : String) : String :=
  "\"" ++ String.join (s.toList.map encodeChar) ++ "\""

end JobPool.Text.Quoted
