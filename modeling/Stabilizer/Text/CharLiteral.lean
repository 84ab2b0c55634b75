import Stabilizer.Text.DefaultIgnorable
import Stabilizer.Text.ExtendingMark
import Stabilizer.Text.Nongraphic
/-!
# Character literals

How a single character is written inside a message: between single quotes, as itself where it can be
seen, and escaped where it cannot.
-/

namespace Stabilizer.Text

/-- The character would not show on its own: it is a mark on its neighbour, is drawn as nothing, or
has no shape. -/
def isHidden (c : Char) : Bool :=
  CodeRange.covers extendingMarks c || CodeRange.covers defaultIgnorable c ||
    CodeRange.covers nongraphic c

/-- The code point in lower-case hexadecimal, in braces after `\u`. -/
def codeEscape (c : Char) : String :=
  "\\u\x7b" ++ String.ofList (Nat.toDigits 16 c.toNat) ++ "\x7d"

/-- The character between its quotes: the five common controls and marks by their short escapes, a
hidden character by its code point, any other as it is. -/
def charBody (c : Char) : String :=
  if c = '\x00' then "\\0"
  else if c = '\t' then "\\t"
  else if c = '\n' then "\\n"
  else if c = '\r' then "\\r"
  else if c = '\'' then "\\'"
  else if c = '\\' then "\\\\"
  else if isHidden c then codeEscape c
  else c.toString

/-- The character as a literal in single quotes. -/
def charLiteral (c : Char) : String := "'" ++ charBody c ++ "'"

example : charLiteral 'Q' = "'Q'" := by decide +kernel

example : charLiteral '\'' = "'\\''" := by decide +kernel

example : charLiteral '\u200b' = "'\\u\x7b200b\x7d'" := by decide +kernel

example : charLiteral '\u0301' = "'\\u\x7b301\x7d'" := by decide +kernel

example : charLiteral '\uff9e' = "'\uff9e'" := by decide +kernel

end Stabilizer.Text
