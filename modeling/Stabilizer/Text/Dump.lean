/-!
# Dumps

A value taken apart for inspection: words, lists, records with named fields and tagged values, with
two layouts.  `compact` puts the whole value on one line; `indented` gives each item and field a
line of its own, four blanks deeper than its owner and ending in a comma.
-/

namespace Stabilizer.Text

def flagName (b : Bool) : String := if b then "true" else "false"

/-- The shape of a value shown for inspection. -/
inductive Dump where
  /-- Text that is shown as it is. -/
  | word (text : String)
  /-- Values in brackets. -/
  | list (items : List Dump)
  /-- A name with its value in parentheses. -/
  | tagged (name : String) (value : Dump)
  /-- A name with its fields in braces. -/
  | record (name : String) (fields : List (String × Dump))

namespace Dump

def words (texts : List String) : Dump := .list (texts.map .word)

/-- A text in double quotes.  The texts shown here hold letters, signs and blanks only, so nothing
in them needs an escape. -/
def quoted (text : String) : Dump := .word ("\"" ++ text ++ "\"")

def nat (n : Nat) : Dump := .word (toString n)

def flag (b : Bool) : Dump := .word (flagName b)

/-! ### One line -/

mutual

def compact : Dump → String
  | .word text => text
  | .list items => "[" ++ String.intercalate ", " (compactItems items) ++ "]"
  | .tagged name value => name ++ "(" ++ compact value ++ ")"
  | .record name fields =>
    name ++ " \x7b " ++ String.intercalate ", " (compactFields fields) ++ " \x7d"

def compactItems : List Dump → List String
  | [] => []
  | item :: rest => compact item :: compactItems rest

def compactFields : List (String × Dump) → List String
  | [] => []
  | (name, value) :: rest => (name ++ ": " ++ compact value) :: compactFields rest

end

/-! ### One line per item -/

def margin (depth : Nat) : String := String.ofList (List.replicate (4 * depth) ' ')

mutual

/-- The value laid out over several lines, its first line continuing the current one and its last
line standing at the given depth. -/
def indented (depth : Nat) : Dump → String
  | .word text => text
  | .list [] => "[]"
  | .list (item :: rest) =>
    "[\n" ++ indentedItems (depth + 1) (item :: rest) ++ margin depth ++ "]"
  | .tagged name value =>
    name ++ "(\n" ++ margin (depth + 1) ++ indented (depth + 1) value ++ ",\n" ++
      margin depth ++ ")"
  | .record name fields =>
    name ++ " \x7b\n" ++ indentedFields (depth + 1) fields ++ margin depth ++ "\x7d"

/-- Each item on lines of its own, ended by a comma. -/
def indentedItems (depth : Nat) : List Dump → String
  | [] => ""
  | item :: rest =>
    margin depth ++ indented depth item ++ ",\n" ++ indentedItems depth rest

/-- Each field on lines of its own, after its name and ended by a comma. -/
def indentedFields (depth : Nat) : List (String × Dump) → String
  | [] => ""
  | (name, value) :: rest =>
    margin depth ++ name ++ ": " ++ indented depth value ++ ",\n" ++ indentedFields depth rest

end

example : (Dump.record "Pair" [("a", nat 1), ("b", words ["x", "y"])]).compact =
    "Pair \x7b a: 1, b: [x, y] \x7d" := by
  decide +kernel

example : (Dump.record "Pair" [("a", nat 1), ("b", words ["x"])]).indented 0 =
    "Pair \x7b\n    a: 1,\n    b: [\n        x,\n    ],\n\x7d" := by
  decide +kernel

end Dump

end Stabilizer.Text
