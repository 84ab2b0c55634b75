import Stabilizer.Pauli.Generators
import Stabilizer.Tableau.Basic
/-!
# Listings

Four texts show a tableau to a reader:

* `listing`: one stabilizer on a line, a blank before every letter, as in `+ Z I`;
* `paired`: every stabilizer beside its destabilizer;
* `table`: the same pairs as a table in which every letter other than `I` carries the index of its
  qubit and `I` is left blank;
* `dump`: the tableau taken apart for inspection.
-/

namespace Stabilizer

open Text

/-! ### One stabilizer on a line -/

/-- The sign, then every letter after a blank (`Tableau::fmt`, render 26-28). -/
def PauliString.spaced (p : PauliString) : List Char :=
  p.sign.symbol :: p.letters.flatMap fun letter => [' ', letter.symbol .plain]

namespace Tableau

variable {n : Nat}

/-- The stabilizers, one on a line, identities always by their letter (`Tableau::fmt`, render 24-32). -/
def listing (t : Tableau n) : List Char := List.intercalate ['\n'] (t.stabilizers.map (·.spaced))

/-! ### Pairs -/

/-- Both lists of generators (`as_group`, tableau 396-398). -/
def pairs (t : Tableau n) : Generators := ⟨t.stabilizers, t.destabilizers⟩

/-- Every stabilizer beside its destabilizer. -/
def paired (style : Style) (t : Tableau n) : List Char := t.pairs.render style

/-! ### The table -/

/-- The cell of a letter at qubit `k`: two blanks for the identity, else the letter and the
index (`FullDisplay::fmt`, render 57-60). -/
def cell (k : Nat) : Pauli → List Char
  | .I => [' ', ' ']
  | letter => letter.symbol .plain :: Nat.toDigits 10 k

/-- The cells of a row from qubit `k` on (`FullDisplay::fmt`, render 56-61). -/
def cellsFrom (k : Nat) : List Pauli → List Char
  | [] => []
  | letter :: letters => cell k letter ++ cellsFrom (k + 1) letters

/-- A generator in the table: its sign, a blank, its cells (`FullDisplay::fmt`, render 54-61). -/
def tableEntry (p : PauliString) : List Char := p.sign.symbol :: ' ' :: cellsFrom 0 p.letters

/-- The title (`FullDisplay::fmt`, render 48-49). -/
def tableTitle (n : Nat) : List Char :=
  "stable".toList ++ List.replicate (max (2 * n - 3) 1) ' ' ++ "| destable".toList

/-- The rule under it (`FullDisplay::fmt`, render 50-51). -/
def tableRule (n : Nat) : List Char :=
  List.replicate (max (2 * n + 3) 7) '-' ++ '+' :: List.replicate (max (2 * n + 4) 10) '-'

/-- The line of a pair: the stabilizer, filled up to four blanks of cells, a bar, the
destabilizer (`FullDisplay::fmt`, render 53-65). -/
def tableLine (n : Nat) (stabilizer destabilizer : PauliString) : List Char :=
  tableEntry stabilizer ++ List.replicate (4 - 2 * n) ' ' ++ " | ".toList ++ tableEntry destabilizer

/-- The table of all generators, every line ended by a line break (`FullDisplay::fmt`, render 45-69). -/
def table (t : Tableau n) : List Char :=
  tableTitle n ++ '\n' :: tableRule n ++ '\n' ::
    (List.finRange n).flatMap fun i =>
      tableLine n (t.stabilizer i).toPauli (t.destabilizer i).toPauli ++ ['\n']

/-! ### The dump -/

/-- The fields that are shown (`Tableau::fmt`, tableau 147-156). -/
def dump (t : Tableau n) : Dump :=
  .record "Tableau"
    [("n", .nat n),
      ("stabilizers", .list (t.stabilizers.map fun p => .quoted p.toText)),
      ("destabilizers", .list (t.destabilizers.map fun p => .quoted p.toText))]

end Tableau

end Stabilizer
