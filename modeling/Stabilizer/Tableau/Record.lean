import Stabilizer.Tableau.Basic
import Stabilizer.Text.Dump
/-!
# Records

A record is a tableau as plain data: the number of qubits, the sign bits, and the X and Z parts row
by row.  `toRecord` writes one; `ofRecord` reads one after checking every dimension against the
number of qubits.
-/

namespace Stabilizer

open Text

/-- A tableau as plain data (`TableauRecord`, record 18-23). -/
structure Record where
  n : Nat
  rs : List Bool
  xs : List (List Bool)
  zs : List (List Bool)
  deriving DecidableEq, Repr

namespace Record

def dump (r : Record) : Dump :=
  let bits (row : List Bool) : Dump := .list (row.map .flag)
  .record "TableauRecord"
    [("n", .nat r.n), ("rs", bits r.rs), ("xs", .list (r.xs.map bits)),
      ("zs", .list (r.zs.map bits))]

/-- Reads rows as a matrix of `2n` rows of width `n`.  The number of rows is checked first and reported
with the width of the first row; then the first row of another width is reported (`matrix_from_rows`,
record 31-51). -/
def readMatrix (part : Part) (n : Nat) (rows : List (List Bool)) : Except Error BitMatrix :=
  if count : rows.length = 2 * n then
    match odd : rows.find? (·.length ≠ n) with
    | none => .ok (BitMatrix.ofRows rows count (by simpa using odd))
    | some row => .error (.shapeMismatch part [2 * n, n] [2 * n, row.length])
  else
    .error (.shapeMismatch part [2 * n, n] [rows.length, (rows.head?.map (·.length)).getD 0])

/-- Checks that there are `2n` sign bits, `2n` being itself an address (`from_record`, record 71-77). -/
def checkSigns (n : Nat) (rs : List Bool) : Except Error Unit :=
  if 2 * n < Nat.pow 2 64 ∧ rs.length = 2 * n then .ok ()
  else .error (.shapeMismatch .signs [min (2 * n) (Nat.pow 2 64 - 1)] [rs.length])

end Record

namespace Tableau

variable {n : Nat}

/-- Writes a record (`to_record`, record 55-62). -/
def toRecord (t : Tableau n) : Record := ⟨n, t.signs, t.xParts, t.zParts⟩

/-- Reads a record.  The number of qubits is checked first, then the sign bits, the X parts and the
Z parts.  Only then is a tableau built, the one of state 0, and all its parts are replaced (`from_record`,
record 68-86). -/
def ofRecord (r : Record) : Except Error (Tableau r.n) :=
  if r.n = 0 then .error .noQubits
  else do
    Record.checkSigns r.n r.rs
    let xs ← Record.readMatrix .xParts r.n r.xs
    let zs ← Record.readMatrix .zParts r.n r.zs
    let t ← ofBasisState r.n 0
    let t ← t.setSigns r.rs.toArray
    let t ← t.setXParts xs
    t.setZParts zs

end Tableau

end Stabilizer
