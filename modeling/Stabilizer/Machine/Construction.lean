import Stabilizer.Machine.Operation
import Stabilizer.Tableau.Construction
/-!
# Building stored tableaus

Containers are asked for in the sizes that the checked words give, and are then filled in place.  A record
becomes a tableau whose containers are all replaced.
-/

namespace Stabilizer.Storage

open Program

/-- A matrix of zeros (`new`, tableau 175-176). -/
def allocate (rows columns : Nat) : Program Unit BitMatrix :=
  if FitsContainer (rows * columns) then return BitMatrix.ofFn rows columns fun _ _ => false
  else abort .capacityOverflow

/-- A vector of zeros (`new`, tableau 177). -/
def allocateVector (size : Nat) : Program Unit (Array Bool) :=
  if FitsContainer size then return Array.replicate size false else abort .capacityOverflow

/-- The tableau of a basis state: after the checks the containers are made and filled (`new`,
tableau 166-185). -/
def new (n state : UInt64) : Program Unit Storage := do
  let rows ← ofExcept (checkBasis n state)
  let xs ← allocate rows.toNat n.toNat
  let zs ← allocate rows.toNat n.toNat
  let rs ← allocateVector rows.toNat
  let empty : Storage := ⟨n.toNat, xs, zs, rs, Scratch.zero n.toNat⟩
  within empty do
    (List.range n.toNat).forM fun i => do
      writeBit .x i i true
      writeBit .z (n.toNat + i) i true
      writeSign (n.toNat + i) (bigEndianBit state n (UInt64.ofNat i))

/-- Reads a record: the checks, then a tableau of state 0, and its parts one after the other
(`from_record`, record 68-86). -/
def ofRecord (r : Record) : Program Unit Storage :=
  if r.n = 0 then fail .noQubits
  else do
    ofExcept (Record.checkSigns r.n r.rs)
    let xs ← ofExcept (Record.readMatrix .xParts r.n r.xs)
    let zs ← ofExcept (Record.readMatrix .zParts r.n r.zs)
    let zero ← new (UInt64.ofNat r.n) 0
    within zero do
      setSigns r.rs.toArray
      setMatrix .x xs
      setMatrix .z zs

end Stabilizer.Storage
