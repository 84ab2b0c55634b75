import Stabilizer.Machine.Storage
import Stabilizer.Simulation.Reply
/-!
# Operations on stored tableaus

The operations as they run on containers: rows are multiplied, copied and exchanged column after column,
a string is stored entry by entry, and a measurement does all that between reading a column and drawing a
coin.  Every operation begins with its checks.  What follows them reaches for entries unchecked.
-/

namespace Stabilizer

namespace Storage

open Program

/-! ### Rows -/

/-- The letters of two rows, side by side as far as all four halves go (`rowsum_unchecked`,
tableau 261-267). -/
def zipSites (xSource zSource xTarget zTarget : List Bool) : List Site :=
  List.zipWith (fun source target => ⟨source.1, source.2, target.1, target.2⟩)
    (List.zip xSource zSource) (List.zip xTarget zTarget)

/-- Multiplies row `source` into row `target` in place: the sign first, then every column
(`rowsum_unchecked`, tableau 254-279). -/
def multiply (target source : Nat) : Program Storage Unit := do
  let minusTarget ← readSign target
  let minusSource ← readSign source
  let sites := zipSites (← readLine .x source) (← readLine .z source) (← readLine .x target)
    (← readLine .z target)
  writeSign target (productSign minusTarget minusSource sites)
  eachColumn fun k => do
    let x ← readBit .x source k
    let z ← readBit .z source k
    addBit .x target k x
    addBit .z target k z

/-- Checks the target, then the source, and multiplies (`rowsum`, tableau 246-252). -/
def rowsum (target source : Nat) : Program Storage Unit := do
  checkRow target
  checkRow source
  multiply target source

/-- Stores row `source` at `target` as well: every column, then the sign (`row_copy_unchecked`,
tableau 314-326). -/
def copy (source target : Nat) : Program Storage Unit := do
  eachColumn fun k => do
    writeBit .x target k (← readBit .x source k)
    writeBit .z target k (← readBit .z source k)
  writeSign target (← readSign source)

/-- Checks the source, then the target, and copies (`row_copy`, tableau 308-312). -/
def copyRow (source target : Nat) : Program Storage Unit := do
  checkRow source
  checkRow target
  copy source target

/-- Exchanges two rows of one matrix (`swap_rows`, called at tableau 332-333). -/
def exchangeLines (half : Half) (a b : Nat) : Program Storage Unit := do
  let rows := ((← state).matrix half).rows
  if rows ≤ a ∨ rows ≤ b then abort .outOfRange
  else if a = b then return ()
  else
    eachColumnOf half fun k => do
      let first ← readBit half a k
      let second ← readBit half b k
      writeBit half a k second
      writeBit half b k first

/-- Exchanges two sign bits (`swap_rows`, called at tableau 334). -/
def exchangeSigns (a b : Nat) : Program Storage Unit := do
  let first ← readSign a
  let second ← readSign b
  writeSign a second
  writeSign b first

/-- Checks both rows and exchanges them (`row_swap`, tableau 329-336). -/
def swapRows (a b : Nat) : Program Storage Unit := do
  checkRow a
  checkRow b
  exchangeLines .x a b
  exchangeLines .z a b
  exchangeSigns a b

/-- Sets a sign bit (`set_sign`, tableau 339-343). -/
def setSign (i : Nat) (minus : Bool) : Program Storage Unit := do
  checkRow i
  writeSign i minus

/-- Flips a sign bit (`flip_sign`, tableau 346-350). -/
def flipSign (i : Nat) : Program Storage Unit := do
  checkRow i
  writeSign i (!(← readSign i))

/-- Stores a signed Pauli string as a row, letter by letter (`set_row`, tableau 354-366). -/
def setRow (i : Nat) (p : PauliString) : Program Storage Unit := do
  checkRow i
  checkShape .row [← numQubits] [p.length]
  p.letters.zipIdx.forM fun (letter, k) => do
    writeBit .x i k letter.xBit
    writeBit .z i k letter.zBit
  writeSign i p.sign.toBit

/-- Reads a row, which is not checked (`row_to_pauli_unchecked`, tableau 374-381). -/
def pauliAt (i : Nat) : Program Storage PauliString := do
  let xs ← readLine .x i
  let zs ← readLine .z i
  return ⟨.ofBit (← readSign i), List.zipWith Pauli.ofBits xs zs⟩

/-- Checks a row and reads it (`row_to_pauli`, tableau 369-372). -/
def readRow (i : Nat) : Program Storage PauliString := do
  checkRow i
  pauliAt i

/-- Reads the rows from `n` on (`stabilizers`, tableau 385-387). -/
def stabilizers : Program Storage (List PauliString) := do
  let n ← numQubits
  (List.range' n n).mapM pauliAt

/-- Reads the first `n` rows (`destabilizers`, tableau 391-393). -/
def destabilizers : Program Storage (List PauliString) := do
  (List.range (← numQubits)).mapM pauliAt

/-! ### Parts -/

/-- Checks the dimensions of a matrix and replaces one of the two by it (`set_xs`, tableau 203-207, and
`set_zs`, 210-214). -/
def setMatrix (half : Half) (m : BitMatrix) : Program Storage Unit := do
  let s ← state
  checkShape half.part [2 * s.n, s.n] m.shape
  setState (s.withMatrix half m)

/-- Checks the number of sign bits and replaces them (`set_rs`, tableau 217-221). -/
def setSigns (bits : Array Bool) : Program Storage Unit := do
  let s ← state
  checkShape .signs [2 * s.n] [bits.size]
  setState { s with rs := bits }

/-- All rows of one matrix (`matrix_rows`, record 25-29). -/
def lines (half : Half) : Program Storage (List (List Bool)) := do
  (List.range ((← state).matrix half).rows).mapM (readLine half)

/-- Writes a record (`to_record`, record 55-62). -/
def toRecord : Program Storage Record := do
  let s ← state
  return ⟨s.n, s.rs.toList, ← lines .x, ← lines .z⟩

/-! ### Measurement -/

/-- The first stabilizer with an X part at the qubit (`pivot`, measure 52-54). -/
def pivot? (q : Nat) : Program Storage (Option Nat) := do
  let n ← numQubits
  (List.range' n n).findM? fun p => readBit .x p q

/-- Whether there is none (`is_deterministic`, measure 58-61). -/
def isDeterministic (q : Nat) : Program Storage Bool := do
  checkQubit q
  return (← pivot? q).isNone

/-- The bits at the beginning of a vector replaced, the others kept. -/
def overwrite (v : Array Bool) (bits : List Bool) : Array Bool :=
  (bits ++ v.toList.drop bits.length).toArray

/-- Multiplies a row into the scratch row (`scratch_mul`, tableau 282-305). -/
def multiplyScratch (source : Nat) : Program Storage Unit := do
  let minusSource ← readSign source
  let xs ← readLine .x source
  let zs ← readLine .z source
  let s ← state
  let sites := zipSites xs zs s.scratch.x.toList s.scratch.z.toList
  setState
    { s with
      scratch :=
        { x := overwrite s.scratch.x (sites.map fun site => site.xTarget ^^ site.xSource)
          z := overwrite s.scratch.z (sites.map fun site => site.zTarget ^^ site.zSource)
          minus := productSign s.scratch.minus minusSource sites } }

/-- Fills the scratch row with identities (`reset`, tableau 113-117). -/
def resetScratch : Program Storage Unit := do
  let s ← state
  setState
    { s with
      scratch :=
        { x := Array.replicate s.scratch.x.size false
          z := Array.replicate s.scratch.z.size false
          minus := false } }

/-- Clears a row of one matrix (`fill_row`, called at measure 88-89). -/
def clearLine (half : Half) (i : Nat) : Program Storage Unit := do
  if ((← state).matrix half).rows ≤ i then abort .outOfRange
  else eachColumnOf half fun k => writeBit half i k false

/-- Builds the product that determines the outcome in the scratch row (`measure`, measure 76-81). -/
def determine (q : Nat) : Program Storage Bool := do
  resetScratch
  let n ← numQubits
  (List.range n).forM fun i => do
    if ← readBit .x i q then multiplyScratch (n + i)
  return (← state).scratch.minus

/-- Multiplies the pivot into every other row with an X part at the qubit, copies it to its destabilizer
and replaces it by `Z` on the qubit.  The sign is left over (`measure`, measure 84-90). -/
def collapse (q p : Nat) : Program Storage Unit := do
  let n ← numQubits
  (List.range (2 * n)).forM fun i => do
    if i ≠ p then
      if ← readBit .x i q then multiply i p
  copy p (p - n)
  clearLine .x p
  clearLine .z p
  writeBit .z p q true

end Storage

/-! ### Programs that draw coins -/

/-- A program on a stored tableau and the coins for its measurements. -/
abbrev Machine := Program (Storage × Coins)

namespace Machine

open Program

/-- Draws a coin (`measure`, measure 91). -/
def draw : Machine Bool := do
  let (s, coins) ← state
  setState (s, coins.advance)
  return coins.next

/-- Measures a qubit.  A coin is drawn only if there is a pivot, when its row has been replaced (`measure`,
measure 69-97). -/
def measure (q : Nat) : Machine Outcome := do
  (Storage.checkQubit q).onFirst
  match ← (Storage.pivot? q).onFirst with
  | none => return .deterministic (← (Storage.determine q).onFirst)
  | some p =>
    (Storage.collapse q p).onFirst
    let bit ← draw
    (Storage.writeSign p bit).onFirst
    return .random bit

end Machine

end Stabilizer
