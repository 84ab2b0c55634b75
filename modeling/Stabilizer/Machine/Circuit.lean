import Stabilizer.Machine.Operation
import Stabilizer.Tableau.Gate
/-!
# Gates on stored tableaus

Gates are not operations of a stored tableau but programs of its callers: they work on copies of the
containers, which then replace the old ones as a whole, or change signs one by one.  Replacing is checked,
and these callers take it that the checks pass.
-/

namespace Stabilizer.Storage

open Program

/-- Works on copies of the matrices and the signs, and then replaces all three (`update_column`,
common 17-29, and `cnot`, 54-66). -/
def rebuild (edit : Program Storage Unit) : Program Storage Unit := do
  let edited ← within (← state) edit
  unwrap (setMatrix .x edited.xs)
  unwrap (setMatrix .z edited.zs)
  unwrap (setSigns edited.rs)

/-- Runs a program on every row (`update_column`, common 20-26). -/
def eachRow (body : Nat → Program Storage Unit) : Program Storage Unit := do
  (List.range (2 * (← numQubits))).forM body

/-- Replaces the two bits of a qubit and the sign bit, on every row (`update_column`, common 14-30). -/
def updateColumn (k : Nat) (f : Bool → Bool → Bool → Bool × Bool × Bool) : Program Storage Unit :=
  rebuild <| eachRow fun i => do
    let (x, z, minus) := f (← readBit .x i k) (← readBit .z i k) (← readSign i)
    writeBit .x i k x
    writeBit .z i k z
    writeSign i minus

/-- A gate as its caller runs it (`h`, `s`, `x` and `cnot`, common 32-67). -/
def gate : Gate Nat → Program Storage Unit
  | .h k => updateColumn k fun x z minus => (z, x, minus ^^ (x && z))
  | .s k => updateColumn k fun x z minus => (x, z ^^ x, minus ^^ (x && z))
  | .x k => eachRow fun i => do
    if ← readBit .z i k then unwrap (flipSign i)
  | .cnot a b =>
    rebuild <| eachRow fun i => do
      let xa ← readBit .x i a
      let za ← readBit .z i a
      let xb ← readBit .x i b
      let zb ← readBit .z i b
      writeSign i ((← readSign i) ^^ (xa && zb && (xb == za)))
      writeBit .x i b (xb ^^ xa)
      writeBit .z i a (za ^^ zb)

end Stabilizer.Storage
