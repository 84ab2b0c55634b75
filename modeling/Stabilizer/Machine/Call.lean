import Stabilizer.Machine.Circuit
import Stabilizer.Machine.Validation
import Stabilizer.Simulation.Update
/-!
# Calls

A call is an operation of a stored tableau with its arguments, which may be any.  Updates of a simulation
are calls, but for gates, which their callers make up of calls.
-/

namespace Stabilizer

inductive Call where
  | rowsum (target source : Nat)
  | copyRow (source target : Nat)
  | swapRows (a b : Nat)
  | setSign (row : Nat) (minus : Bool)
  | flipSign (row : Nat)
  | setRow (row : Nat) (p : PauliString)
  | setMatrix (half : Half) (m : BitMatrix)
  | setSigns (bits : Array Bool)
  | measure (qubit : Nat)
  | isDeterministic (qubit : Nat)
  | readRow (row : Nat)
  | stabilizers
  | destabilizers
  | validate
  | toRecord

namespace Machine

open Program

/-- A measurement as a step of a simulation, with the number of coins drawn so far. -/
def measureReply (q : Nat) : Machine Reply := do
  let outcome ← measure q
  return .outcome outcome (← state).2.drawn

/-- An operation that only changes the tableau. -/
def change (p : Program Storage Unit) : Machine Reply := do
  p.onFirst
  return .done

end Machine

open Machine in
/-- Runs the operation of a call. -/
def Call.program : Call → Machine Reply
  | rowsum target source => change (Storage.rowsum target source)
  | copyRow source target => change (Storage.copyRow source target)
  | swapRows a b => change (Storage.swapRows a b)
  | setSign row minus => change (Storage.setSign row minus)
  | flipSign row => change (Storage.flipSign row)
  | setRow row p => change (Storage.setRow row p)
  | setMatrix half m => change (Storage.setMatrix half m)
  | setSigns bits => change (Storage.setSigns bits)
  | measure q => measureReply q
  | isDeterministic q => return .flag (← (Storage.isDeterministic q).onFirst)
  | readRow row => return .pauli (← (Storage.readRow row).onFirst)
  | stabilizers => return .texts ((← Storage.stabilizers.onFirst).map (·.render .plain))
  | destabilizers => return .texts ((← Storage.destabilizers.onFirst).map (·.render .plain))
  | validate => return .flag (← Storage.validate.onFirst)
  | toRecord => return .record (← Storage.toRecord.onFirst)

open Machine in
/-- Runs an update of a simulation. -/
def Update.program : Update → Machine Reply
  | .rowsum target source => (Call.rowsum target source).program
  | .copyRow source target => (Call.copyRow source target).program
  | .swapRows a b => (Call.swapRows a b).program
  | .setSign row minus => (Call.setSign row minus).program
  | .flipSign row => (Call.flipSign row).program
  | .setRow row text => do
    let p ← Program.ofExcept (PauliString.parse text)
    (Call.setRow row p).program
  | .setXParts m => (Call.setMatrix .x m).program
  | .setZParts m => (Call.setMatrix .z m).program
  | .setSigns bits => (Call.setSigns bits).program
  | .gate g => change (Storage.gate g)
  | .measure q => (Call.measure q).program

end Stabilizer
