import Stabilizer.Pauli.Text
import Stabilizer.Simulation.Event
import Stabilizer.Simulation.Reply
import Stabilizer.Tableau.Gate
/-!
# Updates

A simulation is a tableau with the coins that its measurements draw.  An update changes it, or is
refused and changes nothing.
-/

namespace Stabilizer

inductive Update where
  | rowsum (target source : Nat)
  | copyRow (source target : Nat)
  | swapRows (a b : Nat)
  | setSign (row : Nat) (minus : Bool)
  | flipSign (row : Nat)
  /-- Stores the Pauli string that a text holds. -/
  | setRow (row : Nat) (text : List Char)
  | setXParts (m : BitMatrix)
  | setZParts (m : BitMatrix)
  | setSigns (bits : Array Bool)
  | gate (g : Gate Nat)
  | measure (qubit : Nat)

/-- A tableau and the coins for its measurements. -/
structure Simulation (n : Nat) where
  tableau : Tableau n
  coins : Coins

/-- What a step does: its answer, the simulation after it, and its events. -/
structure StepResult (n : Nat) where
  reply : Reply
  after : Simulation n
  events : List Event

namespace Simulation

variable {n : Nat}

/-- The result of a step that changed the tableau alone. -/
def settle (s : Simulation n) (result : Except Error (Tableau n)) :
    Except Refusal (StepResult n) :=
  match result with
  | .error error => .error (.invalid error)
  | .ok t => .ok ⟨.done, { s with tableau := t }, []⟩

def measurementEvent (t : Tableau n) (q : Nat) (bit : Bool) : Event :=
  match if h : q < n then t.pivot? ⟨q, h⟩ else none with
  | none => .determined q bit
  | some p => .collapsed q (n + p) bit

def attempt (s : Simulation n) : Update → Except Refusal (StepResult n)
  | .rowsum target source => s.settle (s.tableau.rowsum target source)
  | .copyRow source target => s.settle (s.tableau.copyRow source target)
  | .swapRows a b => s.settle (s.tableau.swapRows a b)
  | .setSign row minus => s.settle (s.tableau.setSign row minus)
  | .flipSign row => s.settle (s.tableau.flipSign row)
  | .setRow row text => s.settle (PauliString.parse text >>= s.tableau.setRow row)
  | .setXParts m => s.settle (s.tableau.setXParts m)
  | .setZParts m => s.settle (s.tableau.setZParts m)
  | .setSigns bits => s.settle (s.tableau.setSigns bits)
  | .gate g =>
    match g.locate? n with
    | some g => s.settle (.ok (s.tableau.apply g))
    | none => .error .unknown
  | .measure q =>
    match s.tableau.measure q s.coins with
    | .error error => .error (.invalid error)
    | .ok (outcome, t, coins) =>
      .ok ⟨.outcome outcome coins.drawn, ⟨t, coins⟩, [measurementEvent s.tableau q outcome.bit]⟩

end Simulation

end Stabilizer
