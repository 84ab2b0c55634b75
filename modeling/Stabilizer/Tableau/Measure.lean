import Stabilizer.Coins
import Stabilizer.Tableau.Basic
/-!
# Measurement

Measuring a qubit projects the state on one of the two values of the qubit.  When no stabilizer has
an X part there, the outcome is determined: it is the sign of the product of the stabilizers whose
destabilizers have one.  Otherwise the outcome is a coin, the first such stabilizer is multiplied
into all other rows that have an X part there, and gives way to `Z` on the qubit.
-/

namespace Stabilizer

/-- What a measurement reports: a bit that was determined, or one that was drawn (`Outcome`,
measure 19-28). -/
inductive Outcome where
  | deterministic (bit : Bool)
  | random (bit : Bool)
  deriving DecidableEq, Repr

namespace Outcome

/-- The classical bit (`bit`, measure 47). -/
def bit : Outcome → Bool
  | deterministic b => b
  | random b => b

/-- Whether the bit was determined (`Outcome::is_deterministic`, measure 42-44). -/
def isDeterministic : Outcome → Bool
  | deterministic _ => true
  | random _ => false

def name : Outcome → String
  | deterministic false => "Det0"
  | deterministic true => "Det1"
  | random false => "Rand0"
  | random true => "Rand1"

end Outcome

namespace Tableau

variable {n : Nat}

/-- The first stabilizer with an X part at the qubit (`pivot`, measure 52-54). -/
def pivot? (t : Tableau n) (q : Fin n) : Option (Fin n) :=
  (List.finRange n).find? fun i => (t.stabilizer i).x.get q

/-! ### The determined outcome -/

/-- The product of the stabilizers whose destabilizers have an X part at the qubit (`measure`,
measure 76-79). -/
def determined (t : Tableau n) (q : Fin n) : Row n :=
  (List.finRange n).foldl
    (fun product i =>
      if (t.destabilizer i).x.get q then product.mul (t.stabilizer i) else product)
    (Row.one n)

/-! ### The random outcome -/

/-- Multiplies row `p` into every other row that has an X part at the qubit, in the order of the
rows (`measure`, measure 84-86). -/
def clear (t : Tableau n) (q : Fin n) (p : Fin (2 * n)) : Tableau n :=
  (List.finRange (2 * n)).foldl
    (fun t i => if i ≠ p ∧ (t.row i).x.get q = true then t.multiply i p else t) t

/-- Replaces stabilizer `p` by a signed `Z` on the qubit, after it was multiplied into the rows that
have an X part there and was copied to its destabilizer (`measure`, measure 84-92). -/
def collapse (t : Tableau n) (q : Fin n) (p : Fin n) (bit : Bool) : Tableau n :=
  ((t.clear q (stabIndex p)).copy (stabIndex p) (destabIndex p)).put (stabIndex p)
    (Row.singleZ n bit q)

/-! ### Either -/

/-- Measures a qubit, with the coin that a random outcome takes (`measure`, measure 74-96). -/
def measureAt (t : Tableau n) (q : Fin n) (coin : Bool) : Outcome × Tableau n :=
  match t.pivot? q with
  | none =>
    let product := t.determined q
    (.deterministic product.minus, { t with scratch := product })
  | some p => (.random coin, t.collapse q p coin)

/-- Measures a qubit.  A coin is drawn only for a random outcome (`measure`, measure 69-97). -/
def measure (t : Tableau n) (q : Nat) (coins : Coins) :
    Except Error (Outcome × Tableau n × Coins) := do
  let q ← qubitIndex n q
  let (outcome, after) := t.measureAt q coins.next
  return (outcome, after, if outcome.isDeterministic then coins else coins.advance)

/-- Whether measuring the qubit would give a determined outcome (`is_deterministic`, measure 58-61). -/
def isDeterministic (t : Tableau n) (q : Nat) : Except Error Bool := do
  return (t.pivot? (← qubitIndex n q)).isNone

end Tableau

end Stabilizer
