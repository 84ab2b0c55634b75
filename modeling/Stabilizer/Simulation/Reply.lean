import Stabilizer.Tableau.Measure
import Stabilizer.Tableau.Record
/-!
# Replies

What a step of a simulation answers, and why it may answer nothing.
-/

namespace Stabilizer

inductive Reply where
  | done
  | flag (value : Bool)
  | flags (values : List Bool)
  | count (value : Nat)
  | text (value : List Char)
  | texts (values : List (List Char))
  | bits (values : List Bool)
  | matrix (rows : List (List Bool))
  | pauli (value : PauliString)
  | record (value : Record)
  /-- A measurement, with the number of coins drawn so far. -/
  | outcome (value : Outcome) (drawn : Nat)
  deriving DecidableEq, Repr

/-- Why a step answers nothing. -/
inductive Refusal where
  /-- A tableau does not allow it. -/
  | invalid (error : Error)
  /-- A gate is given a position, or a copy a number, that there is not. -/
  | unknown
  deriving DecidableEq, Repr

end Stabilizer
