import Stabilizer.Text.Dump
/-!
# Events

What happened to a tableau, for a log.
-/

namespace Stabilizer

open Text

inductive Event where
  /-- A tableau of a basis state was built (`new`, tableau 183). -/
  | prepared (n state : Nat)
  /-- A tableau was read from a record (`from_record`, record 84). -/
  | rebuilt (n : Nat)
  /-- A measurement had a determined outcome (`measure`, measure 80). -/
  | determined (qubit : Nat) (bit : Bool)
  /-- A measurement had a random outcome and replaced a row (`measure`, measure 93). -/
  | collapsed (qubit row : Nat) (bit : Bool)
  deriving DecidableEq, Repr

namespace Event

def level : Event → String
  | prepared .. | rebuilt .. => "DEBUG"
  | determined .. | collapsed .. => "TRACE"

def text : Event → String
  | prepared n state => "new " ++ toString n ++ "-qubit tableau in basis state " ++ toString state
  | rebuilt n => "rebuilt " ++ toString n ++ "-qubit tableau from record"
  | determined qubit bit =>
    "measure q" ++ toString qubit ++ ": deterministic, r = " ++ flagName bit
  | collapsed qubit row bit =>
    "measure q" ++ toString qubit ++ ": random, pivot row " ++ toString row ++ ", r = " ++
      flagName bit

def line (e : Event) : String := e.level ++ " " ++ e.text

end Event

end Stabilizer
