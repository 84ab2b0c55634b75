import Stabilizer.Text.CharLiteral
import Stabilizer.Text.Dump
/-!
# Errors

Why a tableau cannot be built, reshaped or addressed as asked, and why a text is no Pauli string.
Each cause has a message for a reader and a dump for a log.
-/

namespace Stabilizer

open Text

/-- The parts of a tableau that are replaced as a whole. -/
inductive Part where
  | signs
  | xParts
  | zParts
  | row
  deriving DecidableEq, Repr

/-- The name that an error gives the part (`check_shape`, tableau 204-218 and 358). -/
def Part.name : Part → String
  | .signs => "rs"
  | .xParts => "xs"
  | .zParts => "zs"
  | .row => "row"

/-- The causes of failure (`TableauError`, error 12-37). -/
inductive Error where
  | noQubits
  /-- The rows of a tableau on `n` qubits have more entries than there are addresses. -/
  | tooManyQubits (n : Nat)
  /-- The basis state needs more than `n` bits. -/
  | invalidInitialState (state n : Nat)
  | shapeMismatch (part : Part) (expected found : List Nat)
  | rowOutOfBounds (row rows : Nat)
  | qubitOutOfBounds (qubit n : Nat)
  | invalidPauli (symbol : Char)
  deriving DecidableEq, Repr

namespace Error

/-- Dimensions in brackets. -/
def dimensions (sizes : List Nat) : Dump := .list (sizes.map .nat)

/-- The message for a reader (`TableauError`, error 13-35). -/
def message : Error → String
  | noQubits => "a tableau must act on at least one qubit"
  | tooManyQubits n => toString n ++ " qubits are too many to address"
  | invalidInitialState state n =>
    "initial state " ++ toString state ++ " does not fit in " ++ toString n ++ " qubit(s)"
  | shapeMismatch part expected found =>
    "shape mismatch for `" ++ part.name ++ "`: expected " ++ (dimensions expected).compact ++
      ", got " ++ (dimensions found).compact
  | rowOutOfBounds row rows =>
    "row index " ++ toString row ++ " out of bounds for a tableau with " ++ toString rows ++ " rows"
  | qubitOutOfBounds qubit n =>
    "qubit index " ++ toString qubit ++ " out of bounds for " ++ toString n ++ " qubit(s)"
  | invalidPauli symbol => "invalid Pauli symbol " ++ charLiteral symbol

/-- The cause with its data, taken apart. -/
def dump : Error → Dump
  | noQubits => .word "NoQubits"
  | tooManyQubits n => .record "TooManyQubits" [("n", .nat n)]
  | invalidInitialState state n =>
    .record "InvalidInitialState" [("state", .nat state), ("n", .nat n)]
  | shapeMismatch part expected found =>
    .record "ShapeMismatch"
      [("field", .quoted part.name), ("expected", dimensions expected), ("found", dimensions found)]
  | rowOutOfBounds row rows => .record "RowOutOfBounds" [("row", .nat row), ("rows", .nat rows)]
  | qubitOutOfBounds qubit n => .record "QubitOutOfBounds" [("qubit", .nat qubit), ("n", .nat n)]
  | invalidPauli symbol => .tagged "InvalidPauli" (.word (charLiteral symbol))

end Error

end Stabilizer
