import Stabilizer.Pauli.Text
/-!
# Pairs of generators side by side

Stabilizers and destabilizers are listed in pairs, one pair on a line, with a bar between the two.
-/

namespace Stabilizer

/-- The stabilizers and the destabilizers of a state (`Generators`, pauli 187-190). -/
structure Generators where
  stabilizers : List PauliString
  destabilizers : List PauliString
  deriving DecidableEq, Repr

namespace Generators

/-- The line of a pair (`Generators::fmt`, pauli 198-200). -/
def line (style : Style) (stabilizer destabilizer : PauliString) : List Char :=
  stabilizer.render style ++ [' ', '|', ' '] ++ destabilizer.render style

/-- The pairs up to the end of the shorter list, with a line break after every pair that is not the
last stabilizer's (`Generators::fmt`, pauli 195-202). -/
def renderPairs (style : Style) : List PauliString → List PauliString → List Char
  | s :: stabilizers, d :: destabilizers =>
    line style s d ++ (if stabilizers.isEmpty then [] else ['\n']) ++
      renderPairs style stabilizers destabilizers
  | _, _ => []

/-- The pairs of generators, line by line (`Generators::fmt`, pauli 193-204). -/
def render (style : Style) (g : Generators) : List Char :=
  renderPairs style g.stabilizers g.destabilizers

end Generators

end Stabilizer
