import Stabilizer.Tableau.Basic
/-!
# Clifford gates

The Hadamard gate, the phase gate, the bit flip and the controlled NOT act on a tableau row by row:
each row becomes the signed Pauli string conjugated by the gate.  Gates are not part of the library that
is modelled: its callers make them up, as those of its tests do (`common`), from what it offers.
-/

namespace Stabilizer

/-- A gate on positions of type `ι`. -/
inductive Gate (ι : Type) where
  /-- The Hadamard gate, which exchanges `X` and `Z`. -/
  | h (k : ι)
  /-- The phase gate, which takes `X` to `Y`. -/
  | s (k : ι)
  | x (k : ι)
  | cnot (control target : ι)
  deriving DecidableEq, Repr

namespace Row

variable {n : Nat}

/-- Conjugation by the Hadamard gate: the two parts are exchanged, and `Y` changes its sign (`h`,
common 32-37). -/
def hadamard (k : Fin n) (a : Row n) : Row n where
  minus := a.minus ^^ (a.x.get k && a.z.get k)
  x := a.x.set k (a.z.get k) k.isLt
  z := a.z.set k (a.x.get k) k.isLt

/-- Conjugation by the phase gate: the X part is added to the Z part, and `Y` changes its sign (`s`,
common 39-44). -/
def phase (k : Fin n) (a : Row n) : Row n where
  minus := a.minus ^^ (a.x.get k && a.z.get k)
  x := a.x
  z := a.z.set k (a.z.get k ^^ a.x.get k) k.isLt

/-- Conjugation by the bit flip: letters with a Z part change the sign (`x`, common 47-51). -/
def bitFlip (k : Fin n) (a : Row n) : Row n := { a with minus := a.minus ^^ a.z.get k }

/-- Conjugation by the controlled NOT: the X part of the control is added to that of the target, and
the Z part of the target to that of the control (`cnot`, common 53-67). -/
def cnot (control target : Fin n) (a : Row n) : Row n where
  minus := a.minus ^^
    (a.x.get control && a.z.get target && (a.x.get target == a.z.get control))
  x := a.x.set target (a.x.get target ^^ a.x.get control) target.isLt
  z := a.z.set control (a.z.get control ^^ a.z.get target) control.isLt

end Row

namespace Gate

variable {n : Nat}

def onRow : Gate (Fin n) → Row n → Row n
  | .h k => Row.hadamard k
  | .s k => Row.phase k
  | .x k => Row.bitFlip k
  | .cnot control target => Row.cnot control target

/-- The gate on `n` qubits, if its positions are in range. -/
def locate? (n : Nat) : Gate Nat → Option (Gate (Fin n))
  | .h k => if hk : k < n then some (.h ⟨k, hk⟩) else none
  | .s k => if hk : k < n then some (.s ⟨k, hk⟩) else none
  | .x k => if hk : k < n then some (.x ⟨k, hk⟩) else none
  | .cnot a b => if h : a < n ∧ b < n then some (.cnot ⟨a, h.1⟩ ⟨b, h.2⟩) else none

end Gate

def Tableau.apply {n : Nat} (t : Tableau n) (g : Gate (Fin n)) : Tableau n :=
  { t with rows := Vector.ofFn fun i => g.onRow (t.row i) }

@[simp] theorem Tableau.row_apply {n : Nat} (t : Tableau n) (g : Gate (Fin n)) (i : Fin (2 * n)) :
    (t.apply g).row i = g.onRow (t.row i) := by
  simp [Tableau.apply, Tableau.row]

end Stabilizer
