/-!
# Signed Pauli strings

A single-qubit Pauli operator is one of four letters, coded by two bits, its X part and its Z part:

| `x` | `z` | letter |
| :-: | :-: | :----: |
| 0   | 0   | `I`    |
| 1   | 0   | `X`    |
| 1   | 1   | `Y`    |
| 0   | 1   | `Z`    |

A signed Pauli string is a sign with one letter per qubit.

Names and lines in parentheses, here and in the other modules, are those of the library that is modelled:
the function or type, its module, and the lines it stands at.
-/

namespace Stabilizer

/-- A single-qubit Pauli operator (`Pauli`, pauli 19-30). -/
inductive Pauli where
  | I
  | X
  | Y
  | Z
  deriving DecidableEq, Repr

/-- The sign of a Hermitian Pauli operator (`Sign`, pauli 82-90). -/
inductive Sign where
  | plus
  | minus
  deriving DecidableEq, Repr

/-! ### Letters -/

namespace Pauli

/-- The letter with the given X part and Z part (`from_bits`, pauli 43-50). -/
def ofBits (x z : Bool) : Pauli :=
  match x, z with
  | false, false => .I
  | true, false => .X
  | true, true => .Y
  | false, true => .Z

/-- The X part (`to_bits`, pauli 53-60). -/
def xBit : Pauli → Bool
  | .I | .Z => false
  | .X | .Y => true

/-- The Z part (`to_bits`, pauli 53-60). -/
def zBit : Pauli → Bool
  | .I | .X => false
  | .Y | .Z => true

@[simp] theorem xBit_ofBits (x z : Bool) : (ofBits x z).xBit = x := by cases x <;> cases z <;> rfl

@[simp] theorem zBit_ofBits (x z : Bool) : (ofBits x z).zBit = z := by cases x <;> cases z <;> rfl

@[simp] theorem ofBits_bits (p : Pauli) : ofBits p.xBit p.zBit = p := by cases p <;> rfl

/-- Two letters commute: one of them is the identity or they are the same (`commutes_with`,
pauli 63-69). -/
def commutesWith (a b : Pauli) : Bool := a == .I || b == .I || a == b

theorem commutesWith_comm (a b : Pauli) : a.commutesWith b = b.commutesWith a := by
  cases a <;> cases b <;> rfl

end Pauli

/-! ### Signs -/

namespace Sign

/-- The sign of a phase bit, which is set for minus (`from_bit`, pauli 103). -/
def ofBit (minus : Bool) : Sign := if minus then .minus else .plus

/-- The phase bit (`to_bit`, pauli 106). -/
def toBit : Sign → Bool
  | .plus => false
  | .minus => true

/-- The number 1 or -1 (`to_int`, pauli 109-114). -/
def toInt : Sign → Int
  | .plus => 1
  | .minus => -1

@[simp] theorem toBit_ofBit (minus : Bool) : (ofBit minus).toBit = minus := by cases minus <;> rfl

@[simp] theorem ofBit_toBit (s : Sign) : ofBit s.toBit = s := by cases s <;> rfl

end Sign

/-! ### Strings -/

/-- A sign and one letter per qubit (`PauliString`, pauli 122-125). -/
structure PauliString where
  sign : Sign
  letters : List Pauli
  deriving DecidableEq, Repr

namespace PauliString

/-- The identity on `n` qubits (`identity`, pauli 160-162). -/
def identity (n : Nat) : PauliString := ⟨.plus, List.replicate n .I⟩

/-- The number of qubits (`len`, pauli 165). -/
def length (p : PauliString) : Nat := p.letters.length

/-- The number of qubits on which the string does not act as the identity (`weight`, pauli 171-173). -/
def weight (p : PauliString) : Nat := p.letters.countP (· != .I)

/-- The positions at which the letters of two strings anticommute, counted up to the end of the
shorter one: past it stand identities. -/
def anticommutations (p q : PauliString) : Nat :=
  (p.letters.zip q.letters).countP fun pair => !pair.1.commutesWith pair.2

/-- Two strings commute when they anticommute on an even number of qubits (`commutes_with`,
pauli 178-182). -/
def commutesWith (p q : PauliString) : Bool := p.anticommutations q % 2 == 0

@[simp] theorem length_identity (n : Nat) : (identity n).length = n := by simp [identity, length]

@[simp] theorem weight_identity (n : Nat) : (identity n).weight = 0 := by
  simp [identity, weight, List.countP_replicate]

end PauliString

end Stabilizer
