import Stabilizer.Pauli.Basic
import Stabilizer.Pauli.Phase
/-!
# Rows

A row of a tableau is a signed Pauli string on a fixed number of qubits, kept as bits: a sign bit,
and an X part and a Z part with one bit per qubit.
-/

namespace Stabilizer

/-- A signed Pauli string on `n` qubits, as bits: a row of `xs`, `zs` and `rs` (`Tableau`,
tableau 127-133). -/
@[ext] structure Row (n : Nat) where
  /-- The sign bit, set for minus. -/
  minus : Bool
  x : Vector Bool n
  z : Vector Bool n
  deriving DecidableEq

namespace Row

variable {n : Nat}

@[simp] theorem get_eq_getElem {α : Type} (v : Vector α n) (k : Fin n) : v.get k = v[k.val] := rfl

def one (n : Nat) : Row n := ⟨false, Vector.replicate n false, Vector.replicate n false⟩

def singleX (n : Nat) (k : Fin n) : Row n :=
  ⟨false, Vector.ofFn fun j => j == k, Vector.replicate n false⟩

/-- The letter `Z` on one qubit, with a sign bit. -/
def singleZ (n : Nat) (minus : Bool) (k : Fin n) : Row n :=
  ⟨minus, Vector.replicate n false, Vector.ofFn fun j => j == k⟩

/-! ### Letters -/

def letter (a : Row n) (k : Fin n) : Pauli := Pauli.ofBits (a.x.get k) (a.z.get k)

/-- The row as a string (`row_to_pauli_unchecked`, tableau 374-381). -/
def toPauli (a : Row n) : PauliString := ⟨Sign.ofBit a.minus, List.ofFn a.letter⟩

/-- A signed Pauli string of the right length as a row (`set_row`, tableau 359-364). -/
def ofPauli (p : PauliString) (h : p.letters.length = n) : Row n where
  minus := p.sign.toBit
  x := Vector.ofFn fun k : Fin n => p.letters[k].xBit
  z := Vector.ofFn fun k : Fin n => p.letters[k].zBit

@[simp] theorem length_letters_toPauli (a : Row n) : a.toPauli.letters.length = n := by
  simp [toPauli]

/-- A row read as a string and stored again is the same row. -/
@[simp] theorem ofPauli_toPauli (a : Row n) : ofPauli a.toPauli a.length_letters_toPauli = a := by
  ext <;> simp [ofPauli, toPauli, letter]

/-- A string stored as a row and read again is the same string. -/
@[simp] theorem toPauli_ofPauli (p : PauliString) (h : p.letters.length = n) :
    (ofPauli p h).toPauli = p := by
  have letters_eq : List.ofFn (ofPauli p h).letter = p.letters :=
    List.ext_getElem (by simp [h]) fun i _ _ => by simp [ofPauli, letter]
  rw [toPauli, letters_eq]
  simp [ofPauli]

/-! ### Products -/

/-- The letters of two rows qubit by qubit (`rowsum_unchecked`, tableau 261-267). -/
def sites (source target : Row n) : List Site :=
  List.ofFn fun k : Fin n => ⟨source.x.get k, source.z.get k, target.x.get k, target.z.get k⟩

/-- The product of a target row with a source row: letters are multiplied qubit by qubit, and the
sign bit is that of `productSign` (`rowsum_unchecked`, tableau 254-279, and `scratch_mul`, 282-305). -/
def mul (target source : Row n) : Row n where
  minus := productSign target.minus source.minus (sites source target)
  x := Vector.ofFn fun k => target.x.get k ^^ source.x.get k
  z := Vector.ofFn fun k => target.z.get k ^^ source.z.get k

@[simp] theorem getElem_x_mul (target source : Row n) (k : Nat) (h : k < n) :
    (mul target source).x[k] = (target.x[k] ^^ source.x[k]) := by
  simp [mul]

@[simp] theorem getElem_z_mul (target source : Row n) (k : Nat) (h : k < n) :
    (mul target source).z[k] = (target.z[k] ^^ source.z[k]) := by
  simp [mul]

end Row

end Stabilizer
