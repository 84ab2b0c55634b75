import Stabilizer.Machine.Operation
/-!
# The symplectic condition in words

The bits of a stored tableau are read into a square matrix of 32-bit words, products are taken in words,
and every entry of the product is reduced modulo 2 before it is compared.
-/

namespace Stabilizer

/-- A square matrix of 32-bit words. -/
abbrev WordMatrix (m : Nat) := Vector (Vector UInt32 m) m

namespace WordMatrix

variable {m : Nat}

def ofFn (f : Fin m → Fin m → UInt32) : WordMatrix m := Vector.ofFn fun i => Vector.ofFn (f i)

def entry (a : WordMatrix m) (i j : Fin m) : UInt32 := (a.get i).get j

def transpose (a : WordMatrix m) : WordMatrix m := ofFn fun i j => a.entry j i

/-- The product.  Sums wrap around at `2^32`. -/
def mul (a b : WordMatrix m) : WordMatrix m :=
  ofFn fun i j => (List.finRange m).foldl (fun sum k => sum + a.entry i k * b.entry k j) 0

def map (f : UInt32 → UInt32) (a : WordMatrix m) : WordMatrix m := ofFn fun i j => f (a.entry i j)

@[simp] theorem entry_ofFn (f : Fin m → Fin m → UInt32) (i j : Fin m) : (ofFn f).entry i j = f i j := by
  simp [entry, ofFn, Row.get_eq_getElem]

theorem ext_entry {a b : WordMatrix m} (h : ∀ i j, a.entry i j = b.entry i j) : a = b :=
  Vector.ext fun i hi => Vector.ext fun j hj => h ⟨i, hi⟩ ⟨j, hj⟩

/-- The matrix that exchanges the halves (`validate`, tableau 415-418). -/
def skew (n : Nat) : WordMatrix (2 * n) :=
  ofFn fun i j => if j.val = (i.val + n) % (2 * n) then 1 else 0

end WordMatrix

namespace Storage

open Program

/-- The X parts beside the Z parts, as words (`validate`, tableau 407-414). -/
def wordTable (n : Nat) : Program Storage (WordMatrix (2 * n)) :=
  Vector.ofFnM fun i => Vector.ofFnM fun j => do
    let bit ← if j.val < n then readBit .x i j else readBit .z i (j - n)
    return bit.toUInt32

/-- Whether `Tᵀ J T` is `J`, entry by entry modulo 2 (`validate`, tableau 405-422). -/
def validate : Program Storage Bool := do
  let n ← numQubits
  let table ← wordTable n
  let product := ((table.transpose.mul (.skew n)).mul table).map (· % 2)
  return product == .skew n

end Storage

end Stabilizer
