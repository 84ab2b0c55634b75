import Stabilizer.Machine.Validation
import Stabilizer.Proofs.StoredRows
import Stabilizer.Proofs.Symplectic
/-!
# The symplectic condition in words

Sums and products of 32-bit words wrap around at an even number, so their parities are the sums and
products of the parities, however many of them overflow.  A product of matrices of words, reduced modulo 2
in the end, is therefore the product of the matrices of bits, and `validate` decides what `isSymplectic`
does.
-/

namespace Stabilizer

variable {n : Nat}

/-! ## Parities -/

/-- The parity of a word, as a number modulo 2. -/
def parity (v : UInt32) : ZMod 2 := v.toNat

theorem natCast_mod_word (a : Nat) : ((a % 2 ^ 32 : Nat) : ZMod 2) = a :=
  (ZMod.natCast_eq_natCast_iff' _ _ 2).2 (Nat.mod_mod_of_dvd a (by decide))

@[simp] theorem parity_zero : parity 0 = 0 := rfl

theorem parity_add (a b : UInt32) : parity (a + b) = parity a + parity b := by
  rw [parity, UInt32.toNat_add, natCast_mod_word, Nat.cast_add]
  rfl

theorem parity_mul (a b : UInt32) : parity (a * b) = parity a * parity b := by
  rw [parity, UInt32.toNat_mul, natCast_mod_word, Nat.cast_mul]
  rfl

theorem parity_toUInt32 (b : Bool) : parity b.toUInt32 = mod2 b := by cases b <;> rfl

theorem mod_two_eq_iff {a b : UInt32} : a % 2 = b % 2 ↔ parity a = parity b := by
  rw [parity, parity, ZMod.natCast_eq_natCast_iff', ← UInt32.toNat_inj, UInt32.toNat_mod,
    UInt32.toNat_mod]
  rfl

/-! ## Matrices of words -/

namespace WordMatrix

variable {m : Nat} (a b : WordMatrix m)

/-- The parities of the entries. -/
def parities : Matrix (Fin m) (Fin m) (ZMod 2) := Matrix.of fun i j => parity (a.entry i j)

theorem eq_iff_entry {a b : WordMatrix m} : a = b ↔ ∀ i j, a.entry i j = b.entry i j :=
  ⟨fun same _ _ => same ▸ rfl, ext_entry⟩

theorem parities_transpose : a.transpose.parities = a.parities.transpose := by
  ext i j
  simp [parities, transpose]

/-- A product that overflows still has the right parities. -/
theorem parities_mul : (a.mul b).parities = a.parities * b.parities := by
  ext i j
  have fold (l : List (Fin m)) (sum : UInt32) :
      parity (l.foldl (fun sum k => sum + a.entry i k * b.entry k j) sum) =
        parity sum + (l.map fun k => a.parities i k * b.parities k j).sum := by
    induction l generalizing sum with
    | nil => simp
    | cons k l ih =>
      rw [List.foldl_cons, ih, parity_add, parity_mul, List.map_cons, List.sum_cons, add_assoc]
      rfl
  rw [parities, Matrix.of_apply, mul, entry_ofFn, fold, parity_zero, zero_add, Matrix.mul_apply,
    ← List.ofFn_eq_map, List.sum_ofFn]

theorem parities_skew (n : Nat) : (skew n).parities = Tableau.skew n := by
  ext i j
  simp only [parities, Matrix.of_apply, skew, entry_ofFn, Tableau.skew, Tableau.partner, Fin.ext_iff]
  split <;> rfl

/-- Reduced modulo 2, a matrix is compared by its parities. -/
theorem map_mod_two_eq_skew_iff {a : WordMatrix (2 * n)} :
    a.map (· % 2) = skew n ↔ a.parities = Tableau.skew n := by
  have reduced (i j : Fin (2 * n)) : (skew n).entry i j % 2 = (skew n).entry i j := by
    rw [skew, entry_ofFn]
    split <;> rfl
  rw [← parities_skew, eq_iff_entry, ← Matrix.ext_iff]
  refine forall_congr' fun i => forall_congr' fun j => ?_
  rw [map, entry_ofFn, ← reduced, mod_two_eq_iff]
  rfl

end WordMatrix

/-! ## Reading the table -/

namespace Storage

open Program Tableau

variable (t : Tableau n)

theorem run_ofFnM {α : Type} {m : Nat} {s : Storage} {f : Fin m → Program Storage α} {value : Fin m → α}
    (read : ∀ i, (f i).run s = .returned (value i) s) :
    (Vector.ofFnM f).run s = .returned (Vector.ofFn value) s := by
  induction m with
  | zero =>
    rw [Vector.ofFnM_zero, run_pure]
    exact congrArg (Ending.returned · s) (Vector.ext fun i hi => absurd hi (Nat.not_lt_zero i))
  | succ m ih =>
    rw [Vector.ofFnM_succ, run_bind, ih fun i => read i.castSucc, Ending.andThen_returned, run_bind, read,
      Vector.ofFn_succ]
    rfl

/-- The table holds the square matrix of the rows. -/
theorem run_wordTable :
    (wordTable n).run t.storage =
      .returned (WordMatrix.ofFn fun i j => (t.entry i j).toUInt32) t.storage := by
  refine run_ofFnM fun i => run_ofFnM fun j => ?_
  show _ = Ending.returned (t.entry i j).toUInt32 _
  rw [Tableau.entry]
  by_cases left : j.val < n
  · rw [if_pos left, dif_pos left, run_bind, run_readBit t .x i ⟨j, left⟩, Ending.andThen_returned,
      run_pure]
    simp [lettersAt, Row.letter, Pauli.bit]
  · rw [if_neg left, dif_neg left, run_bind]
    show ((readBit .z i (upperIndex j left)).run t.storage).andThen _ = _
    rw [run_readBit, Ending.andThen_returned, run_pure]
    simp [lettersAt, Row.letter, Pauli.bit]

/-- **The check in words is the check of the rows.** -/
theorem run_validate : validate.run t.storage = .returned t.isSymplectic t.storage := by
  let table := WordMatrix.ofFn fun i j => (t.entry i j).toUInt32
  have bits : table.parities = t.matrix := by
    ext i j
    rw [WordMatrix.parities, Matrix.of_apply, WordMatrix.entry_ofFn, parity_toUInt32, Tableau.matrix,
      Matrix.of_apply]
  have decides : (((table.transpose.mul (.skew n)).mul table).map (· % 2) == .skew n) =
      t.isSymplectic := by
    rw [Bool.eq_iff_iff, beq_iff_eq, WordMatrix.map_mod_two_eq_skew_iff, WordMatrix.parities_mul,
      WordMatrix.parities_mul, WordMatrix.parities_transpose, WordMatrix.parities_skew, bits,
      Matrix.mul_assoc, isSymplectic_iff_columns]
  rw [validate, run_bind, run_numQubits, Ending.andThen_returned, run_bind, run_wordTable,
    Ending.andThen_returned, run_pure, decides]

end Storage

end Stabilizer
