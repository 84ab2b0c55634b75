import Mathlib.Algebra.BigOperators.Fin
import Mathlib.LinearAlgebra.Matrix.NonsingularInverse
import Stabilizer.Proofs.RowProduct
import Stabilizer.Tableau.Symplectic
/-!
# The symplectic condition between rows

`isSymplectic` checks `Tᵀ J T = J` between columns.  Since `J` is its own inverse this makes `J Tᵀ J`
a left inverse of the square matrix `T`, hence a right inverse, and so the condition is the same as
`T J Tᵀ = J`, which speaks of rows: a destabilizer anticommutes with its own stabilizer, and every
other pair of rows commutes.

That `T` is invertible has a second use: an operator is known, up to its phase, once it is known
with which rows it commutes.
-/

namespace Stabilizer

open PauliOperator

/-! ## Indices -/

namespace Tableau

variable {n : Nat}

@[simp] theorem partner_destabIndex (i : Fin n) : partner (destabIndex i) = stabIndex i := by
  ext
  simp only [partner, destabIndex, stabIndex]
  rw [Nat.mod_eq_of_lt (by omega), Nat.add_comm]

@[simp] theorem partner_stabIndex (i : Fin n) : partner (stabIndex i) = destabIndex i := by
  ext
  simp only [partner, destabIndex, stabIndex]
  rw [show n + i.val + n = i.val + 2 * n by omega, Nat.add_mod_right, Nat.mod_eq_of_lt (by omega)]

@[simp] theorem partner_partner (i : Fin (2 * n)) : partner (partner i) = i := by
  obtain ⟨k, rfl⟩ | ⟨k, rfl⟩ := index_cases i <;> simp

theorem eq_partner_comm {i j : Fin (2 * n)} : i = partner j ↔ j = partner i := by
  constructor <;> rintro rfl <;> simp

@[simp] theorem partner_inj {i j : Fin (2 * n)} : partner i = partner j ↔ i = j := by
  rw [eq_partner_comm, partner_partner, eq_comm]

/-- Partners are `n` rows apart. -/
theorem eq_partner_iff {i j : Fin (2 * n)} :
    j = partner i ↔ j.val = i.val + n ∨ i.val = j.val + n := by
  obtain ⟨k, rfl⟩ | ⟨k, rfl⟩ := index_cases i
  · rw [partner_destabIndex, Fin.ext_iff]
    simp only [destabIndex, stabIndex]
    omega
  · rw [partner_stabIndex, Fin.ext_iff]
    simp only [destabIndex, stabIndex]
    omega

/-- A sum over all rows, destabilizers first. -/
theorem sum_index {M : Type} [AddCommMonoid M] (f : Fin (2 * n) → M) :
    ∑ i, f i = ∑ k, f (destabIndex k) + ∑ k, f (stabIndex k) := by
  have two : n + n = 2 * n := by omega
  rw [← (finCongr two).sum_comp f, Fin.sum_univ_add]
  rfl

end Tableau

/-! ## Bits of an operator -/

namespace PauliOperator

variable {n : Nat}

/-- The X parts of the letters, then their Z parts. -/
def bits (g : PauliOperator n) (a : Fin (2 * n)) : ZMod 2 :=
  if h : a.val < n then mod2 (g.letters ⟨a, h⟩).xBit
  else mod2 (g.letters (Tableau.upperIndex a h)).zBit

@[simp] theorem bits_destabIndex (g : PauliOperator n) (k : Fin n) :
    g.bits (Tableau.destabIndex k) = mod2 (g.letters k).xBit := by
  simp [bits, Tableau.destabIndex]

@[simp] theorem bits_stabIndex (g : PauliOperator n) (k : Fin n) :
    g.bits (Tableau.stabIndex k) = mod2 (g.letters k).zBit := by
  simp [bits, Tableau.stabIndex, Tableau.upperIndex]

/-- The bits say what the letters are. -/
theorem letters_eq_of_bits_eq {g h : PauliOperator n} (same : g.bits = h.bits) :
    g.letters = h.letters := by
  funext k
  apply Pauli.ext_bits
  · have x := congrFun same (Tableau.destabIndex k)
    rw [bits_destabIndex, bits_destabIndex] at x
    exact mod2_injective x
  · have z := congrFun same (Tableau.stabIndex k)
    rw [bits_stabIndex, bits_stabIndex] at z
    exact mod2_injective z

/-- The form pairs the X parts of one operator with the Z parts of the other. -/
theorem form_eq_sum_bits (g h : PauliOperator n) :
    g.form h = ∑ a, g.bits (Tableau.partner a) * h.bits a := by
  rw [Tableau.sum_index, form]
  simp only [Tableau.partner_destabIndex, Tableau.partner_stabIndex, bits_destabIndex,
    bits_stabIndex, Pauli.form, Finset.sum_add_distrib]
  exact add_comm _ _

end PauliOperator

namespace Tableau

variable {n : Nat}

/-! ## The square matrix of a tableau -/

/-- The square matrix `T`, over the numbers modulo 2. -/
def matrix (t : Tableau n) : Matrix (Fin (2 * n)) (Fin (2 * n)) (ZMod 2) :=
  Matrix.of fun i a => mod2 (t.entry i a)

/-- The matrix `J` that exchanges the two halves. -/
def skew (n : Nat) : Matrix (Fin (2 * n)) (Fin (2 * n)) (ZMod 2) :=
  Matrix.of fun i a => if a = partner i then 1 else 0

theorem matrix_apply (t : Tableau n) (i a : Fin (2 * n)) : t.matrix i a = (t.row i).exact.bits a := by
  rw [matrix, Matrix.of_apply, entry, bits]
  split <;> simp

theorem mul_skew_apply (A : Matrix (Fin (2 * n)) (Fin (2 * n)) (ZMod 2)) (i a : Fin (2 * n)) :
    (A * skew n) i a = A i (partner a) := by
  simp [Matrix.mul_apply, skew, eq_partner_comm (i := a)]

theorem skew_mul_apply (A : Matrix (Fin (2 * n)) (Fin (2 * n)) (ZMod 2)) (i a : Fin (2 * n)) :
    (skew n * A) i a = A (partner i) a := by
  simp [Matrix.mul_apply, skew]

theorem skew_mul_skew (n : Nat) : skew n * skew n = 1 := by
  ext i a
  rw [skew_mul_apply, skew, Matrix.of_apply, partner_partner, Matrix.one_apply]
  exact if_congr eq_comm rfl rfl

/-- Between columns or between rows, the condition is the same. -/
theorem transpose_mul_skew_mul_iff (A : Matrix (Fin (2 * n)) (Fin (2 * n)) (ZMod 2)) :
    A.transpose * (skew n * A) = skew n ↔ A * skew n * A.transpose = skew n := by
  have columns : A.transpose * (skew n * A) = skew n ↔ (skew n * A.transpose * skew n) * A = 1 := by
    constructor
    · intro h
      rw [Matrix.mul_assoc, Matrix.mul_assoc, h, skew_mul_skew]
    · intro h
      calc A.transpose * (skew n * A)
          = skew n * skew n * A.transpose * (skew n * A) := by rw [skew_mul_skew, Matrix.one_mul]
        _ = skew n * (skew n * A.transpose * skew n * A) := by simp only [Matrix.mul_assoc]
        _ = skew n := by rw [h, Matrix.mul_one]
  have rows : A * skew n * A.transpose = skew n ↔ A * (skew n * A.transpose * skew n) = 1 := by
    constructor
    · intro h
      rw [← Matrix.mul_assoc, ← Matrix.mul_assoc, h, skew_mul_skew]
    · intro h
      calc A * skew n * A.transpose
          = A * skew n * A.transpose * (skew n * skew n) := by rw [skew_mul_skew, Matrix.mul_one]
        _ = A * (skew n * A.transpose * skew n) * skew n := by simp only [Matrix.mul_assoc]
        _ = skew n := by rw [h, Matrix.one_mul]
  rw [columns, rows, mul_eq_one_comm]

/-! ## The check -/

/-- An inner product of bits, modulo 2. -/
theorem mod2_dot {m : Nat} (u v : Vector Bool m) :
    mod2 (dot u v) = ∑ i : Fin m, mod2 (u.get i) * mod2 (v.get i) := by
  have fold (l : List (Fin m)) :
      mod2 (l.foldr (fun i sum => (u.get i && v.get i) ^^ sum) false) =
        (l.map fun i => mod2 (u.get i) * mod2 (v.get i)).sum := by
    induction l with
    | nil => rfl
    | cons i l ih =>
      rw [List.foldr_cons, mod2_xor, mod2_and, ih, List.map_cons, List.sum_cons]
  rw [dot, Fin.foldr_eq_finRange_foldr, fold, ← List.ofFn_eq_map, List.sum_ofFn]

theorem isSymplectic_iff_columns (t : Tableau n) :
    t.isSymplectic = true ↔ t.matrix.transpose * (skew n * t.matrix) = skew n := by
  have product (a b : Fin (2 * n)) :
      (t.matrix.transpose * (skew n * t.matrix)) a b = mod2 (dot (t.column a) (t.partnerColumn b)) := by
    rw [Matrix.mul_apply, mod2_dot]
    refine Finset.sum_congr rfl fun i _ => ?_
    rw [skew_mul_apply]
    simp [column, partnerColumn, matrix]
  have entry (a b : Fin (2 * n)) : skew n a b = mod2 (b == partner a) := by
    simp [skew, mod2]
  rw [← Matrix.ext_iff]
  simp only [product, entry, mod2_injective.eq_iff, isSymplectic, List.all_eq_true,
    List.mem_finRange, forall_const, beq_iff_eq, Row.get_eq_getElem, Vector.getElem_ofFn, Fin.eta]

/-- The product `T J Tᵀ` pairs the rows. -/
theorem matrix_mul_skew_mul_transpose_apply (t : Tableau n) (i j : Fin (2 * n)) :
    (t.matrix * skew n * t.matrix.transpose) i j = (t.row i).exact.form (t.row j).exact := by
  rw [form_eq_sum_bits, Matrix.mul_apply]
  refine Finset.sum_congr rfl fun a _ => ?_
  rw [mul_skew_apply, Matrix.transpose_apply, matrix_apply, matrix_apply]

/-- The check decides how every two rows are paired. -/
theorem isSymplectic_iff_form (t : Tableau n) :
    t.isSymplectic = true ↔
      ∀ i j, (t.row i).exact.form (t.row j).exact = if j = partner i then 1 else 0 := by
  rw [isSymplectic_iff_columns, transpose_mul_skew_mul_iff, ← Matrix.ext_iff]
  simp only [matrix_mul_skew_mul_transpose_apply]
  rfl

/-- **The check decides which rows commute.**  It succeeds exactly when the rows that anticommute,
read as strings, are each destabilizer with its own stabilizer and no others. -/
theorem isSymplectic_iff_commutesWith (t : Tableau n) :
    t.isSymplectic = true ↔
      ∀ i j, i < 2 * n → j < 2 * n → ∃ a b, t.readRow i = .ok a ∧ t.readRow j = .ok b ∧
        (a.commutesWith b = false ↔ j = i + n ∨ i = j + n) := by
  have rows (i j : Fin (2 * n)) :
      ((t.row i).exact.form (t.row j).exact = if j = partner i then 1 else 0) ↔
        ((t.row i).toPauli.commutesWith (t.row j).toPauli = false ↔ j = partner i) := by
    rw [Row.commutesWith_toPauli_eq_false]
    by_cases partners : j = partner i
    · rw [if_pos partners, iff_true_right partners]
    · rw [if_neg partners, iff_false_right partners, ← zmod2_ne_zero, not_ne_iff]
  rw [isSymplectic_iff_form]
  constructor
  · intro h i j hi hj
    lift i to Fin (2 * n) using hi
    lift j to Fin (2 * n) using hj
    refine ⟨_, _, t.readRow_val i, t.readRow_val j, ?_⟩
    rw [← eq_partner_iff]
    exact (rows i j).1 (h i j)
  · intro h i j
    obtain ⟨a, b, ha, hb, anti⟩ := h i j i.isLt j.isLt
    rw [readRow_val] at ha hb
    cases ha
    cases hb
    rw [← eq_partner_iff] at anti
    exact (rows i j).2 anti

/-- How the rows of a sound tableau commute. -/
structure Symplectic (t : Tableau n) : Prop where
  destab_destab : ∀ i j, (t.destabilizer i).exact.form (t.destabilizer j).exact = 0
  destab_stab : ∀ i j,
    (t.destabilizer i).exact.form (t.stabilizer j).exact = if i = j then 1 else 0
  stab_stab : ∀ i j, (t.stabilizer i).exact.form (t.stabilizer j).exact = 0

/-- The check decides how destabilizers and stabilizers commute. -/
theorem isSymplectic_iff (t : Tableau n) : t.isSymplectic = true ↔ t.Symplectic := by
  rw [isSymplectic_iff_form]
  constructor
  · intro h
    refine ⟨fun i j => ?_, fun i j => ?_, fun i j => ?_⟩
    · simpa using h (destabIndex i) (destabIndex j)
    · simpa [eq_comm] using h (destabIndex i) (stabIndex j)
    · simpa using h (stabIndex i) (stabIndex j)
  · rintro ⟨dd, ds, ss⟩ i j
    obtain ⟨i, rfl⟩ | ⟨i, rfl⟩ := index_cases i <;> obtain ⟨j, rfl⟩ | ⟨j, rfl⟩ := index_cases j
    · simpa using dd i j
    · simpa [eq_comm] using ds i j
    · rw [form_comm]
      simpa using ds j i
    · simpa using ss i j

/-- The tableau of a basis state is symplectic. -/
theorem symplectic_basis (state : Nat) (h : Addressable n) : (basis n state h).Symplectic := by
  refine ⟨fun i j => ?_, fun i j => ?_, fun i j => ?_⟩
  · rw [destabilizer_basis, destabilizer_basis, form, Row.letters_exact, Row.letters_exact]
    refine Finset.sum_eq_zero fun k _ => ?_
    rw [Row.letter_singleX, Row.letter_singleX]
    split <;> split <;> rfl
  · rw [destabilizer_basis, stabilizer_basis, Row.exact_singleZ, form_signedZ, Row.letters_exact,
      Row.letter_singleX]
    by_cases hij : j = i
    · simp [hij, Pauli.xBit]
    · simp [hij, Ne.symm hij, Pauli.xBit]
  · rw [stabilizer_basis, stabilizer_basis, Row.exact_singleZ, Row.exact_singleZ, form_signedZ,
      signedZ]
    simp only
    split <;> rfl

theorem symplectic_ofBasisState {state : Nat} {t : Tableau n} (h : ofBasisState n state = .ok t) :
    t.Symplectic := by
  obtain ⟨addressable, rfl⟩ := ofBasisState_eq_ok h
  exact symplectic_basis state addressable

namespace Symplectic

variable {t : Tableau n}

theorem stab_destab (ht : t.Symplectic) (i j : Fin n) :
    (t.stabilizer i).exact.form (t.destabilizer j).exact = if i = j then 1 else 0 := by
  rw [form_comm, ht.destab_stab]
  exact if_congr eq_comm rfl rfl

theorem stabilizers_commute (ht : t.Symplectic) :
    ∀ a ∈ t.stabilizers, ∀ b ∈ t.stabilizers, a.commutesWith b = true := by
  intro a ha b hb
  obtain ⟨i, rfl⟩ := List.mem_ofFn.1 ha
  obtain ⟨j, rfl⟩ := List.mem_ofFn.1 hb
  exact (Row.commutesWith_toPauli _ _).2 (ht.stab_stab i j)

/-- Two operators have the same letters when they commute with the same rows. -/
theorem letters_ext (ht : t.Symplectic) {g h : PauliOperator n}
    (destab : ∀ i, g.form (t.destabilizer i).exact = h.form (t.destabilizer i).exact)
    (stab : ∀ i, g.form (t.stabilizer i).exact = h.form (t.stabilizer i).exact) :
    g.letters = h.letters := by
  have pairing (f : PauliOperator n) (i : Fin (2 * n)) :
      (t.matrix * skew n).mulVec f.bits i = f.form (t.row i).exact := by
    rw [form_comm, form_eq_sum_bits, Matrix.mulVec, dotProduct]
    refine Finset.sum_congr rfl fun a _ => ?_
    rw [mul_skew_apply, matrix_apply]
  have images : (t.matrix * skew n).mulVec g.bits = (t.matrix * skew n).mulVec h.bits := by
    funext i
    rw [pairing, pairing]
    obtain ⟨k, rfl⟩ | ⟨k, rfl⟩ := index_cases i
    · exact destab k
    · exact stab k
  -- `Tᵀ J` undoes `T J`, up to the exchange `J` that is undone last.
  have columns : t.matrix.transpose * (skew n * t.matrix) = skew n :=
    (isSymplectic_iff_columns t).1 ((isSymplectic_iff t).2 ht)
  have inverse : t.matrix.transpose * skew n * (t.matrix * skew n) = 1 := by
    calc t.matrix.transpose * skew n * (t.matrix * skew n)
        = t.matrix.transpose * (skew n * t.matrix) * skew n := by simp only [Matrix.mul_assoc]
      _ = 1 := by rw [columns, skew_mul_skew]
  apply letters_eq_of_bits_eq
  calc g.bits = (t.matrix.transpose * skew n).mulVec ((t.matrix * skew n).mulVec g.bits) := by
        rw [Matrix.mulVec_mulVec, inverse, Matrix.one_mulVec]
    _ = h.bits := by rw [images, Matrix.mulVec_mulVec, inverse, Matrix.one_mulVec]

end Symplectic

end Tableau

end Stabilizer
