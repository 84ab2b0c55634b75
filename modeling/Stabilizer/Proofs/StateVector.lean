import Mathlib.LinearAlgebra.Matrix.ConjTranspose
import Mathlib.NumberTheory.LegendreSymbol.AddCharacter
import Mathlib.NumberTheory.Zsqrtd.GaussianInt
import Stabilizer.Proofs.PauliGroup
/-!
# Pauli operators on state vectors

A state of `n` qubits is a vector of Gaussian integers, one for each assignment of bits to the qubits;
it need not be normalised.  A Pauli operator acts on states as the Kronecker product of the matrices of
its letters times a power of `i`.  The operators that fix a state form a group.
-/

namespace Stabilizer

open Matrix

variable {n : Nat}

/-- A state vector, not normalised. -/
abbrev Ket (n : Nat) := (Fin n → Bool) → GaussianInt

/-- A matrix on state vectors. -/
abbrev KetMatrix (n : Nat) := Matrix (Fin n → Bool) (Fin n → Bool) GaussianInt

/-! ## Powers of the imaginary unit -/

def imaginary : GaussianInt := ⟨0, 1⟩

/-- The powers of `i`. -/
def iPower : AddChar (ZMod 4) GaussianInt :=
  AddChar.zmodChar 4 (show imaginary ^ 4 = 1 by decide)

theorem iPower_sum (e : Fin n → ZMod 4) : iPower (∑ k, e k) = ∏ k, iPower (e k) :=
  map_prod iPower.toMonoidHom (fun k => Multiplicative.ofAdd (e k)) Finset.univ

theorem star_iPower (e : ZMod 4) : star (iPower e) = iPower (-e) := by
  revert e
  decide

/-! ## Kronecker products -/

/-- The Kronecker product of matrices, one on each qubit. -/
def tensor (M : Fin n → Matrix Bool Bool GaussianInt) : KetMatrix n :=
  of fun w v => ∏ k, M k (w k) (v k)

theorem tensor_mul (M N : Fin n → Matrix Bool Bool GaussianInt) :
    tensor M * tensor N = tensor fun k => M k * N k := by
  ext w v : 1
  simp only [tensor, mul_apply, of_apply, ← Finset.prod_mul_distrib]
  rw [Finset.prod_univ_sum, Fintype.piFinset_univ]

theorem tensor_one : tensor (fun _ : Fin n => 1) = 1 := by
  ext w v : 1
  by_cases h : w = v
  · subst h
    simp [tensor]
  · obtain ⟨k, hk⟩ := Function.ne_iff.1 h
    rw [one_apply_ne h, tensor, of_apply]
    refine Finset.prod_eq_zero (Finset.mem_univ k) ?_
    exact one_apply_ne hk

theorem tensor_smul (c : Fin n → GaussianInt) (M : Fin n → Matrix Bool Bool GaussianInt) :
    tensor (fun k => c k • M k) = (∏ k, c k) • tensor M := by
  ext w v : 1
  simp [tensor, Finset.prod_mul_distrib]

theorem conjTranspose_tensor (M : Fin n → Matrix Bool Bool GaussianInt) :
    (tensor M)ᴴ = tensor fun k => (M k)ᴴ := by
  ext w v : 1
  simp [tensor]

/-! ## Letters -/

/-- The matrix of a letter. -/
def Pauli.matrix : Pauli → Matrix Bool Bool GaussianInt
  | .I => 1
  | .X => of fun w v => if w = v then 0 else 1
  | .Y => of fun w v => if w = v then 0 else if w then imaginary else -imaginary
  | .Z => diagonal fun w => if w then -1 else 1

theorem Pauli.matrix_mul (a b : Pauli) :
    a.matrix * b.matrix = iPower (a.exponent b) • (a.times b).matrix := by
  ext w v : 1
  revert w v
  cases a <;> cases b <;> decide

theorem Pauli.conjTranspose_matrix (a : Pauli) : a.matrixᴴ = a.matrix := by
  ext w v : 1
  cases a <;> cases w <;> cases v <;> rfl

/-! ## Operators -/

namespace PauliOperator

/-- The matrix of an operator. -/
def matrix (g : PauliOperator n) : KetMatrix n :=
  iPower g.phase • tensor fun k => (g.letters k).matrix

theorem matrix_apply (g : PauliOperator n) (w v : Fin n → Bool) :
    g.matrix w v = iPower g.phase * ∏ k, (g.letters k).matrix (w k) (v k) := rfl

@[simp] theorem matrix_one : (1 : PauliOperator n).matrix = 1 := by
  have letters : (fun k => ((1 : PauliOperator n).letters k).matrix) = fun _ : Fin n => 1 := rfl
  rw [matrix, letters, tensor_one, phase_one, AddChar.map_zero_eq_one, one_smul]

/-- **Products of operators are products of matrices.** -/
theorem matrix_mul (g h : PauliOperator n) : (g * h).matrix = g.matrix * h.matrix := by
  have letters : (tensor fun k => (g.letters k).matrix) * (tensor fun k => (h.letters k).matrix) =
      iPower (g.exponent h) • tensor fun k => ((g * h).letters k).matrix := by
    simp only [tensor_mul, Pauli.matrix_mul, tensor_smul, ← iPower_sum]
    rfl
  simp only [matrix, smul_mul_smul_comm, letters, smul_smul, phase_mul, AddChar.map_add_eq_mul]

theorem conjTranspose_matrix (g : PauliOperator n) : g.matrixᴴ = g⁻¹.matrix := by
  simp only [matrix, conjTranspose_smul, conjTranspose_tensor, Pauli.conjTranspose_matrix,
    star_iPower, phase_inv, letters_inv]

theorem matrix_signedZ (minus : Bool) (q : Fin n) :
    (signedZ minus q).matrix = diagonal fun w => if w q = minus then 1 else -1 := by
  have sign (bit : Bool) :
      iPower (signPhase minus) * Pauli.Z.matrix bit bit = if bit = minus then 1 else -1 := by
    revert minus bit
    decide
  ext w v : 1
  by_cases h : w = v
  · subst h
    have others : ∀ k, k ≠ q → (((signedZ minus q).letters k).matrix (w k) (w k)) = 1 := by
      intro k hk
      simp [signedZ, hk, Pauli.matrix]
    rw [diagonal_apply_eq, ← sign, matrix_apply, Fintype.prod_eq_single q others]
    simp [signedZ]
  · obtain ⟨k, hk⟩ := Function.ne_iff.1 h
    have zero : ((signedZ minus q).letters k).matrix (w k) (v k) = 0 := by
      by_cases hkq : k = q
      · subst hkq
        simp [signedZ, Pauli.matrix, hk]
      · simp [signedZ, hkq, Pauli.matrix, hk]
    rw [diagonal_apply_ne _ h, matrix_apply, Finset.prod_eq_zero (Finset.mem_univ k) zero, mul_zero]

/-- The operators that fix a state. -/
def fixing (ψ : Ket n) : Subgroup (PauliOperator n) where
  carrier := {g | g.matrix *ᵥ ψ = ψ}
  one_mem' := by simp
  mul_mem' := by
    intro g h hg hh
    rw [Set.mem_ofPred_eq, matrix_mul, ← mulVec_mulVec, hh, hg]
  inv_mem' := by
    intro g hg
    have undo : g⁻¹.matrix *ᵥ (g.matrix *ᵥ ψ) = ψ := by
      rw [mulVec_mulVec, ← matrix_mul, inv_mul_cancel, matrix_one, one_mulVec]
    rwa [hg] at undo

theorem mem_fixing {g : PauliOperator n} {ψ : Ket n} : g ∈ fixing ψ ↔ g.matrix *ᵥ ψ = ψ := Iff.rfl

theorem signedZ_mulVec (minus : Bool) (q : Fin n) (ψ : Ket n) (w : Fin n → Bool) :
    ((signedZ minus q).matrix *ᵥ ψ) w = if w q = minus then ψ w else -ψ w := by
  rw [matrix_signedZ, mulVec_diagonal]
  split
  · exact one_mul _
  · exact neg_one_mul _

/-- A signed `Z` fixes the states in which the qubit has the bit of the sign. -/
theorem signedZ_mem_fixing {bit : Bool} {q : Fin n} {ψ : Ket n} :
    signedZ bit q ∈ fixing ψ ↔ ∀ w, w q ≠ bit → ψ w = 0 := by
  rw [mem_fixing, funext_iff]
  refine forall_congr' fun w => ?_
  rw [signedZ_mulVec]
  by_cases h : w q = bit
  · simp [h]
  · simp [h, neg_eq_self]

end PauliOperator

/-! ## Projections -/

namespace Ket

open PauliOperator

/-- The part of a state in which a qubit has a given bit. -/
def project (q : Fin n) (bit : Bool) (ψ : Ket n) : Ket n := fun w => if w q = bit then ψ w else 0

variable {q : Fin n} {bit : Bool} {ψ : Ket n}

theorem two_smul_project (q : Fin n) (bit : Bool) (ψ : Ket n) :
    (2 : GaussianInt) • project q bit ψ = ψ + (signedZ bit q).matrix *ᵥ ψ := by
  funext w
  rw [Pi.smul_apply, Pi.add_apply, signedZ_mulVec, project]
  split
  · rw [smul_eq_mul, two_mul]
  · rw [smul_zero, add_neg_cancel]

/-- States that are equal when doubled. -/
theorem eq_of_two_smul {φ : Ket n} (h : (2 : GaussianInt) • φ = (2 : GaussianInt) • ψ) : φ = ψ :=
  smul_right_injective (Ket n) two_ne_zero h

theorem project_add_project_not (q : Fin n) (bit : Bool) (ψ : Ket n) :
    project q bit ψ + project q (!bit) ψ = ψ := by
  funext w
  rw [Pi.add_apply, project, project]
  cases w q <;> cases bit <;> simp

theorem project_eq_self (h : signedZ bit q ∈ fixing ψ) : project q bit ψ = ψ := by
  apply eq_of_two_smul
  rw [two_smul_project, mem_fixing.1 h, two_smul]

theorem project_not_eq_zero (h : signedZ bit q ∈ fixing ψ) : project q (!bit) ψ = 0 := by
  have parts := project_add_project_not q bit ψ
  rwa [project_eq_self h, add_eq_left] at parts

/-- An operator that commutes with `Z` passes through the projection. -/
theorem mulVec_project {g : PauliOperator n} (comm : g.form (signedZ bit q) = 0) :
    g.matrix *ᵥ project q bit ψ = project q bit (g.matrix *ᵥ ψ) := by
  apply eq_of_two_smul
  rw [← mulVec_smul, two_smul_project, two_smul_project, mulVec_add, mulVec_mulVec, mulVec_mulVec,
    ← matrix_mul, ← matrix_mul, (commute_iff_form_eq_zero.2 comm).eq]

/-- An operator that anticommutes with `Z` exchanges the projections. -/
theorem mulVec_project_not {g : PauliOperator n} (anti : g.form (signedZ bit q) = 1) :
    g.matrix *ᵥ project q bit ψ = project q (!bit) (g.matrix *ᵥ ψ) := by
  apply eq_of_two_smul
  rw [← mulVec_smul, two_smul_project, two_smul_project, mulVec_add, mulVec_mulVec, mulVec_mulVec,
    ← matrix_mul, ← matrix_mul, mul_eq_neg_mul_of_form anti, signedZ_not, neg_mul]

/-! ## Norms -/

/-- The squared norm of a state. -/
def normSq (ψ : Ket n) : ℤ := ∑ w, (ψ w).norm

theorem normSq_eq_zero : normSq ψ = 0 ↔ ψ = 0 := by
  rw [normSq, Finset.sum_eq_zero_iff_of_nonneg fun w _ => GaussianInt.norm_nonneg (ψ w), funext_iff]
  simp

theorem intCast_normSq (ψ : Ket n) : (normSq ψ : GaussianInt) = star ψ ⬝ᵥ ψ := by
  rw [normSq, Int.cast_sum, dotProduct]
  refine Finset.sum_congr rfl fun w _ => ?_
  rw [Zsqrtd.norm_eq_mul_conj, mul_comm]
  rfl

/-- Operators keep norms. -/
theorem normSq_mulVec (g : PauliOperator n) (ψ : Ket n) : normSq (g.matrix *ᵥ ψ) = normSq ψ := by
  have inner : star (g.matrix *ᵥ ψ) ⬝ᵥ (g.matrix *ᵥ ψ) = star ψ ⬝ᵥ ψ := by
    rw [star_mulVec, conjTranspose_matrix, ← dotProduct_mulVec, mulVec_mulVec, ← matrix_mul,
      inv_mul_cancel, matrix_one, one_mulVec]
  rw [← intCast_normSq, ← intCast_normSq] at inner
  exact Int.cast_injective inner

end Ket

end Stabilizer
