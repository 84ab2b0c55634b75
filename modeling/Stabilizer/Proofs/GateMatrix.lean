import Stabilizer.Proofs.Conjugation
import Stabilizer.Proofs.StateVector
/-!
# Gates on state vectors

The matrices of the gates, the Hadamard gate times the square root of 2 so that its entries are
integers.  Moving an operator past the matrix of a gate conjugates it.  On one qubit that is an identity
of two by two matrices for each letter; the controlled NOT permutes the basis states, so there it is one
of entries, for each pair of letters.
-/

namespace Stabilizer

open Matrix PauliOperator

variable {n : Nat}

/-! ## Matrices on one qubit -/

theorem tensor_eq_smul {M N : Fin n → Matrix Bool Bool GaussianInt} {c : GaussianInt} (k : Fin n)
    (here : M k = c • N k) (away : ∀ j, j ≠ k → M j = N j) : tensor M = c • tensor N := by
  have factors : M = fun j => (if j = k then c else 1) • N j := by
    funext j
    by_cases hj : j = k
    · rw [if_pos hj, hj, here]
    · rw [if_neg hj, one_smul, away j hj]
  rw [factors, tensor_smul, Finset.prod_ite_eq', if_pos (Finset.mem_univ k)]

/-- A matrix on one qubit. -/
def onQubit (k : Fin n) (U : Matrix Bool Bool GaussianInt) : KetMatrix n :=
  tensor (Function.update (fun _ => 1) k U)

/-- A matrix that maps letters maps operators. -/
theorem onQubit_mul_matrix {m : LetterMap} {U : Matrix Bool Bool GaussianInt}
    (hU : ∀ a, U * a.matrix = iPower (signPhase (m.flips a)) • ((m.letter a).matrix * U))
    (k : Fin n) (g : PauliOperator n) :
    onQubit k U * g.matrix = (mapAt m k g).matrix * onQubit k U := by
  have letters : (onQubit k U * tensor fun j => (g.letters j).matrix) =
      iPower (signPhase (m.flips (g.letters k))) •
        ((tensor fun j => ((mapAt m k g).letters j).matrix) * onQubit k U) := by
    rw [onQubit, tensor_mul, tensor_mul]
    apply tensor_eq_smul k
    · simp only [mapAt, Function.update_self]
      exact hU _
    · intro j hj
      simp only [mapAt, Function.update_of_ne hj, one_mul, mul_one]
  rw [matrix, matrix, mul_smul_comm, smul_mul_assoc, letters, smul_smul, ← AddChar.map_add_eq_mul]
  rfl

theorem onQubit_mul_onQubit {U V : Matrix Bool Bool GaussianInt} {c : GaussianInt}
    (h : V * U = c • 1) (k : Fin n) : onQubit k V * onQubit k U = c • 1 := by
  rw [onQubit, onQubit, tensor_mul, ← tensor_one]
  apply tensor_eq_smul k
  · rw [Function.update_self, Function.update_self, h]
  · intro j hj
    rw [Function.update_of_ne hj, Function.update_of_ne hj, one_mul]

/-! ## The controlled NOT -/

/-- The bits with the target flipped if the control is set. -/
def flipTarget (control target : Fin n) (w : Fin n → Bool) : Fin n → Bool :=
  Function.update w target (w target ^^ w control)

theorem flipTarget_target (control target : Fin n) (w : Fin n → Bool) :
    flipTarget control target w target = (w target ^^ w control) :=
  Function.update_self _ _ _

theorem flipTarget_of_ne {control target k : Fin n} (hk : k ≠ target) (w : Fin n → Bool) :
    flipTarget control target w k = w k :=
  Function.update_of_ne hk _ _

/-- The permutation of the basis states by a controlled NOT. -/
def cnotMatrix (control target : Fin n) : KetMatrix n :=
  of fun w v => if w = flipTarget control target v then 1 else 0

section Cnot

variable {control target : Fin n} (apart : control ≠ target)
include apart

theorem flipTarget_flipTarget (w : Fin n → Bool) :
    flipTarget control target (flipTarget control target w) = w := by
  funext k
  by_cases hk : k = target
  · rw [hk, flipTarget_target, flipTarget_target, flipTarget_of_ne apart, Bool.xor_assoc,
      Bool.xor_self, Bool.xor_false]
  · rw [flipTarget_of_ne hk, flipTarget_of_ne hk]

theorem eq_flipTarget_iff (w v : Fin n → Bool) :
    w = flipTarget control target v ↔ flipTarget control target w = v := by
  constructor
  · rintro rfl
    exact flipTarget_flipTarget apart v
  · rintro rfl
    exact (flipTarget_flipTarget apart w).symm

theorem cnotMatrix_mul (G : KetMatrix n) (w v : Fin n → Bool) :
    (cnotMatrix control target * G) w v = G (flipTarget control target w) v := by
  simp [cnotMatrix, mul_apply, eq_flipTarget_iff apart]

omit apart in
theorem mul_cnotMatrix (G : KetMatrix n) (w v : Fin n → Bool) :
    (G * cnotMatrix control target) w v = G w (flipTarget control target v) := by
  simp [cnotMatrix, mul_apply]

theorem cnotMatrix_mul_cnotMatrix : cnotMatrix control target * cnotMatrix control target = 1 := by
  ext w v : 1
  rw [cnotMatrix_mul apart, cnotMatrix, of_apply, one_apply]
  refine if_congr ?_ rfl rfl
  rw [eq_flipTarget_iff apart, flipTarget_flipTarget apart]

end Cnot

theorem Pauli.cnot_entries (c t : Pauli) (w v w' v' : Bool) :
    c.matrix w v * t.matrix (w' ^^ w) v' = iPower (signPhase (c.cnotFlips t)) *
      ((c.cnotControl t).matrix w v * (c.cnotTarget t).matrix w' (v' ^^ v)) := by
  revert w v w' v'
  cases c <;> cases t <;> decide

theorem cnotMatrix_mul_matrix {control target : Fin n} (apart : control ≠ target)
    (g : PauliOperator n) : cnotMatrix control target * g.matrix =
      (PauliOperator.cnot control target g).matrix * cnotMatrix control target := by
  ext w v : 1
  rw [cnotMatrix_mul apart, mul_cnotMatrix, matrix_apply, matrix_apply]
  have rest : ∏ k ∈ {control, target}ᶜ,
        (g.letters k).matrix (flipTarget control target w k) (v k) =
      ∏ k ∈ {control, target}ᶜ, ((PauliOperator.cnot control target g).letters k).matrix (w k)
        (flipTarget control target v k) := by
    refine Finset.prod_congr rfl fun k hk => ?_
    simp only [Finset.mem_compl, Finset.mem_insert, Finset.mem_singleton, not_or] at hk
    rw [flipTarget_of_ne hk.2, flipTarget_of_ne hk.2]
    simp only [PauliOperator.cnot, Function.update_of_ne hk.1, Function.update_of_ne hk.2]
  rw [← Finset.prod_mul_prod_compl {control, target}, Finset.prod_pair apart, rest,
    ← Finset.prod_mul_prod_compl {control, target} fun k => Pauli.matrix _ (w k) _,
    Finset.prod_pair apart, flipTarget_of_ne apart, flipTarget_of_ne apart, flipTarget_target,
    flipTarget_target, Pauli.cnot_entries]
  simp only [PauliOperator.cnot, Function.update_self, Function.update_of_ne apart,
    AddChar.map_add_eq_mul]
  ring

/-! ## Gates -/

namespace Gate

def hadamardMatrix : Matrix Bool Bool GaussianInt := of fun w v => if w && v then -1 else 1

def phaseMatrix : Matrix Bool Bool GaussianInt := diagonal fun w => if w then imaginary else 1

/-- The matrix of a gate; that of `h` is `√2` times the Hadamard matrix. -/
def matrix : Gate (Fin n) → KetMatrix n
  | .h k => onQubit k hadamardMatrix
  | .s k => onQubit k phaseMatrix
  | .x k => onQubit k Pauli.X.matrix
  | .cnot control target => cnotMatrix control target

/-- **Gates conjugate operators.** -/
theorem matrix_mul_matrix {u : Gate (Fin n)} (hu : u.Distinct) (g : PauliOperator n) :
    u.matrix * g.matrix = (u.conj g).matrix * u.matrix := by
  cases u with
  | h k => exact onQubit_mul_matrix (m := .hadamard) (fun a => by cases a <;> decide) k g
  | s k => exact onQubit_mul_matrix (m := .phase) (fun a => by cases a <;> decide) k g
  | x k => exact onQubit_mul_matrix (m := .bitFlip) (fun a => by cases a <;> decide) k g
  | cnot control target => exact cnotMatrix_mul_matrix hu g

/-- The matrix of a gate has an inverse, up to a factor. -/
theorem exists_mul_matrix {u : Gate (Fin n)} (hu : u.Distinct) :
    ∃ V : KetMatrix n, ∃ c : GaussianInt, c ≠ 0 ∧ V * u.matrix = c • 1 := by
  cases u with
  | h k =>
    exact ⟨_, 2, two_ne_zero, onQubit_mul_onQubit (V := hadamardMatrix) (by decide) k⟩
  | s k =>
    exact ⟨_, 1, one_ne_zero, onQubit_mul_onQubit (V := phaseMatrix * Pauli.Z.matrix) (by decide) k⟩
  | x k =>
    exact ⟨_, 1, one_ne_zero, onQubit_mul_onQubit (V := Pauli.X.matrix) (by decide) k⟩
  | cnot control target =>
    exact ⟨_, 1, one_ne_zero, (cnotMatrix_mul_cnotMatrix hu).trans (one_smul _ _).symm⟩

/-- A gate maps no state to zero. -/
theorem mulVec_ne_zero {u : Gate (Fin n)} (hu : u.Distinct) {ψ : Ket n} (hψ : ψ ≠ 0) :
    u.matrix *ᵥ ψ ≠ 0 := by
  obtain ⟨V, c, hc, inverse⟩ := exists_mul_matrix hu
  intro h
  have image : V *ᵥ (u.matrix *ᵥ ψ) = c • ψ := by
    rw [mulVec_mulVec, inverse, smul_mulVec, one_mulVec]
  rw [h, mulVec_zero] at image
  exact hψ ((smul_eq_zero_iff_right hc).1 image.symm)

end Gate

end Stabilizer
