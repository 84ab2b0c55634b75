import Mathlib.Data.Finset.NoncommProd
import Stabilizer.Proofs.GroupMeasurement
/-!
# The parity law

If the group of a tableau holds a product of `Z` over a set of qubits, then the bits that are measured
on these qubits have the parity that the sign of the product says.

The product is never stored, and other measurements change the stabilizers that it is made of.  But it
commutes with every `Z`, so it stays in the group.  When a qubit of the set is measured, the `Z` with
the sign of the bit joins the group; multiplied into the product, it takes the qubit out of the set and
moves the bit into the sign.  When no qubit is left, the sign alone is in the group, so it is plus.
-/

namespace Stabilizer

open PauliOperator

variable {n : Nat}

namespace PauliOperator

/-! ## Products of `Z` -/

/-- The identity with a sign. -/
def ofSign (minus : Bool) : PauliOperator n := ⟨signPhase minus, fun _ => .I⟩

theorem ofSign_mul_ofSign (a b : Bool) : (ofSign a * ofSign b : PauliOperator n) = ofSign (a ^^ b) := by
  ext k
  · simp [ofSign, signPhase_xor, exponent]
  · rfl

theorem commute_ofSign (minus : Bool) (g : PauliOperator n) : Commute (ofSign minus) g := by
  rw [commute_iff_form_eq_zero, form]
  exact Finset.sum_eq_zero fun k _ => Pauli.I_form _

theorem signedZ_eq_ofSign_mul (bit : Bool) (q : Fin n) :
    signedZ bit q = ofSign bit * signedZ false q := by
  ext k
  · simp [ofSign, signedZ, exponent, signPhase]
  · rfl

theorem pairwise_commute_signedZ (Q : Finset (Fin n)) :
    (Q : Set (Fin n)).Pairwise (Function.onFun Commute (signedZ false)) :=
  fun q _ r _ _ => commute_signedZ_signedZ false false q r

/-- The product of `Z` over a set of qubits, with a sign. -/
def parityZ (minus : Bool) (Q : Finset (Fin n)) : PauliOperator n :=
  ofSign minus * Q.noncommProd (signedZ false) (pairwise_commute_signedZ Q)

theorem parityZ_empty (minus : Bool) : (parityZ minus ∅ : PauliOperator n) = ofSign minus := by
  rw [parityZ, Finset.noncommProd_empty, mul_one]

/-- The product commutes with every `Z`. -/
theorem xBit_parityZ (minus : Bool) (Q : Finset (Fin n)) (k : Fin n) :
    ((parityZ minus Q).letters k).xBit = false := by
  rw [← commute_signedZ_iff false]
  refine ((commute_ofSign minus _).symm.mul_right ?_).symm
  exact Finset.noncommProd_commute _ _ _ _ fun q _ => commute_signedZ_signedZ false false k q

/-- A signed `Z` takes its qubit out of the product and changes the sign. -/
theorem signedZ_mul_parityZ {Q : Finset (Fin n)} {q : Fin n} (hq : q ∈ Q) (bit minus : Bool) :
    signedZ bit q * parityZ minus Q = parityZ (minus ^^ bit) (Q.erase q) := by
  have split : parityZ minus Q = signedZ false q * parityZ minus (Q.erase q) := by
    rw [parityZ, parityZ, ← Finset.mul_noncommProd_erase Q hq, ← mul_assoc, ← mul_assoc,
      (commute_ofSign minus (signedZ false q)).eq]
  calc signedZ bit q * parityZ minus Q
      = ofSign bit * (signedZ false q * (signedZ false q * parityZ minus (Q.erase q))) := by
        rw [split, signedZ_eq_ofSign_mul bit, mul_assoc]
    _ = ofSign bit * parityZ minus (Q.erase q) := by rw [signedZ_mul_cancel]
    _ = parityZ (minus ^^ bit) (Q.erase q) := by
        rw [parityZ, parityZ, ← mul_assoc, ofSign_mul_ofSign, Bool.xor_comm]

/-- **A measurement keeps the product**, without its qubit and with its bit in the sign. -/
theorem parityZ_mem_projected {G : Subgroup (PauliOperator n)} {Q : Finset (Fin n)} {minus : Bool}
    (product : parityZ minus Q ∈ G) (q : Fin n) (bit : Bool) :
    parityZ (minus ^^ (decide (q ∈ Q) && bit)) (Q.erase q) ∈ projected G q bit := by
  have kept : parityZ minus Q ∈ projected G q bit :=
    mem_projected_of_mem product (xBit_parityZ minus Q q)
  by_cases hq : q ∈ Q
  · rw [decide_eq_true hq, Bool.true_and, ← signedZ_mul_parityZ hq]
    exact mul_mem signedZ_mem_projected kept
  · rw [decide_eq_false hq, Bool.false_and, Bool.xor_false, Finset.erase_eq_of_notMem hq]
    exact kept

end PauliOperator

/-- The group of a sound tableau has no minus sign alone. -/
theorem Tableau.Symplectic.eq_false_of_ofSign_mem {t : Tableau n} (ht : t.Symplectic) {minus : Bool}
    (h : ofSign minus ∈ t.group) : minus = false := by
  have one : (ofSign minus : PauliOperator n) = 1 := ht.eq_of_letters_eq h (one_mem _) rfl
  exact signPhase_injective (congrArg phase one)

/-! ## Bits -/

/-- The parity of the bits that were reported on the qubits of a set, from the qubits in the order of
their measurements and what each of these reported. -/
def parityOn (Q : Finset (Fin n)) : List (Fin n) → List Outcome → Bool
  | q :: qubits, outcome :: outcomes =>
    (decide (q ∈ Q) && outcome.bit) ^^ parityOn Q qubits outcomes
  | _, _ => false

/-- Qubits that are not measured do not count. -/
theorem parityOn_erase {Q : Finset (Fin n)} {q : Fin n} {qubits : List (Fin n)}
    (unmeasured : q ∈ Q → q ∉ qubits) (outcomes : List Outcome) :
    parityOn (Q.erase q) qubits outcomes = parityOn Q qubits outcomes := by
  by_cases hq : q ∈ Q
  · induction qubits generalizing outcomes with
    | nil => rfl
    | cons r qubits ih =>
      simp only [List.mem_cons, not_or] at unmeasured
      cases outcomes with
      | nil => rfl
      | cons outcome outcomes =>
        have apart : r ≠ q := Ne.symm (unmeasured hq).1
        simp [parityOn, ih (fun hq => (unmeasured hq).2), apart]
  · rw [Finset.erase_eq_of_notMem hq]

namespace Tableau

/-- **The parity law**: if a product of `Z` over a set of qubits is in the group with some sign, then
measurements of these qubits, each of them once, in any order and among measurements of any others,
report bits with the parity that the sign says. -/
theorem parityOn_measureEach {t : Tableau n} (ht : t.isSymplectic = true) {Q : Finset (Fin n)}
    {minus : Bool} (product : parityZ minus Q ∈ t.group) {qubits : List (Fin n)}
    (once : ∀ q ∈ Q, qubits.count q = 1) (coins : Coins) :
    ∃ outcomes after rest, t.measureEach coins qubits = .ok (outcomes, after, rest) ∧
      parityOn Q qubits outcomes = minus := by
  induction qubits generalizing t Q minus coins with
  | nil =>
    obtain rfl : Q = ∅ := Finset.eq_empty_of_forall_notMem fun q hq => by simpa using once q hq
    rw [parityZ_empty] at product
    exact ⟨[], t, coins, rfl, (((isSymplectic_iff t).1 ht).eq_false_of_ofSign_mem product).symm⟩
  | cons q qubits ih =>
    obtain ⟨outcome, between, first, sound, -, group⟩ :=
      exists_measure ((isSymplectic_iff t).1 ht) q coins
    have reduced := parityZ_mem_projected product q outcome.bit
    rw [← group] at reduced
    have others_once (r : Fin n) (hr : r ∈ Q.erase q) : qubits.count r = 1 := by
      obtain ⟨apart, hr⟩ := Finset.mem_erase.1 hr
      rw [← once r hr, List.count_cons_of_ne (Ne.symm apart)]
    obtain ⟨outcomes, after, rest, others, parity⟩ :=
      ih ((isSymplectic_iff between).2 sound) reduced others_once (coins.after outcome)
    refine ⟨outcome :: outcomes, after, rest, measureEach_cons first others, ?_⟩
    have unmeasured (hq : q ∈ Q) : q ∉ qubits := by
      rw [← List.count_eq_zero]
      simpa using once q hq
    rw [parityOn, ← parityOn_erase unmeasured, parity, Bool.xor_comm, Bool.xor_assoc, Bool.xor_self,
      Bool.xor_false]

/-- Three qubits of which two are correlated, with the third measured in between. -/
theorem parityOn_measureEach_bell :
    let t := (((basis 3 0 (by decide)).apply (.h 0)).apply (.cnot 0 2)).apply (.x 2)
    let coins := Coins.fresh fun _ => 0x80000000
    let Q : Finset (Fin 3) := {0, 2}
    let qubits : List (Fin 3) := [2, 1, 0]
    t.isSymplectic = true ∧ parityZ true Q ∈ t.group ∧ (∀ q ∈ Q, qubits.count q = 1) ∧
    ∃ outcomes after rest, t.measureEach coins qubits = .ok (outcomes, after, rest) ∧
      parityOn Q qubits outcomes = true := by
  intro t coins Q qubits
  have sound : t.isSymplectic = true := by decide
  have product : parityZ true Q ∈ t.group := by
    have row : (t.stabilizer 2).exact = parityZ true Q := by
      ext k
      · decide
      · revert k
        decide
    exact row ▸ t.stabilizer_mem_group 2
  have once : ∀ q ∈ Q, qubits.count q = 1 := by decide
  exact ⟨sound, product, once, parityOn_measureEach sound product once coins⟩

end Tableau

end Stabilizer
