import Stabilizer.Proofs.Measurement
import Stabilizer.Proofs.Symplectic
import Stabilizer.Tableau.Gate
/-!
# Determined outcomes

The stabilizers of a sound tableau commute and square to 1, so an element of its group is the product
of some of them.  Which ones is read off the destabilizers: stabilizer `i` is a factor exactly when
the element anticommutes with destabilizer `i`.  Hence an element is known by its letters alone, sign
included.

When no stabilizer has an X part at a qubit, `Z` on the qubit commutes with all of them, and the
product that the measurement builds commutes with every row exactly as this `Z` does.  So the product
is this `Z` up to sign, and no other sign of it is in the group.
-/

namespace Stabilizer

open PauliOperator

variable {n : Nat}

theorem PauliOperator.list_prod_form (l : List (PauliOperator n)) (h : PauliOperator n) :
    l.prod.form h = (l.map fun g => g.form h).sum := by
  induction l with
  | nil => exact one_form h
  | cons g l ih => rw [List.prod_cons, mul_form, ih, List.map_cons, List.sum_cons]

namespace Tableau

/-! ## Products of stabilizers -/

/-- A stabilizer if it is picked, and else 1. -/
def factor (t : Tableau n) (pick : Fin n → Bool) (i : Fin n) : PauliOperator n :=
  if pick i then (t.stabilizer i).exact else 1

/-- The product of the stabilizers that are picked. -/
def selection (t : Tableau n) (pick : Fin n → Bool) : PauliOperator n :=
  ((List.finRange n).map (t.factor pick)).prod

theorem factor_form (t : Tableau n) (pick : Fin n → Bool) (i : Fin n) (h : PauliOperator n) :
    (t.factor pick i).form h = mod2 (pick i) * (t.stabilizer i).exact.form h := by
  unfold factor
  cases pick i <;> simp

theorem selection_form (t : Tableau n) (pick : Fin n → Bool) (h : PauliOperator n) :
    (t.selection pick).form h = ∑ i, mod2 (pick i) * (t.stabilizer i).exact.form h := by
  rw [selection, list_prod_form, List.map_map, ← List.ofFn_eq_map, List.sum_ofFn]
  exact Finset.sum_congr rfl fun i _ => factor_form t pick i h

theorem selection_mem_group (t : Tableau n) (pick : Fin n → Bool) : t.selection pick ∈ t.group := by
  refine Subgroup.list_prod_mem _ fun g hg => ?_
  obtain ⟨i, -, rfl⟩ := List.mem_map.1 hg
  unfold factor
  split
  · exact t.stabilizer_mem_group i
  · exact one_mem _

namespace Symplectic

variable {t : Tableau n}

/-- A product of stabilizers anticommutes with the destabilizers of its factors. -/
theorem selection_form_destab (ht : t.Symplectic) (pick : Fin n → Bool) (i : Fin n) :
    (t.selection pick).form (t.destabilizer i).exact = mod2 (pick i) := by
  rw [selection_form, Finset.sum_eq_single i]
  · rw [ht.stab_destab, if_pos rfl, mul_one]
  · intro j _ hj
    rw [ht.stab_destab, if_neg hj, mul_zero]
  · intro absent
    exact absurd (Finset.mem_univ i) absent

theorem selection_form_stab (ht : t.Symplectic) (pick : Fin n → Bool) (i : Fin n) :
    (t.selection pick).form (t.stabilizer i).exact = 0 := by
  rw [selection_form]
  refine Finset.sum_eq_zero fun j _ => ?_
  rw [ht.stab_stab, mul_zero]

theorem commute_factor (ht : t.Symplectic) (pick pick' : Fin n → Bool) (i j : Fin n) :
    Commute (t.factor pick i) (t.factor pick' j) := by
  rw [commute_iff_form_eq_zero, factor_form, form_comm, factor_form, ht.stab_stab, mul_zero,
    mul_zero]

/-- Factors that are picked twice cancel. -/
theorem selection_mul (ht : t.Symplectic) (pick pick' : Fin n → Bool) :
    t.selection pick * t.selection pick' = t.selection fun i => pick i ^^ pick' i := by
  have factors (i : Fin n) :
      t.factor pick i * t.factor pick' i = t.factor (fun i => pick i ^^ pick' i) i := by
    by_cases h : pick i = true <;> by_cases h' : pick' i = true <;> simp [factor, h, h']
  have split (l : List (Fin n)) :
      (l.map (t.factor pick)).prod * (l.map (t.factor pick')).prod =
        (l.map (t.factor fun i => pick i ^^ pick' i)).prod := by
    induction l with
    | nil => exact one_mul 1
    | cons i l ih =>
      have past : Commute (l.map (t.factor pick)).prod (t.factor pick' i) := by
        refine (Commute.list_prod_right _ _ fun g hg => ?_).symm
        obtain ⟨j, -, rfl⟩ := List.mem_map.1 hg
        exact ht.commute_factor pick' pick i j
      simp only [List.map_cons, List.prod_cons]
      rw [← ih, ← factors, mul_assoc, ← mul_assoc _ (t.factor pick' i), past.eq]
      simp only [mul_assoc]
  exact split _

/-- The elements of the group are the products of stabilizers. -/
theorem exists_selection (ht : t.Symplectic) {g : PauliOperator n} (hg : g ∈ t.group) :
    ∃ pick, g = t.selection pick := by
  rw [group_eq_closure] at hg
  have none : t.selection (fun _ => false) = 1 := by
    refine List.prod_eq_one fun g hg => ?_
    obtain ⟨i, -, rfl⟩ := List.mem_map.1 hg
    rfl
  induction hg using Subgroup.closure_induction with
  | mem g hg =>
    obtain ⟨i, rfl⟩ := hg
    refine ⟨fun j => j == i, ?_⟩
    have others (j : Fin n) (hj : j ≠ i) (_ : j ∈ List.finRange n) :
        t.factor (fun j => j == i) j = 1 := by
      simp [factor, hj]
    rw [selection, List.prod_map_eq_pow_single i _ others,
      List.count_eq_one_of_mem (List.nodup_finRange n) (List.mem_finRange i), pow_one]
    simp [factor]
  | one => exact ⟨_, none.symm⟩
  | mul f g _ _ hf hg =>
    obtain ⟨pick, rfl⟩ := hf
    obtain ⟨pick', rfl⟩ := hg
    exact ⟨_, ht.selection_mul pick pick'⟩
  | inv g _ hg =>
    obtain ⟨pick, rfl⟩ := hg
    refine ⟨pick, inv_eq_of_mul_eq_one_left ?_⟩
    rw [ht.selection_mul, ← none]
    simp

/-- **An element of the group is known by its letters.** -/
theorem eq_of_letters_eq (ht : t.Symplectic) {g h : PauliOperator n} (hg : g ∈ t.group)
    (hh : h ∈ t.group) (same : g.letters = h.letters) : g = h := by
  obtain ⟨pick, rfl⟩ := ht.exists_selection hg
  obtain ⟨pick', rfl⟩ := ht.exists_selection hh
  have picks (i : Fin n) : pick i = pick' i := by
    apply mod2_injective
    rw [← ht.selection_form_destab, ← ht.selection_form_destab, form_congr_left _ same]
  rw [funext picks]

end Symplectic

/-! ## The determined product -/

/-- Multiplying picked stabilizers into a row that commutes with all of them is exact. -/
theorem exact_foldl_mul {t : Tableau n} (ht : t.Symplectic) (pick : Fin n → Bool)
    (l : List (Fin n)) (a : Row n) (comm : ∀ i, a.exact.form (t.stabilizer i).exact = 0) :
    (l.foldl (fun product i => if pick i then product.mul (t.stabilizer i) else product) a).exact =
      a.exact * (l.map (t.factor pick)).prod := by
  induction l generalizing a with
  | nil => exact (mul_one _).symm
  | cons i l ih =>
    rw [List.foldl_cons, List.map_cons, List.prod_cons, ← mul_assoc]
    by_cases hi : pick i = true
    · have next (j : Fin n) : (a.mul (t.stabilizer i)).exact.form (t.stabilizer j).exact = 0 := by
        rw [Row.mul_exact_form, comm, ht.stab_stab, add_zero]
      rw [if_pos hi, ih _ next, Row.exact_mul (comm i), factor, if_pos hi,
        (commute_iff_form_eq_zero.2 (comm i)).eq]
    · rw [if_neg hi, ih a comm, factor, if_neg hi, mul_one]

/-- The determined product is exact. -/
theorem exact_determined {t : Tableau n} (ht : t.Symplectic) (q : Fin n) :
    (t.determined q).exact = t.selection fun i => (t.destabilizer i).x.get q := by
  have one (i : Fin n) : (Row.one n).exact.form (t.stabilizer i).exact = 0 := by
    rw [Row.exact_one, one_form]
  rw [determined, exact_foldl_mul ht (fun i => (t.destabilizer i).x.get q) _ _ one, Row.exact_one,
    one_mul]
  rfl

/-- Without a pivot, the determined product is a signed `Z` on the qubit. -/
theorem determined_eq_singleZ {t : Tableau n} (ht : t.Symplectic) {q : Fin n}
    (hq : t.pivot? q = none) : t.determined q = Row.singleZ n (t.determined q).minus q := by
  have letters : (t.determined q).exact.letters = (signedZ (t.determined q).minus q).letters := by
    rw [exact_determined ht]
    refine ht.letters_ext (fun i => ?_) fun i => ?_
    · rw [ht.selection_form_destab, form_comm, form_signedZ, Row.letters_exact, Row.xBit_letter]
    · rw [ht.selection_form_stab, form_comm, form_signedZ, Row.letters_exact, Row.xBit_letter,
        pivot?_eq_none.1 hq i, mod2_false]
  apply Row.exact_injective
  rw [Row.exact_singleZ]
  exact PauliOperator.ext rfl letters

/-- Without a pivot, the signed `Z` that was built is in the group. -/
theorem signedZ_mem_group {t : Tableau n} (ht : t.Symplectic) {q : Fin n}
    (hq : t.pivot? q = none) : signedZ (t.determined q).minus q ∈ t.group := by
  rw [← Row.exact_singleZ, ← determined_eq_singleZ ht hq, exact_determined ht]
  exact t.selection_mem_group _

/-- If a signed `Z` is in the group, then no stabilizer has an X part at the qubit. -/
theorem pivot?_of_signedZ_mem {t : Tableau n} (ht : t.Symplectic) {q : Fin n} {bit : Bool}
    (h : signedZ bit q ∈ t.group) : t.pivot? q = none := by
  obtain ⟨pick, picked⟩ := ht.exists_selection h
  rw [pivot?_eq_none]
  intro i
  have comm := ht.selection_form_stab pick i
  rw [← picked, form_comm, form_signedZ, Row.letters_exact, Row.xBit_letter] at comm
  exact mod2_eq_zero.1 comm

/-- The sign of `Z` in the group is the one that the determined product has. -/
theorem signedZ_mem_group_iff {t : Tableau n} (ht : t.Symplectic) {q : Fin n} {bit : Bool} :
    signedZ bit q ∈ t.group ↔ t.pivot? q = none ∧ bit = (t.determined q).minus := by
  constructor
  · intro h
    have hq := pivot?_of_signedZ_mem ht h
    have same := ht.eq_of_letters_eq h (signedZ_mem_group ht hq) rfl
    exact ⟨hq, signPhase_injective (congrArg phase same)⟩
  · rintro ⟨hq, rfl⟩
    exact signedZ_mem_group ht hq

/-- **Determined outcomes are sound and complete.**  A measurement has a determined outcome exactly
when a signed `Z` on the qubit is in the group of the tableau.  Then only one of the two signs is,
the scratch row is left holding this `Z`, and its sign is the bit that is reported. -/
theorem measure_deterministic_iff {t : Tableau n} (ht : t.isSymplectic = true) (q : Fin n)
    (coins : Coins) :
    (t.isDeterministic q = .ok true ↔ signedZ false q ∈ t.group ∨ signedZ true q ∈ t.group) ∧
    ((∃ outcome after rest, t.measure q coins = .ok (outcome, after, rest) ∧
        outcome.isDeterministic = true) ↔
      signedZ false q ∈ t.group ∨ signedZ true q ∈ t.group) ∧
    ∀ bit, signedZ bit q ∈ t.group →
      signedZ (!bit) q ∉ t.group ∧
      t.measure q coins =
        .ok (.deterministic bit, { t with scratch := Row.singleZ n bit q }, coins) := by
  rw [isSymplectic_iff] at ht
  have either : signedZ false q ∈ t.group ∨ signedZ true q ∈ t.group ↔ t.pivot? q = none := by
    rw [signedZ_mem_group_iff ht, signedZ_mem_group_iff ht, ← and_or_left]
    cases (t.determined q).minus <;> simp
  refine ⟨?_, ?_, ?_⟩
  · rw [either, isDeterministic_eq]
    simp
  · rw [either]
    constructor
    · rintro ⟨outcome, after, rest, measured, determined⟩
      cases hq : t.pivot? q with
      | none => rfl
      | some p =>
        rw [measure_of_some hq] at measured
        cases measured
        cases determined
    · intro hq
      exact ⟨_, _, _, measure_of_none hq coins, rfl⟩
  · intro bit h
    obtain ⟨hq, hbit⟩ := (signedZ_mem_group_iff ht).1 h
    refine ⟨?_, ?_⟩
    · intro other
      have both := ((signedZ_mem_group_iff ht).1 other).2
      rw [← hbit] at both
      cases bit <;> cases both
    · rw [measure_of_none hq, hbit, ← determined_eq_singleZ ht hq]

/-- A `Z` that is the product of two stabilizers, `ZZ` and `-IZ`. -/
theorem measure_deterministic_iff_product :
    let t := (basis 2 1 (by decide)).apply (.cnot 1 0)
    t.isSymplectic = true ∧
    (t.isDeterministic (0 : Fin 2) = .ok true ↔
      signedZ false 0 ∈ t.group ∨ signedZ true 0 ∈ t.group) ∧
    (signedZ true 0 ∈ t.group → signedZ false 0 ∉ t.group ∧
      t.measure (0 : Fin 2) (Coins.fresh fun _ => 0) =
        .ok (.deterministic true, { t with scratch := Row.singleZ 2 true 0 },
          Coins.fresh fun _ => 0)) :=
  have parts := measure_deterministic_iff (t := (basis 2 1 (by decide)).apply (.cnot 1 0))
    (by decide) 0 (Coins.fresh fun _ => 0)
  ⟨by decide, parts.1, parts.2.2 true⟩

end Tableau

end Stabilizer
