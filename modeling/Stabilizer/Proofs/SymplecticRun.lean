import Stabilizer.Proofs.Collapse
import Stabilizer.Proofs.Run
/-!
# Runs that keep the rows symplectic

Signs do not matter to the symplectic condition, gates keep how the rows are paired, a measurement
keeps the condition, and two kinds of row operations keep it although they change single rows: a
destabilizer and its stabilizer may be exchanged, and a stabilizer may be multiplied by another if
the destabilizer of the second is multiplied by that of the first.
-/

namespace Stabilizer

open PauliOperator

variable {n : Nat}

namespace Tableau

/-! ## One operation -/

namespace Symplectic

variable {t u : Tableau n}

/-- Rows that are paired as before. -/
theorem of_form_eq (ht : t.Symplectic)
    (same : ∀ i j, (u.row i).exact.form (u.row j).exact = (t.row i).exact.form (t.row j).exact) :
    u.Symplectic := by
  rw [← isSymplectic_iff, isSymplectic_iff_form] at ht ⊢
  intro i j
  rw [same, ht]

/-- Rows with other signs. -/
theorem of_letters_eq (ht : t.Symplectic)
    (same : ∀ i, (u.row i).exact.letters = (t.row i).exact.letters) : u.Symplectic := by
  refine ht.of_form_eq fun i j => ?_
  rw [form_congr_left _ (same i), form_comm, form_congr_left _ (same j), form_comm]

theorem apply (ht : t.Symplectic) {g : Gate (Fin n)} (hg : g.Distinct) : (t.apply g).Symplectic :=
  ht.of_form_eq (form_apply hg t)

theorem putSign (ht : t.Symplectic) (i : Fin (2 * n)) (minus : Bool) :
    (t.putSign i minus).Symplectic := by
  refine ht.of_letters_eq fun k => ?_
  rw [row_putSign]
  split
  · rename_i hk
    subst hk
    rfl
  · rfl

theorem setSign (ht : t.Symplectic) {row : Nat} {minus : Bool} (h : t.setSign row minus = .ok u) :
    u.Symplectic := by
  unfold Tableau.setSign rowIndex at h
  split at h
  · cases h
    exact ht.putSign _ minus
  · cases h

theorem flipSign (ht : t.Symplectic) {row : Nat} (h : t.flipSign row = .ok u) : u.Symplectic := by
  unfold Tableau.flipSign rowIndex at h
  split at h
  · cases h
    exact ht.putSign _ _
  · cases h

theorem setSigns (ht : t.Symplectic) {bits : Array Bool} (h : t.setSigns bits = .ok u) :
    u.Symplectic := by
  unfold Tableau.setSigns at h
  split at h
  · cases h
    refine ht.of_letters_eq fun k => ?_
    rw [Tableau.row_ofFn]
    rfl
  · cases h

/-- A destabilizer and its stabilizer change places. -/
theorem exchange (ht : t.Symplectic) (k : Fin n) :
    (t.exchange (destabIndex k) (stabIndex k)).Symplectic := by
  have destab (i : Fin n) : (t.exchange (destabIndex k) (stabIndex k)).destabilizer i =
      if i = k then t.stabilizer k else t.destabilizer i := by
    rw [destabilizer, row_exchange]
    simp
  have stab (i : Fin n) : (t.exchange (destabIndex k) (stabIndex k)).stabilizer i =
      if i = k then t.destabilizer k else t.stabilizer i := by
    rw [stabilizer, row_exchange]
    simp
  refine ⟨fun i j => ?_, fun i j => ?_, fun i j => ?_⟩
  · rw [destab, destab]
    by_cases hi : i = k <;> by_cases hj : j = k
    · rw [if_pos hi, if_pos hj, ht.stab_stab]
    · rw [if_pos hi, if_neg hj, ht.stab_destab, if_neg (Ne.symm hj)]
    · rw [if_neg hi, if_pos hj, ht.destab_stab, if_neg hi]
    · rw [if_neg hi, if_neg hj, ht.destab_destab]
  · rw [destab, stab]
    by_cases hi : i = k <;> by_cases hj : j = k
    · rw [if_pos hi, if_pos hj, ht.stab_destab, if_pos rfl, if_pos (hi.trans hj.symm)]
    · rw [if_pos hi, if_neg hj, ht.stab_stab, if_neg fun h => hj (h.symm.trans hi)]
    · rw [if_neg hi, if_pos hj, ht.destab_destab, if_neg fun h => hi (h.trans hj)]
    · rw [if_neg hi, if_neg hj, ht.destab_stab]
  · rw [stab, stab]
    by_cases hi : i = k <;> by_cases hj : j = k
    · rw [if_pos hi, if_pos hj, ht.destab_destab]
    · rw [if_pos hi, if_neg hj, ht.destab_stab, if_neg (Ne.symm hj)]
    · rw [if_neg hi, if_pos hj, ht.stab_destab, if_neg hi]
    · rw [if_neg hi, if_neg hj, ht.stab_stab]

/-- Stabilizer `a` takes up stabilizer `b`, and destabilizer `b` takes up destabilizer `a`. -/
theorem multiply_pair (ht : t.Symplectic) {a b : Fin n} (hab : a ≠ b) :
    ((t.multiply (stabIndex a) (stabIndex b)).multiply (destabIndex b)
      (destabIndex a)).Symplectic := by
  have destab (i : Fin n) : ((t.multiply (stabIndex a) (stabIndex b)).multiply (destabIndex b)
        (destabIndex a)).destabilizer i =
      if i = b then (t.destabilizer b).mul (t.destabilizer a) else t.destabilizer i := by
    simp only [destabilizer, row_multiply, destabIndex_inj, destabIndex_ne_stabIndex, if_false]
  have stab (i : Fin n) : ((t.multiply (stabIndex a) (stabIndex b)).multiply (destabIndex b)
        (destabIndex a)).stabilizer i =
      if i = a then (t.stabilizer a).mul (t.stabilizer b) else t.stabilizer i := by
    simp only [stabilizer, row_multiply, stabIndex_inj, stabIndex_ne_destabIndex, if_false]
  refine ⟨fun i j => ?_, fun i j => ?_, fun i j => ?_⟩
  · rw [destab, destab]
    by_cases hi : i = b <;> by_cases hj : j = b <;>
      simp [hi, hj, Row.mul_exact_form, Row.form_mul_exact, ht.destab_destab]
  · rw [destab, stab]
    by_cases hi : i = b <;> by_cases hj : j = a
    · -- the pair gains the pairs of `b` and of `a`, and `1 + 1 = 0`
      rw [if_pos hi, if_pos hj, Row.mul_exact_form, Row.form_mul_exact, Row.form_mul_exact]
      simp [ht.destab_stab, hi, hj, hab, hab.symm, CharTwo.add_self_eq_zero]
    · rw [if_pos hi, if_neg hj, Row.mul_exact_form, ht.destab_stab, ht.destab_stab,
        if_neg (Ne.symm hj), add_zero, hi]
    · rw [if_neg hi, if_pos hj, Row.form_mul_exact, ht.destab_stab, ht.destab_stab, if_neg hi,
        add_zero, hj]
    · rw [if_neg hi, if_neg hj, ht.destab_stab]
  · rw [stab, stab]
    by_cases hi : i = a <;> by_cases hj : j = a <;>
      simp [hi, hj, Row.mul_exact_form, Row.form_mul_exact, ht.stab_stab]

theorem measure (ht : t.Symplectic) {q : Nat} {coins after : Coins} {outcome : Outcome}
    (h : t.measure q coins = .ok (outcome, u, after)) : u.Symplectic := by
  by_cases hq : q < n
  · obtain ⟨k, rfl⟩ : ∃ k : Fin n, k.val = q := ⟨⟨q, hq⟩, rfl⟩
    rcases hp : t.pivot? k with _ | p
    · rw [measure_of_none hp] at h
      cases h
      exact ht.of_form_eq fun _ _ => rfl
    · rw [measure_of_some hp] at h
      cases h
      exact symplectic_collapse ht (x_of_pivot? hp) _
  · rw [measure_of_le (Nat.le_of_not_lt hq)] at h
    cases h

end Symplectic

end Tableau

/-! ## Runs of operations -/

/-- What may be done to symplectic rows. -/
inductive SoundStep (n : Nat) where
  | circuit (step : CircuitStep n)
  | setSign (row : Nat) (minus : Bool)
  | flipSign (row : Nat)
  | setSigns (bits : Array Bool)
  /-- Exchanges a destabilizer and its stabilizer. -/
  | exchangePair (k : Fin n)
  /-- Multiplies stabilizer `b` into stabilizer `a`, and then destabilizer `a` into destabilizer
  `b`. -/
  | multiplyPair (a b : Fin n) (distinct : a ≠ b)

/-- The updates that a step is. -/
def SoundStep.updates : SoundStep n → List Update
  | .circuit step => [step.update]
  | .setSign row minus => [.setSign row minus]
  | .flipSign row => [.flipSign row]
  | .setSigns bits => [.setSigns bits]
  | .exchangePair k => [.swapRows k (n + k)]
  | .multiplyPair a b _ => [.rowsum (n + a) (n + b), .rowsum b a]

namespace Simulation

variable {s : Simulation n}

/-- An update of the tableau that keeps the rows symplectic. -/
theorem symplectic_run_of_settle {u : Update} {result : Except Error (Tableau n)}
    (hs : s.tableau.Symplectic) (h : s.attempt u = s.settle result)
    (keeps : ∀ t, result = .ok t → t.Symplectic) : (s.run u).2.tableau.Symplectic := by
  rw [run_of_settle h]
  rcases result with error | t
  · exact hs
  · exact keeps t rfl

theorem symplectic_run_circuit (hs : s.tableau.Symplectic) (step : CircuitStep n) :
    (s.run step.update).2.tableau.Symplectic := by
  cases step with
  | gate u distinct =>
    rw [CircuitStep.update, run_gate]
    exact hs.apply distinct
  | measure q =>
    rw [CircuitStep.update, run, attempt]
    rcases h : s.tableau.measure q s.coins with error | ⟨outcome, t, coins⟩
    · exact hs
    · exact hs.measure h

theorem symplectic_runAll_updates (hs : s.tableau.Symplectic) (step : SoundStep n) :
    (s.runAll step.updates).tableau.Symplectic := by
  cases step with
  | circuit step => exact symplectic_run_circuit hs step
  | setSign row minus => exact symplectic_run_of_settle hs rfl fun t h => hs.setSign h
  | flipSign row => exact symplectic_run_of_settle hs rfl fun t h => hs.flipSign h
  | setSigns bits => exact symplectic_run_of_settle hs rfl fun t h => hs.setSigns h
  | exchangePair k =>
    refine symplectic_run_of_settle hs rfl fun t h => ?_
    rw [Tableau.swapRows, Tableau.rowIndex_val, Tableau.rowIndex_add] at h
    cases h
    exact hs.exchange k
  | multiplyPair a b distinct =>
    rw [SoundStep.updates, runAll_cons, runAll_cons, runAll_nil, run_of_settle rfl,
      run_of_settle rfl, Tableau.rowsum, Tableau.rowsum, Tableau.rowIndex_add,
      Tableau.rowIndex_add, Tableau.rowIndex_val, Tableau.rowIndex_val]
    exact hs.multiply_pair distinct

/-- A run keeps the rows symplectic. -/
theorem symplectic_runAll (hs : s.tableau.Symplectic) (steps : List (SoundStep n)) :
    (s.runAll (steps.flatMap SoundStep.updates)).tableau.Symplectic := by
  induction steps generalizing s with
  | nil => exact hs
  | cons step steps ih =>
    rw [List.flatMap_cons, runAll_append]
    exact ih (symplectic_runAll_updates hs step)

/-- **Runs stay symplectic**: whatever sound steps are taken from a basis state, the rows are
symplectic and the stabilizers commute. -/
theorem isSymplectic_runAll {state : Nat} {t : Tableau n} (ht : Tableau.ofBasisState n state = .ok t)
    (coins : Coins) (steps : List (SoundStep n)) :
    let after := (Simulation.mk t coins).runAll (steps.flatMap SoundStep.updates)
    after.tableau.isSymplectic = true ∧
      ∀ a ∈ after.tableau.stabilizers, ∀ b ∈ after.tableau.stabilizers,
        a.commutesWith b = true := by
  intro after
  have symplectic : after.tableau.Symplectic :=
    symplectic_runAll (s := ⟨t, coins⟩) (Tableau.symplectic_ofBasisState ht) steps
  exact ⟨(Tableau.isSymplectic_iff _).2 symplectic, symplectic.stabilizers_commute⟩

/-- A run on two qubits. -/
theorem isSymplectic_runAll_two_qubits :
    let steps : List (SoundStep 2) := [.circuit (.gate (.h 0) (by decide)), .circuit (.measure 0),
      .exchangePair 1, .multiplyPair 0 1 (by decide), .flipSign 3]
    let t := Tableau.basis 2 1 (by decide)
    let after := (Simulation.mk t (Coins.fresh fun _ => 0)).runAll
      (steps.flatMap SoundStep.updates)
    Tableau.ofBasisState 2 1 = .ok t ∧ after.tableau.isSymplectic = true ∧
      ∀ a ∈ after.tableau.stabilizers, ∀ b ∈ after.tableau.stabilizers,
        a.commutesWith b = true :=
  have ht : Tableau.ofBasisState 2 1 = .ok (Tableau.basis 2 1 (by decide)) := rfl
  ⟨ht, isSymplectic_runAll ht _ _⟩

end Simulation

end Stabilizer
