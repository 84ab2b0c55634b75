import Stabilizer.Proofs.GroupMeasurement
import Stabilizer.Proofs.SymplecticRun
/-!
# Tableaus with the same group

Many tableaus stand for one state: other generators of the same group will do, in another order and
with other destabilizers.  A circuit does not tell them apart.  A gate acts on the group as an
automorphism, and a measurement acts on it as `exists_measure` says, although the two tableaus look for
their pivots among different rows.  So two simulations whose groups and coins agree give the same
replies and go on agreeing.
-/

namespace Stabilizer

open PauliOperator

variable {n : Nat}

/-! ## Other generators -/

namespace Tableau

theorem group_eq_of_stabilizer_eq {t u : Tableau n} (same : ∀ i, u.stabilizer i = t.stabilizer i) :
    u.group = t.group := by
  rw [group_eq_closure, group_eq_closure, funext same]

/-- A stabilizer may be multiplied by another. -/
theorem group_multiply {t : Tableau n} (ht : t.Symplectic) {a b : Fin n} (hab : a ≠ b) :
    (t.multiply (stabIndex a) (stabIndex b)).group = t.group := by
  have stab (i : Fin n) : (t.multiply (stabIndex a) (stabIndex b)).stabilizer i =
      if i = a then (t.stabilizer a).mul (t.stabilizer b) else t.stabilizer i := by
    simp only [stabilizer, row_multiply, stabIndex_inj]
  have product : ((t.stabilizer a).mul (t.stabilizer b)).exact =
      (t.stabilizer b).exact * (t.stabilizer a).exact :=
    Row.exact_mul (ht.stab_stab a b)
  apply le_antisymm <;> refine group_le_iff.2 fun i => ?_
  · rw [stab]
    split
    · rw [product]
      exact mul_mem (t.stabilizer_mem_group b) (t.stabilizer_mem_group a)
    · exact t.stabilizer_mem_group i
  · have here := (t.multiply (stabIndex a) (stabIndex b)).stabilizer_mem_group i
    by_cases hi : i = a
    · have factor := (t.multiply (stabIndex a) (stabIndex b)).stabilizer_mem_group b
      rw [stab, if_neg hab.symm] at factor
      rw [stab, if_pos hi, product, mul_mem_cancel_left factor] at here
      rwa [hi]
    · rwa [stab, if_neg hi] at here

end Tableau

/-! ## Circuits -/

/-- What a gate makes of operators, as a homomorphism. -/
def Gate.conjHom {u : Gate (Fin n)} (hu : u.Distinct) : PauliOperator n →* PauliOperator n :=
  MonoidHom.mk' u.conj (Gate.conj_mul hu)

/-- A gate acts on the whole group. -/
theorem Tableau.group_apply {u : Gate (Fin n)} (hu : u.Distinct) (t : Tableau n) :
    (t.apply u).group = t.group.map (Gate.conjHom hu) := by
  have generators : (Set.range fun i => ((t.apply u).stabilizer i).exact) =
      Gate.conjHom hu '' Set.range fun i => (t.stabilizer i).exact := by
    rw [← Set.range_comp]
    refine congrArg Set.range (funext fun i => ?_)
    rw [stabilizer, row_apply, Gate.exact_onRow hu]
    rfl
  rw [group_eq_closure, group_eq_closure, MonoidHom.map_closure, generators]

namespace Simulation

/-- Two simulations on which no circuit can tell the tableaus apart. -/
structure Alike (s r : Simulation n) : Prop where
  left : s.tableau.Symplectic
  right : r.tableau.Symplectic
  group : s.tableau.group = r.tableau.group
  coins : s.coins = r.coins

namespace Alike

variable {s r : Simulation n}

/-- A step has the same reply and keeps the simulations alike. -/
theorem run (h : s.Alike r) (step : CircuitStep n) :
    (s.run step.update).1 = (r.run step.update).1 ∧
      (s.run step.update).2.Alike (r.run step.update).2 := by
  cases step with
  | gate u distinct =>
    rw [CircuitStep.update, run_gate, run_gate]
    refine ⟨rfl, h.left.apply distinct, h.right.apply distinct, ?_, h.coins⟩
    rw [Tableau.group_apply distinct, Tableau.group_apply distinct, h.group]
  | measure q =>
    rw [CircuitStep.update]
    by_cases hq : q < n
    · lift q to Fin n using hq
      obtain ⟨a, t, measured, ht, reports, group⟩ := Tableau.exists_measure h.left q s.coins
      obtain ⟨b, u, measured', hu, reports', group'⟩ := Tableau.exists_measure h.right q r.coins
      rw [← h.group, ← h.coins] at reports'
      obtain rfl := reports.unique reports'
      rw [run_measure_of_ok measured, run_measure_of_ok measured', h.coins]
      exact ⟨rfl, ht, hu, by rw [group, group', h.group], rfl⟩
    · rw [run_measure_of_le (Nat.le_of_not_lt hq), run_measure_of_le (Nat.le_of_not_lt hq)]
      exact ⟨rfl, h⟩

theorem runAll (h : s.Alike r) (circuit : List (CircuitStep n)) :
    (s.runAll (circuit.map CircuitStep.update)).Alike
      (r.runAll (circuit.map CircuitStep.update)) := by
  induction circuit generalizing s r with
  | nil => exact h
  | cons step circuit ih => exact ih (h.run step).2

theorem replies (h : s.Alike r) (circuit : List (CircuitStep n)) :
    s.replies (circuit.map CircuitStep.update) = r.replies (circuit.map CircuitStep.update) := by
  induction circuit generalizing s r with
  | nil => rfl
  | cons step circuit ih =>
    rw [List.map_cons, Simulation.replies, Simulation.replies, (h.run step).1, ih (h.run step).2]

end Alike

/-- **What a circuit shows depends on the group alone**: from two sound tableaus with the same group,
with the same coins, every circuit gives the same replies, and after every step of it the groups and
the coins are still the same. -/
theorem replies_eq_of_group_eq {t u : Tableau n} (ht : t.isSymplectic = true)
    (hu : u.isSymplectic = true) (same : t.group = u.group) (coins : Coins)
    (circuit : List (CircuitStep n)) :
    (Simulation.mk t coins).replies (circuit.map CircuitStep.update) =
        (Simulation.mk u coins).replies (circuit.map CircuitStep.update) ∧
      ∀ k,
        let s := (Simulation.mk t coins).runAll ((circuit.take k).map CircuitStep.update)
        let r := (Simulation.mk u coins).runAll ((circuit.take k).map CircuitStep.update)
        s.tableau.group = r.tableau.group ∧ s.coins = r.coins := by
  rw [Tableau.isSymplectic_iff] at ht hu
  have start : (Simulation.mk t coins).Alike ⟨u, coins⟩ := ⟨ht, hu, same, rfl⟩
  refine ⟨start.replies circuit, fun k => ?_⟩
  have alike := start.runAll (circuit.take k)
  exact ⟨alike.group, alike.coins⟩

/-- An entangled pair, once by `XX` and `ZZ`, once by `-YY` and `ZZ`. -/
theorem replies_eq_of_group_eq_bell :
    let t := ((Tableau.basis 2 0 (by decide)).apply (.h 0)).apply (.cnot 0 1)
    let u := ((t.multiply (Tableau.stabIndex 0) (Tableau.stabIndex 1)).multiply
      (Tableau.destabIndex 1) (Tableau.destabIndex 0)).negate (Tableau.destabIndex 0)
    let coins := Coins.fresh fun _ => 0x80000000
    let circuit : List (CircuitStep 2) := [.gate (.s 1) (by decide), .measure 1, .measure 0]
    t.isSymplectic = true ∧ u.isSymplectic = true ∧ t.group = u.group ∧
    (Simulation.mk t coins).replies (circuit.map CircuitStep.update) =
        (Simulation.mk u coins).replies (circuit.map CircuitStep.update) ∧
      ∀ k,
        let s := (Simulation.mk t coins).runAll ((circuit.take k).map CircuitStep.update)
        let r := (Simulation.mk u coins).runAll ((circuit.take k).map CircuitStep.update)
        s.tableau.group = r.tableau.group ∧ s.coins = r.coins := by
  intro t u coins circuit
  have ht : t.isSymplectic = true := by decide
  have hu : u.isSymplectic = true := by decide
  have same : t.group = u.group := by
    rw [← Tableau.group_multiply ((Tableau.isSymplectic_iff t).1 ht) (a := 0) (b := 1) (by decide)]
    exact Tableau.group_eq_of_stabilizer_eq (by decide)
  exact ⟨ht, hu, same, replies_eq_of_group_eq ht hu same coins circuit⟩

end Simulation

end Stabilizer
