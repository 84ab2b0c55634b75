import Stabilizer.Proofs.GroupMeasurement
import Stabilizer.Proofs.Run
/-!
# Outcomes stay

A qubit is certain to show a bit when measuring it would report the bit as determined.  Once it is
certain it stays so, whatever is measured afterwards, and a qubit that was just measured is certain to
show what it showed.

Later measurements multiply and replace the stabilizers that the bit was read off, so each of them
changes the product that the next measurement builds.  What stays is an element of the group: a qubit is
certain to show a bit exactly when `Z` on it, with the sign of the bit, is in the group (`certain_iff`).
Measurements keep this element, because it commutes with every `Z`.
-/

namespace Stabilizer

open PauliOperator

variable {n : Nat}

namespace Tableau

/-! ## Certain bits -/

/-- Measuring the qubit would report the bit as determined, and would draw nothing. -/
def Certain (t : Tableau n) (q : Fin n) (bit : Bool) : Prop :=
  ∀ coins, ∃ after, t.measure q coins = .ok (.deterministic bit, after, coins)

variable {t : Tableau n} {q : Fin n} {bit : Bool}

/-- A bit is reported as determined when there is no pivot, and it is the sign of the product. -/
theorem pivot?_of_measure {coins rest : Coins} {after : Tableau n}
    (h : t.measure q coins = .ok (.deterministic bit, after, rest)) :
    t.pivot? q = none ∧ bit = (t.determined q).minus := by
  rcases hq : t.pivot? q with _ | p
  · rw [measure_of_none hq] at h
    cases h
    exact ⟨rfl, rfl⟩
  · rw [measure_of_some hq] at h
    cases h

theorem certain_iff_pivot? :
    t.Certain q bit ↔ t.pivot? q = none ∧ bit = (t.determined q).minus := by
  constructor
  · intro h
    obtain ⟨after, measured⟩ := h (Coins.fresh fun _ => 0)
    exact pivot?_of_measure measured
  · rintro ⟨hq, rfl⟩ coins
    exact ⟨_, measure_of_none hq coins⟩

/-- Coins have no part in whether a bit is determined. -/
theorem certain_of_measure {coins rest : Coins} {after : Tableau n}
    (h : t.measure q coins = .ok (.deterministic bit, after, rest)) : t.Certain q bit :=
  certain_iff_pivot?.2 (pivot?_of_measure h)

/-- The certain bits of a sound tableau can be read off its group. -/
theorem certain_iff (ht : t.Symplectic) : t.Certain q bit ↔ signedZ bit q ∈ t.group :=
  certain_iff_pivot?.trans (signedZ_mem_group_iff ht).symm

end Tableau

/-! ## Measurements keep what is certain -/

namespace Simulation

variable {s : Simulation n} {q : Fin n} {bit : Bool}

/-- A measurement of any qubit keeps a `Z` that is in the group.  A number that is no qubit is not
measured. -/
theorem signedZ_mem_group_run (hs : s.tableau.Symplectic) (certain : signedZ bit q ∈ s.tableau.group)
    (r : Nat) :
    (s.run (.measure r)).2.tableau.Symplectic ∧
      signedZ bit q ∈ (s.run (.measure r)).2.tableau.group := by
  by_cases hr : r < n
  · lift r to Fin n using hr
    obtain ⟨outcome, after, measured, sound, -, group⟩ := Tableau.exists_measure hs r s.coins
    rw [run_measure_of_ok measured]
    refine ⟨sound, ?_⟩
    rw [group]
    exact mem_projected_of_mem certain (xBit_signedZ bit q r)
  · rw [run_measure_of_le (Nat.le_of_not_lt hr)]
    exact ⟨hs, certain⟩

theorem certain_runAll_measure (hs : s.tableau.Symplectic) (certain : s.tableau.Certain q bit)
    (qubits : List Nat) : (s.runAll (qubits.map .measure)).tableau.Certain q bit := by
  induction qubits generalizing s with
  | nil => exact certain
  | cons r qubits ih =>
    -- the measurement replaces factors of the product that shows the bit; the element of the group stays
    rw [Tableau.certain_iff hs] at certain
    obtain ⟨sound, kept⟩ := signedZ_mem_group_run hs certain r
    exact ih sound ((Tableau.certain_iff sound).2 kept)

end Simulation

namespace Tableau

/-- What a measurement has reported is certain. -/
theorem exists_measure_certain {t : Tableau n} (ht : t.Symplectic) (q : Fin n) (coins : Coins) :
    ∃ outcome after, t.measure q coins = .ok (outcome, after, coins.after outcome) ∧
      after.Symplectic ∧ after.Certain q outcome.bit := by
  obtain ⟨outcome, after, measured, sound, -, group⟩ := exists_measure ht q coins
  refine ⟨outcome, after, measured, sound, (certain_iff sound).2 ?_⟩
  rw [group]
  exact signedZ_mem_projected

/-- **Outcomes stay**: a bit that is determined, and a bit that was just reported, whether determined or
random, is certain after any measurements, of any qubits in any order and with any coins. -/
theorem certain_after_measurements {t : Tableau n} (ht : t.isSymplectic = true) (q : Fin n)
    (coins : Coins) (qubits : List Nat) :
    (∀ bit after rest, t.measure q coins = .ok (.deterministic bit, after, rest) →
        ∀ coins', ((Simulation.mk t coins').runAll (qubits.map .measure)).tableau.Certain q bit) ∧
      ∃ outcome after, t.measure q coins = .ok (outcome, after, coins.after outcome) ∧
        ∀ coins', ((Simulation.mk after coins').runAll (qubits.map .measure)).tableau.Certain q
          outcome.bit := by
  rw [isSymplectic_iff] at ht
  obtain ⟨outcome, after, measured, sound, certain⟩ := exists_measure_certain ht q coins
  refine ⟨fun bit _ _ determined coins' => ?_, outcome, after, measured, fun coins' => ?_⟩
  · have known : t.Certain q bit := certain_of_measure determined
    exact Simulation.certain_runAll_measure (s := ⟨t, coins'⟩) ht known qubits
  · exact Simulation.certain_runAll_measure (s := ⟨after, coins'⟩) sound certain qubits

/-- An entangled pair beside a qubit in state 1, which is determined from the beginning.  The pair is
measured once, among others. -/
theorem certain_after_measurements_bell :
    let t := ((basis 3 1 (by decide)).apply (.h 0)).apply (.cnot 0 1)
    let coins := Coins.fresh fun _ => 0x80000000
    let qubits := [1, 2, 7, 0, 1]
    t.isSymplectic = true ∧
      (∀ coins', ((Simulation.mk t coins').runAll (qubits.map .measure)).tableau.Certain 2 true) ∧
      ∃ outcome after, t.measure (0 : Fin 3) coins = .ok (outcome, after, coins.after outcome) ∧
        ∀ coins', ((Simulation.mk after coins').runAll (qubits.map .measure)).tableau.Certain 0
          outcome.bit := by
  intro t coins qubits
  have sound : t.isSymplectic = true := by decide
  have certain : t.Certain 2 true := certain_iff_pivot?.2 (by decide)
  obtain ⟨after, determined⟩ := certain coins
  exact ⟨sound, (certain_after_measurements sound 2 coins qubits).1 true _ _ determined,
    (certain_after_measurements sound 0 coins qubits).2⟩

end Tableau

end Stabilizer
