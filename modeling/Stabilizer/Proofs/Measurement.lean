import Mathlib.Data.List.FinRange
import Stabilizer.Tableau.Measure
/-!
# The rows after a measurement

A measurement looks for its pivot among the stabilizers.  If there is none, no row changes.  If there
is one, the loop that multiplies it into the other rows works in place, but no iteration changes the
pivot or looks at a row that an earlier one changed.  So the new rows are determined by the old ones:
`stabilizer_collapse` and `destabilizer_collapse` give them.
-/

namespace Stabilizer

variable {n : Nat}

namespace Tableau

/-! ## The pivot -/

theorem pivot?_eq_none {t : Tableau n} {q : Fin n} :
    t.pivot? q = none ↔ ∀ i, (t.stabilizer i).x.get q = false := by
  simp [pivot?]

/-- The pivot has an X part at the qubit. -/
theorem x_of_pivot? {t : Tableau n} {q p : Fin n} (h : t.pivot? q = some p) :
    (t.stabilizer p).x.get q = true := by
  simpa using List.find?_some h

/-! ## Measuring a qubit -/

theorem isDeterministic_eq (t : Tableau n) (q : Fin n) :
    t.isDeterministic q = .ok (t.pivot? q).isNone := by
  simp [isDeterministic, qubitIndex]

/-- Without a pivot, the outcome is the sign of the determined product. -/
theorem measure_of_none {t : Tableau n} {q : Fin n} (h : t.pivot? q = none) (coins : Coins) :
    t.measure q coins =
      .ok (.deterministic (t.determined q).minus, { t with scratch := t.determined q }, coins) := by
  simp [measure, qubitIndex, measureAt, h, Outcome.isDeterministic]

/-- With a pivot, the outcome is the next coin. -/
theorem measure_of_some {t : Tableau n} {q p : Fin n} (h : t.pivot? q = some p) (coins : Coins) :
    t.measure q coins =
      .ok (.random coins.next, t.collapse q p coins.next, coins.advance) := by
  simp [measure, qubitIndex, measureAt, h, Outcome.isDeterministic]

/-- What is no qubit is not measured. -/
theorem measure_of_le {t : Tableau n} {q : Nat} (h : n ≤ q) (coins : Coins) :
    t.measure q coins = .error (.qubitOutOfBounds q n) := by
  simp [measure, qubitIndex, Nat.not_lt.2 h]

end Tableau

/-! ## The elimination loop -/

/-- A row, multiplied by the pivot if it has an X part at the qubit. -/
def Row.cleared (a : Row n) (q : Fin n) (pivot : Row n) : Row n :=
  if a.x.get q then a.mul pivot else a

/-- A cleared row has no X part at the qubit. -/
theorem Row.x_cleared {a pivot : Row n} {q : Fin n} (h : pivot.x.get q = true) :
    (a.cleared q pivot).x.get q = false := by
  unfold Row.cleared
  split
  · rename_i ha
    have both : (a.x.get q ^^ pivot.x.get q) = false := by rw [ha, h]; rfl
    simpa using both
  · rename_i ha
    simpa using ha

namespace Tableau

/-- One iteration of the loop. -/
def eliminate (q : Fin n) (p : Fin (2 * n)) (t : Tableau n) (i : Fin (2 * n)) : Tableau n :=
  if i ≠ p ∧ (t.row i).x.get q = true then t.multiply i p else t

theorem clear_eq_foldl (t : Tableau n) (q : Fin n) (p : Fin (2 * n)) :
    t.clear q p = (List.finRange (2 * n)).foldl (eliminate q p) t := rfl

/-- One iteration clears one row, unless that is the pivot. -/
theorem row_eliminate (t : Tableau n) (q : Fin n) (p i k : Fin (2 * n)) :
    (eliminate q p t i).row k =
      if k = i ∧ k ≠ p then (t.row k).cleared q (t.row p) else t.row k := by
  unfold eliminate
  by_cases hi : i ≠ p ∧ (t.row i).x.get q = true
  · rw [if_pos hi, row_multiply]
    by_cases hk : k = i
    · subst hk
      rw [if_pos rfl, if_pos ⟨rfl, hi.1⟩, Row.cleared, if_pos hi.2]
    · rw [if_neg hk, if_neg fun h => hk h.1]
  · rw [if_neg hi]
    by_cases hk : k = i ∧ k ≠ p
    · obtain ⟨rfl, hkp⟩ := hk
      have unset : ¬ (t.row k).x.get q = true := fun h => hi ⟨hkp, h⟩
      rw [if_pos ⟨rfl, hkp⟩, Row.cleared, if_neg unset]
    · rw [if_neg hk]

/-- The iterations over a list of different rows clear all of these at once: the pivot stays, and a
row that comes up later is still the old one. -/
theorem row_foldl_eliminate (q : Fin n) (p : Fin (2 * n)) (l : List (Fin (2 * n))) (hl : l.Nodup)
    (t : Tableau n) (k : Fin (2 * n)) :
    (l.foldl (eliminate q p) t).row k =
      if k ∈ l ∧ k ≠ p then (t.row k).cleared q (t.row p) else t.row k := by
  induction l generalizing t with
  | nil => simp
  | cons i l ih =>
    obtain ⟨hi, hl⟩ := List.nodup_cons.1 hl
    have pivot : (eliminate q p t i).row p = t.row p := by simp [row_eliminate]
    rw [List.foldl_cons, ih hl, pivot, row_eliminate]
    by_cases hk : k = i
    · subst hk
      simp [hi]
    · simp [hk]

/-- The loop clears all rows but the pivot. -/
theorem row_clear (t : Tableau n) (q : Fin n) (p k : Fin (2 * n)) :
    (t.clear q p).row k = if k = p then t.row p else (t.row k).cleared q (t.row p) := by
  rw [clear_eq_foldl, row_foldl_eliminate q p _ (List.nodup_finRange _)]
  by_cases hk : k = p
  · simp [hk]
  · simp [hk]

/-! ## The new rows -/

theorem stabilizer_collapse (t : Tableau n) (q p : Fin n) (bit : Bool) (i : Fin n) :
    (t.collapse q p bit).stabilizer i =
      if i = p then Row.singleZ n bit q else (t.stabilizer i).cleared q (t.stabilizer p) := by
  rw [stabilizer, collapse, row_put, row_copy, if_neg (stabIndex_ne_destabIndex i p), row_clear]
  by_cases hi : i = p
  · rw [if_pos (stabIndex_inj.2 hi), if_pos hi]
  · rw [if_neg (mt stabIndex_inj.1 hi), if_neg (mt stabIndex_inj.1 hi), if_neg hi]
    rfl

theorem destabilizer_collapse (t : Tableau n) (q p : Fin n) (bit : Bool) (i : Fin n) :
    (t.collapse q p bit).destabilizer i =
      if i = p then t.stabilizer p else (t.destabilizer i).cleared q (t.stabilizer p) := by
  rw [destabilizer, collapse, row_put, if_neg (destabIndex_ne_stabIndex i p), row_copy]
  by_cases hi : i = p
  · rw [if_pos (destabIndex_inj.2 hi), if_pos hi, row_clear, if_pos rfl]
    rfl
  · rw [if_neg (mt destabIndex_inj.1 hi), if_neg hi, row_clear,
      if_neg (destabIndex_ne_stabIndex i p)]
    rfl

end Tableau

end Stabilizer
