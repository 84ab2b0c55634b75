import Stabilizer.Proofs.Conjugation
/-!
# Multiplying rows of a tableau

Multiplying a row into another writes the product of the two operators, letter by letter.  Its sign is
exact when the rows commute, and minus when they do not: then the product is imaginary, and a row has no
phase to say so (`rowsum_exact`).

A gate is an automorphism of the Pauli group, so it may be applied before or after rows that commute are
multiplied, and signs agree (`rowsum_apply`).
-/

namespace Stabilizer

open PauliOperator

variable {n : Nat}

/-- A gate acts on a product of rows that commute factor by factor. -/
theorem Gate.onRow_mul {u : Gate (Fin n)} (hu : u.Distinct) {target source : Row n}
    (comm : target.exact.form source.exact = 0) :
    u.onRow (target.mul source) = (u.onRow target).mul (u.onRow source) := by
  have images : (u.onRow target).exact.form (u.onRow source).exact = 0 := by
    rw [exact_onRow hu, exact_onRow hu, form_conj hu, comm]
  apply Row.exact_injective
  calc (u.onRow (target.mul source)).exact
      = u.conj (source.exact * target.exact) := by rw [exact_onRow hu, Row.exact_mul comm]
    _ = (u.onRow source).exact * (u.onRow target).exact := by
        rw [conj_mul hu, exact_onRow hu, exact_onRow hu]
    _ = ((u.onRow target).mul (u.onRow source)).exact := (Row.exact_mul images).symm

namespace Tableau

/-- A tableau is its rows and its scratch row. -/
theorem ext_row {t u : Tableau n} (row : ∀ i, t.row i = u.row i) (scratch : t.scratch = u.scratch) :
    t = u := by
  have rows : t.rows = u.rows := beq_iff_rows_eq.1 (beq_iff_row_eq.2 row)
  cases t
  cases u
  simp_all

theorem rowsum_val (t : Tableau n) (i j : Fin (2 * n)) : t.rowsum i j = .ok (t.multiply i j) := by
  rw [rowsum, rowIndex_fin, rowIndex_fin]
  rfl

/-- Other rows than the target stay, and an index that is out of range stays so. -/
theorem readRow_multiply_of_ne (t : Tableau n) {i : Fin (2 * n)} (j : Fin (2 * n)) {k : Nat}
    (hk : k ≠ i) : (t.multiply i j).readRow k = t.readRow k := by
  by_cases range : k < 2 * n
  · lift k to Fin (2 * n) using range
    rw [readRow_val, readRow_val, row_multiply, if_neg fun same => hk (congrArg Fin.val same)]
  · rw [readRow, readRow, rowIndex, dif_neg range]
    rfl

/-- **Multiplying rows is exact.**  The target gets the letters of the product.  If the two rows
commute it becomes their product, which is the same in either order and real; if not, it gets a minus
sign.  No other row changes, and the two rows may be the same. -/
theorem rowsum_exact (t : Tableau n) (i j : Fin (2 * n)) :
    ∃ u a b c, t.rowsum i j = .ok u ∧ t.readRow i = .ok a ∧ t.readRow j = .ok b ∧
      u.readRow i = .ok c ∧
      (c.exact n).letters = (a.exact n * b.exact n).letters ∧
      (Commute (a.exact n) (b.exact n) →
        c.exact n = a.exact n * b.exact n ∧ c.exact n = b.exact n * a.exact n) ∧
      (¬ Commute (a.exact n) (b.exact n) → c.sign = .minus) ∧
      ∀ k : Nat, k ≠ i → u.readRow k = t.readRow k := by
  have product : (t.multiply i j).row i = (t.row i).mul (t.row j) := by rw [row_multiply, if_pos rfl]
  refine ⟨_, _, _, _, t.rowsum_val i j, t.readRow_val i, t.readRow_val j, readRow_val _ i, ?_, ?_, ?_,
    fun k => t.readRow_multiply_of_ne j⟩
  · rw [product, Row.exact_toPauli, Row.exact_toPauli, Row.exact_toPauli, Row.letters_exact_mul]
    exact funext fun k => Pauli.times_comm _ _
  · intro comm
    rw [Row.exact_toPauli, Row.exact_toPauli] at comm ⊢
    rw [product, Row.exact_toPauli, Row.exact_mul (commute_iff_form_eq_zero.1 comm)]
    exact ⟨comm.eq.symm, rfl⟩
  · intro anti
    rw [Row.exact_toPauli, Row.exact_toPauli, commute_iff_form_eq_zero, ← ne_eq, zmod2_ne_zero] at anti
    rw [product, Row.toPauli, Row.minus_mul_of_anticommute anti]
    rfl

/-- **Gates are exact automorphisms.**  Two rows commute after a gate exactly when they did before, and
for rows that commute the gate may come before their product or after it, with the same tableau. -/
theorem rowsum_apply {u : Gate (Fin n)} (hu : u.Distinct) (t : Tableau n) (i j : Fin (2 * n)) :
    ∃ a b a' b', t.readRow i = .ok a ∧ t.readRow j = .ok b ∧
      (t.apply u).readRow i = .ok a' ∧ (t.apply u).readRow j = .ok b' ∧
      a'.commutesWith b' = a.commutesWith b ∧
      (a.commutesWith b = true →
        ∃ v, t.rowsum i j = .ok v ∧ (t.apply u).rowsum i j = .ok (v.apply u)) := by
  refine ⟨_, _, _, _, t.readRow_val i, t.readRow_val j, readRow_val _ i, readRow_val _ j, ?_, ?_⟩
  · rw [Bool.eq_iff_iff, Row.commutesWith_toPauli, Row.commutesWith_toPauli, form_apply hu]
  · intro comm
    rw [Row.commutesWith_toPauli] at comm
    refine ⟨_, t.rowsum_val i j, ?_⟩
    rw [rowsum_val, Except.ok.injEq]
    refine ext_row (fun k => ?_) rfl
    rw [row_multiply, row_apply, row_apply, row_apply, row_apply, row_multiply]
    split
    · exact (Gate.onRow_mul hu comm).symm
    · rfl

/-- The stabilizers `XX` and `ZZ` of an entangled pair, whose product is `-YY`, before and after a phase
gate. -/
theorem rowsum_apply_bell :
    let t := ((basis 2 0 (by decide)).apply (.h 0)).apply (.cnot 0 1)
    let u : Gate (Fin 2) := .s 1
    u.Distinct ∧ ∃ a b a' b', t.readRow 2 = .ok a ∧ t.readRow 3 = .ok b ∧
      (t.apply u).readRow 2 = .ok a' ∧ (t.apply u).readRow 3 = .ok b' ∧
      a'.commutesWith b' = a.commutesWith b ∧ a.commutesWith b = true ∧
      ∃ v, t.rowsum 2 3 = .ok v ∧ (t.apply u).rowsum 2 3 = .ok (v.apply u) := by
  intro t u
  have distinct : u.Distinct := by decide
  obtain ⟨a, b, a', b', ha, hb, ha', hb', same, product⟩ :=
    rowsum_apply distinct t (stabIndex 0) (stabIndex 1)
  have comm : a.commutesWith b = true := by
    rw [readRow_val, Except.ok.injEq] at ha hb
    rw [← ha, ← hb]
    decide
  exact ⟨distinct, a, b, a', b', ha, hb, ha', hb', same, comm, product comm⟩

end Tableau

end Stabilizer
