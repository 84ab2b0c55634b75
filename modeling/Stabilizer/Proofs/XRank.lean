import Mathlib.LinearAlgebra.Matrix.Rank
import Stabilizer.Proofs.Collapse
import Stabilizer.Proofs.MeasureEach
/-!
# The number of random outcomes

The X parts of the stabilizers form a matrix of bits, and only these decide whether an outcome is
random.  A random outcome adds the row of the pivot to the rows that have an X part at the qubit, its
own among them: the row space loses the direction of the pivot and no other, so the rank goes down by
one.  A determined outcome changes no row.  A column that is empty stays empty, and the column of the
measured qubit is empty afterwards.

So when all qubits were measured no X part is left, and there were as many random outcomes as the rank
was.  Neither signs nor the symplectic condition matter for this.
-/

namespace Stabilizer

variable {n : Nat}

theorem Row.mod2_x_cleared (a pivot : Row n) (q k : Fin n) :
    mod2 ((a.cleared q pivot).x.get k) =
      mod2 (a.x.get k) + mod2 (a.x.get q) * mod2 (pivot.x.get k) := by
  have forms := a.cleared_form pivot q (PauliOperator.signedZ false k)
  simpa only [PauliOperator.form_signedZ, Row.letters_exact, Row.xBit_letter] using forms

namespace Tableau

/-! ## The matrix of X parts -/

/-- The X parts of the stabilizers, over the numbers modulo 2. -/
def xMatrix (t : Tableau n) : Matrix (Fin n) (Fin n) (ZMod 2) :=
  Matrix.of fun i k => mod2 ((t.stabilizer i).x.get k)

/-- A random outcome adds the row of the pivot to every row that has an X part at the qubit. -/
theorem row_xMatrix_collapse {t : Tableau n} {q p : Fin n} (hp : (t.stabilizer p).x.get q = true)
    (bit : Bool) (i : Fin n) :
    (t.collapse q p bit).xMatrix.row i = t.xMatrix.row i + t.xMatrix i q • t.xMatrix.row p := by
  funext k
  simp only [Matrix.row_apply, Pi.add_apply, Pi.smul_apply, smul_eq_mul, xMatrix, Matrix.of_apply,
    stabilizer_collapse]
  by_cases hi : i = p
  · subst hi
    rw [if_pos rfl, hp, mod2_true, one_mul, CharTwo.add_self_eq_zero]
    simp [Row.singleZ]
  · rw [if_neg hi, Row.mod2_x_cleared]

/-- The row space is that after the measurement, and the row of the pivot. -/
theorem span_row_xMatrix {t : Tableau n} {q p : Fin n} (hp : (t.stabilizer p).x.get q = true)
    (bit : Bool) :
    Submodule.span (ZMod 2) (Set.range t.xMatrix.row) =
      Submodule.span (ZMod 2) (Set.range (t.collapse q p bit).xMatrix.row) ⊔
        Submodule.span (ZMod 2) {t.xMatrix.row p} := by
  apply le_antisymm
  · rw [Submodule.span_le]
    rintro _ ⟨i, rfl⟩
    have undone : t.xMatrix.row i =
        (t.collapse q p bit).xMatrix.row i - t.xMatrix i q • t.xMatrix.row p :=
      eq_sub_of_add_eq (row_xMatrix_collapse hp bit i).symm
    rw [undone]
    refine Submodule.sub_mem _ (Submodule.mem_sup_left ?_) (Submodule.mem_sup_right ?_)
    · exact Submodule.subset_span ⟨i, rfl⟩
    · exact Submodule.smul_mem _ _ (Submodule.mem_span_singleton_self _)
  · have pivot : t.xMatrix.row p ∈ Submodule.span (ZMod 2) (Set.range t.xMatrix.row) :=
      Submodule.subset_span ⟨p, rfl⟩
    rw [sup_le_iff, Submodule.span_le, Submodule.span_singleton_le_iff_mem]
    refine ⟨?_, pivot⟩
    rintro _ ⟨i, rfl⟩
    rw [row_xMatrix_collapse hp]
    exact Submodule.add_mem _ (Submodule.subset_span ⟨i, rfl⟩) (Submodule.smul_mem _ _ pivot)

/-- The pivot is not in the row space after the measurement: there all rows are 0 at the qubit. -/
theorem span_row_xMatrix_collapse_inf {t : Tableau n} {q p : Fin n}
    (hp : (t.stabilizer p).x.get q = true) (bit : Bool) :
    Submodule.span (ZMod 2) (Set.range (t.collapse q p bit).xMatrix.row) ⊓
      Submodule.span (ZMod 2) {t.xMatrix.row p} = ⊥ := by
  have pivot : t.xMatrix p q = 1 := mod2_eq_one.2 hp
  have empty : Submodule.span (ZMod 2) (Set.range (t.collapse q p bit).xMatrix.row) ≤
      LinearMap.ker (LinearMap.proj q) := by
    rw [Submodule.span_le]
    rintro _ ⟨i, rfl⟩
    rw [row_xMatrix_collapse hp]
    simp [pivot, CharTwo.add_self_eq_zero]
  rw [Submodule.eq_bot_iff]
  rintro v ⟨new, multiple⟩
  obtain ⟨c, rfl⟩ := Submodule.mem_span_singleton.1 multiple
  have zero := empty new
  simp only [LinearMap.mem_ker, LinearMap.proj_apply, Pi.smul_apply, Matrix.row_apply, pivot,
    smul_eq_mul, mul_one] at zero
  rw [zero, zero_smul]

/-- **A random outcome lowers the rank by one.** -/
theorem rank_xMatrix_collapse {t : Tableau n} {q p : Fin n} (hp : (t.stabilizer p).x.get q = true)
    (bit : Bool) : t.xMatrix.rank = 1 + (t.collapse q p bit).xMatrix.rank := by
  have nonzero : t.xMatrix.row p ≠ 0 := by
    intro zero
    have entry : t.xMatrix p q = 0 := congrFun zero q
    rw [xMatrix, Matrix.of_apply, hp] at entry
    exact absurd entry (by decide)
  have dimensions := Submodule.finrank_sup_add_finrank_inf_eq
    (Submodule.span (ZMod 2) (Set.range (t.collapse q p bit).xMatrix.row))
    (Submodule.span (ZMod 2) {t.xMatrix.row p})
  rw [← span_row_xMatrix hp, span_row_xMatrix_collapse_inf hp, finrank_bot, add_zero,
    finrank_span_singleton nonzero, ← Matrix.rank_eq_finrank_span_row,
    ← Matrix.rank_eq_finrank_span_row] at dimensions
  rw [dimensions, add_comm]

/-- Without X parts there is no rank. -/
theorem rank_xMatrix_eq_zero {t : Tableau n} (empty : ∀ k, t.pivot? k = none) :
    t.xMatrix.rank = 0 := by
  have zero : t.xMatrix = 0 := by
    ext i k
    rw [xMatrix, Matrix.of_apply, pivot?_eq_none.1 (empty k) i]
    rfl
  rw [zero, Matrix.rank_zero]

/-! ## Measurements -/

/-- After a random outcome the column of the qubit is empty, and so is what was empty. -/
theorem pivot?_collapse {t : Tableau n} {q p : Fin n} (hp : (t.stabilizer p).x.get q = true)
    (bit : Bool) {k : Fin n} (hk : k = q ∨ t.pivot? k = none) :
    (t.collapse q p bit).pivot? k = none := by
  rw [pivot?_eq_none]
  intro i
  rw [stabilizer_collapse]
  split
  · simp [Row.singleZ]
  · rcases hk with rfl | hk
    · exact Row.x_cleared hp
    · rw [← mod2_eq_zero, Row.mod2_x_cleared, pivot?_eq_none.1 hk, pivot?_eq_none.1 hk, mod2_false,
        mul_zero, add_zero]

/-- One measurement. -/
theorem exists_measure_rank (t : Tableau n) (q : Fin n) (coins : Coins) :
    ∃ outcome after, t.measure q coins = .ok (outcome, after, coins.after outcome) ∧
      t.xMatrix.rank = draws [outcome] + after.xMatrix.rank ∧
      ∀ k, k = q ∨ t.pivot? k = none → after.pivot? k = none := by
  rcases hp : t.pivot? q with _ | p
  · refine ⟨_, _, measure_of_none hp coins, (zero_add _).symm, ?_⟩
    rintro k (rfl | hk)
    · exact hp
    · exact hk
  · exact ⟨_, _, measure_of_some hp coins, rank_xMatrix_collapse (x_of_pivot? hp) _,
      fun k hk => pivot?_collapse (x_of_pivot? hp) _ hk⟩

/-- Several measurements. -/
theorem exists_measureEach_rank (t : Tableau n) (coins : Coins) (qubits : List (Fin n)) :
    ∃ outcomes after,
      t.measureEach coins qubits =
        .ok (outcomes, after, ⟨coins.tape, coins.drawn + draws outcomes⟩) ∧
      t.xMatrix.rank = draws outcomes + after.xMatrix.rank ∧
      ∀ k, k ∈ qubits ∨ t.pivot? k = none → after.pivot? k = none := by
  induction qubits generalizing t coins with
  | nil => exact ⟨[], t, rfl, (zero_add _).symm, fun k hk => hk.resolve_left List.not_mem_nil⟩
  | cons q qubits ih =>
    obtain ⟨outcome, between, first, rank, empty⟩ := t.exists_measure_rank q coins
    obtain ⟨outcomes, after, others, rank', empty'⟩ := ih between (coins.after outcome)
    refine ⟨outcome :: outcomes, after, ?_, ?_, fun k hk => ?_⟩
    · rw [measureEach_cons first others, draws_cons outcome outcomes, Coins.after_eq, Nat.add_assoc]
    · rw [rank, rank', draws_cons outcome outcomes, Nat.add_assoc]
    · rw [List.mem_cons, or_assoc, or_left_comm] at hk
      exact empty' k (hk.imp_right (empty k))

/-- **As many outcomes are random as the rank of the X parts is**, in whatever order all qubits are
measured and whatever coins are drawn; and then every qubit is determined and no stabilizer has an X
part. -/
theorem draws_measureEach_eq_rank (t : Tableau n) {qubits : List (Fin n)} (all : ∀ q, q ∈ qubits)
    (coins : Coins) :
    ∃ outcomes after,
      t.measureEach coins qubits =
        .ok (outcomes, after, ⟨coins.tape, coins.drawn + t.xMatrix.rank⟩) ∧
      draws outcomes = t.xMatrix.rank ∧
      (∀ q : Fin n, after.isDeterministic q = .ok true) ∧
      ∀ i q, (after.stabilizer i).x.get q = false := by
  obtain ⟨outcomes, after, measured, rank, empty⟩ := t.exists_measureEach_rank coins qubits
  have allEmpty (q : Fin n) : after.pivot? q = none := empty q (.inl (all q))
  rw [rank_xMatrix_eq_zero allEmpty, add_zero] at rank
  refine ⟨outcomes, after, rank ▸ measured, rank.symm, fun q => ?_, fun i q => ?_⟩
  · rw [isDeterministic_eq, allEmpty q]
    rfl
  · exact pivot?_eq_none.1 (allEmpty q) i

/-- An entangled pair beside a qubit of its own, from the last qubit to the first. -/
theorem draws_measureEach_eq_rank_bell :
    let t := (((basis 3 0 (by decide)).apply (.h 0)).apply (.cnot 0 1)).apply (.h 2)
    let coins := Coins.fresh fun _ => 0x80000000
    (∀ q, q ∈ [(2 : Fin 3), 1, 0]) ∧
    ∃ outcomes after,
      t.measureEach coins [2, 1, 0] =
        .ok (outcomes, after, ⟨coins.tape, coins.drawn + t.xMatrix.rank⟩) ∧
      draws outcomes = t.xMatrix.rank ∧
      (∀ q : Fin 3, after.isDeterministic q = .ok true) ∧
      ∀ i q, (after.stabilizer i).x.get q = false :=
  ⟨by decide, draws_measureEach_eq_rank _ (by decide) _⟩

end Tableau

end Stabilizer
