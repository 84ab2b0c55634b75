import Stabilizer.Proofs.Commutation
import Stabilizer.Proofs.RowWrites
/-!
# Multiplying many rows into one

A row that accumulates factors is written over at every step, while the rows it takes the factors from
stay.  So many multiplications into one row are one store, of the product of its old content with all the
factors (`multiplyAll_eq_put`), whether or not the rows commute.

When they do, the row commutes with the factors that are still to come, no phase is lost on the way, and
the product is exact.  Then the order of the factors makes no difference (`rowsumAll_perm`).

The same factor twice restores the letters, for every letter is its own inverse.  The sign comes back only
if the two rows commute: the product of rows that do not is imaginary, each of the two steps writes a minus
sign for it, and what the sign was before is forgotten (`rowsum_rowsum`).
-/

namespace Stabilizer

open PauliOperator

variable {n : Nat}

namespace Row

/-! ## Products of many rows -/

/-- The product of a row with rows that commute with it and with each other is exact. -/
theorem exact_foldl_mul {a : Row n} {factors : List (Row n)}
    (comm : (a :: factors).Pairwise fun b c => b.exact.form c.exact = 0) :
    (factors.foldl mul a).exact = a.exact * (factors.map exact).prod := by
  induction factors generalizing a with
  | nil => exact (mul_one _).symm
  | cons b factors ih =>
    rw [List.pairwise_cons, List.pairwise_cons] at comm
    obtain ⟨ha, hb, rest⟩ := comm
    have here : a.exact.form b.exact = 0 := ha b List.mem_cons_self
    have later : ((a.mul b) :: factors).Pairwise fun b c => b.exact.form c.exact = 0 := by
      refine List.pairwise_cons.2 ⟨fun c hc => ?_, rest⟩
      rw [mul_exact_form, ha c (List.mem_cons_of_mem b hc), hb c hc, add_zero]
    calc ((b :: factors).foldl mul a).exact
        = (a.mul b).exact * (factors.map exact).prod := ih later
      _ = b.exact * a.exact * (factors.map exact).prod := by rw [exact_mul here]
      _ = a.exact * ((b :: factors).map exact).prod := by
        rw [← (commute_iff_form_eq_zero.2 here).eq, List.map_cons, List.prod_cons, mul_assoc]

/-- So the factors may come in any order. -/
theorem foldl_mul_perm {a : Row n} {factors others : List (Row n)}
    (comm : (a :: factors).Pairwise fun b c => b.exact.form c.exact = 0) (perm : factors.Perm others) :
    others.foldl mul a = factors.foldl mul a := by
  have comm' : (a :: others).Pairwise fun b c => b.exact.form c.exact = 0 :=
    ((perm.cons a).pairwise_iff fun {b c} comm => (form_comm c.exact b.exact).trans comm).1 comm
  have product : (factors.map exact).prod = (others.map exact).prod := by
    refine (perm.map exact).prod_eq' ?_
    rw [List.pairwise_map]
    exact (List.pairwise_cons.1 comm).2.imp commute_iff_form_eq_zero.2
  apply exact_injective
  rw [exact_foldl_mul comm, exact_foldl_mul comm', product]

/-- A factor that commutes with a row cancels when it comes again. -/
theorem mul_mul_of_commute {a b : Row n} (comm : a.exact.form b.exact = 0) : (a.mul b).mul b = a := by
  have again : (a.mul b).exact.form b.exact = 0 := by rw [mul_exact_form, comm, form_self, add_zero]
  apply exact_injective
  rw [exact_mul again, exact_mul comm, ← mul_assoc, exact_mul_self, one_mul]

/-- A factor that does not commute with it cancels as well, but leaves a minus sign. -/
theorem mul_mul_of_anticommute {a b : Row n} (anti : a.exact.form b.exact = 1) :
    (a.mul b).mul b = { a with minus := true } := by
  have again : (a.mul b).exact.form b.exact = 1 := by rw [mul_exact_form, anti, form_self, add_zero]
  ext k hk
  · exact minus_mul_of_anticommute again
  · simp
  · simp

end Row

namespace Tableau

/-! ## Factors one after the other -/

/-- Multiplies rows into row `target`, one after the other. -/
def rowsumAll (t : Tableau n) (target : Fin (2 * n)) (sources : List (Fin (2 * n))) :
    Except Error (Tableau n) :=
  sources.foldlM (fun t (source : Fin (2 * n)) => t.rowsum target source) t

def multiplyAll (t : Tableau n) (target : Fin (2 * n)) (sources : List (Fin (2 * n))) : Tableau n :=
  sources.foldl (fun t source => t.multiply target source) t

theorem rowsumAll_eq (t : Tableau n) (i : Fin (2 * n)) (js : List (Fin (2 * n))) :
    t.rowsumAll i js = .ok (t.multiplyAll i js) := by
  induction js generalizing t with
  | nil => rfl
  | cons j js ih =>
    rw [rowsumAll, List.foldlM_cons, rowsum_val]
    exact ih (t.multiply i j)

theorem put_row (t : Tableau n) (i : Fin (2 * n)) : t.put i (t.row i) = t := by
  refine ext_row (fun k => ?_) rfl
  rw [row_put]
  split
  · next same => rw [same]
  · rfl

theorem put_put (t : Tableau n) (i : Fin (2 * n)) (a b : Row n) : (t.put i a).put i b = t.put i b := by
  refine ext_row (fun k => ?_) rfl
  rw [row_put, row_put, row_put]
  split <;> rfl

/-- Many multiplications into a row are one store. -/
theorem multiplyAll_eq_put {t : Tableau n} {i : Fin (2 * n)} {js : List (Fin (2 * n))} (absent : i ∉ js) :
    t.multiplyAll i js = t.put i ((js.map t.row).foldl Row.mul (t.row i)) := by
  induction js generalizing t with
  | nil => exact (t.put_row i).symm
  | cons j js ih =>
    obtain ⟨-, later⟩ := not_or.1 (mt List.mem_cons.2 absent)
    have target : (t.multiply i j).row i = (t.row i).mul (t.row j) := by rw [row_multiply, if_pos rfl]
    have sources : js.map (t.multiply i j).row = js.map t.row :=
      List.map_congr_left fun k hk => by rw [row_multiply, if_neg fun same : k = i => later (same ▸ hk)]
    calc t.multiplyAll i (j :: js)
        = (t.multiply i j).put i ((js.map t.row).foldl Row.mul ((t.row i).mul (t.row j))) := by
          rw [← target, ← sources]
          exact ih later
      _ = t.put i (((j :: js).map t.row).foldl Row.mul (t.row i)) := t.put_put i _ _

/-- **The order of factors that commute does not matter.**  Rows that commute with each other, in any order
and however often each of them comes, make the same tableau of the one they are multiplied into.  This row
is then the exact product of what it was with all of them, and no other row has changed. -/
theorem rowsumAll_perm {t : Tableau n} {i : Fin (2 * n)} {js ks : List (Fin (2 * n))} (absent : i ∉ js)
    (comm : (i :: js).Pairwise fun j k => (t.entries j).commutesWith (t.entries k) = true)
    (perm : js.Perm ks) :
    ∃ u, t.rowsumAll i js = .ok u ∧ t.rowsumAll i ks = .ok u ∧
      (u.entries i).exact n = (t.entries i).exact n * (js.map fun j => (t.entries j).exact n).prod ∧
      ∀ k, k ≠ i → u.entries k = t.entries k := by
  have rows : (t.row i :: js.map t.row).Pairwise fun b c => b.exact.form c.exact = 0 := by
    rw [← List.map_cons, List.pairwise_map]
    exact comm.imp (Row.commutesWith_toPauli _ _).1
  have absent' : i ∉ ks := mt perm.mem_iff.2 absent
  refine ⟨_, t.rowsumAll_eq i js, ?_, ?_, ?_⟩
  · rw [rowsumAll_eq, multiplyAll_eq_put absent, multiplyAll_eq_put absent',
      Row.foldl_mul_perm rows (perm.map t.row)]
  · simp only [entries, Row.exact_toPauli]
    rw [multiplyAll_eq_put absent, row_put, if_pos rfl, Row.exact_foldl_mul rows, List.map_map]
    rfl
  · intro k hk
    rw [entries, multiplyAll_eq_put absent, row_put, if_neg hk, entries]

/-- Row 3 of three entangled qubits, `XXX`, is multiplied by `ZZI`, by `IZZ` and again by `ZZI`. -/
theorem rowsumAll_perm_entangled :
    let t := (((basis 3 1 (by decide)).apply (.h 0)).apply (.cnot 0 1)).apply (.cnot 1 2)
    let i : Fin 6 := 3
    let js : List (Fin 6) := [4, 5, 4]
    let ks : List (Fin 6) := [4, 4, 5]
    i ∉ js ∧ (i :: js).Pairwise (fun j k => (t.entries j).commutesWith (t.entries k) = true) ∧
      js.Perm ks ∧
      ∃ u, t.rowsumAll i js = .ok u ∧ t.rowsumAll i ks = .ok u ∧
        (u.entries i).exact 3 = (t.entries i).exact 3 * (js.map fun j => (t.entries j).exact 3).prod ∧
        ∀ k, k ≠ i → u.entries k = t.entries k := by
  intro t i js ks
  have absent : i ∉ js := by decide
  have comm : (i :: js).Pairwise fun j k => (t.entries j).commutesWith (t.entries k) = true := by decide
  have perm : js.Perm ks := by decide
  exact ⟨absent, comm, perm, rowsumAll_perm absent comm perm⟩

/-! ## The same factor twice -/

theorem bits_putSign (t : Tableau n) (i k : Fin (2 * n)) (minus : Bool) :
    ((t.putSign i minus).row k).x = (t.row k).x ∧ ((t.putSign i minus).row k).z = (t.row k).z := by
  rw [row_putSign]
  split
  · next same =>
    rw [same]
    exact ⟨rfl, rfl⟩
  · exact ⟨rfl, rfl⟩

/-- A sign is no part of the two matrices. -/
theorem parts_putSign (t : Tableau n) (i : Fin (2 * n)) (minus : Bool) :
    (t.putSign i minus).xParts = t.xParts ∧ (t.putSign i minus).zParts = t.zParts := by
  rw [xParts_eq, xParts_eq, zParts_eq, zParts_eq]
  exact ⟨List.map_congr_left fun k _ => congrArg Vector.toList (t.bits_putSign i k minus).1,
    List.map_congr_left fun k _ => congrArg Vector.toList (t.bits_putSign i k minus).2⟩

theorem signs_putSign (t : Tableau n) (i : Fin (2 * n)) (minus : Bool) :
    (t.putSign i minus).signs = t.signs.set i minus := by
  rw [signs, putSign, put, Vector.toList_set, List.map_set, signs]

theorem putSign_beq_iff (t : Tableau n) (i : Fin (2 * n)) (minus : Bool) :
    (t.putSign i minus == t) = true ↔ (t.entries i).sign = .ofBit minus := by
  have sign : (t.entries i).sign = .ofBit minus ↔ (t.row i).minus = minus := by
    show Sign.ofBit (t.row i).minus = .ofBit minus ↔ (t.row i).minus = minus
    cases (t.row i).minus <;> cases minus <;> decide
  rw [sign, beq_iff_row_eq]
  constructor
  · intro same
    have row := same i
    rw [row_putSign, if_pos rfl] at row
    exact (congrArg Row.minus row).symm
  · rintro rfl k
    exact congrArg (row · k) (t.put_row i)

/-- Multiplying by another row twice changes a sign at most: it becomes minus if the rows anticommute. -/
theorem multiply_multiply (t : Tableau n) {i j : Fin (2 * n)} (apart : i ≠ j) :
    ((t.row i).exact.form (t.row j).exact = 0 → (t.multiply i j).multiply i j = t) ∧
      ((t.row i).exact.form (t.row j).exact = 1 →
        (t.multiply i j).multiply i j = t.putSign i true) := by
  have absent : i ∉ [j, j] := by simpa using apart
  have twice : (t.multiply i j).multiply i j = t.put i (((t.row i).mul (t.row j)).mul (t.row j)) :=
    (multiplyAll_eq_put absent :)
  rw [twice]
  constructor
  · intro comm
    rw [Row.mul_mul_of_commute comm, put_row]
  · intro anti
    rw [Row.mul_mul_of_anticommute anti, putSign]

/-- **A factor that comes twice cancels, but for a sign.**  Multiplying by another row twice leaves both
matrices as they were, and the signs of all other rows.  If the two rows commute the tableau is restored.
If they anticommute the sign ends as minus, whatever it was, so the tableau is restored only if it was
minus before. -/
theorem rowsum_rowsum (t : Tableau n) {i j : Fin (2 * n)} (apart : i ≠ j) :
    ∃ u v, t.rowsum i j = .ok u ∧ u.rowsum i j = .ok v ∧
      v.xParts = t.xParts ∧ v.zParts = t.zParts ∧
      (∀ k : Nat, k ≠ i → v.signs[k]? = t.signs[k]?) ∧
      ((t.entries i).commutesWith (t.entries j) = true → v = t) ∧
      ((t.entries i).commutesWith (t.entries j) = false → (v.entries i).sign = .minus) ∧
      ((v == t) = true ↔
        (t.entries i).commutesWith (t.entries j) = true ∨ (t.entries i).sign = .minus) := by
  refine ⟨_, _, t.rowsum_val i j, rowsum_val _ i j, ?_⟩
  obtain ⟨commuting, anticommuting⟩ := t.multiply_multiply apart
  cases comm : (t.entries i).commutesWith (t.entries j) with
  | true =>
    rw [commuting ((Row.commutesWith_toPauli _ _).1 comm)]
    exact ⟨rfl, rfl, fun _ _ => rfl, fun _ => rfl, fun anti => absurd anti (by decide),
      fun _ => .inl rfl, fun _ => beq_iff_rows_eq.2 rfl⟩
  | false =>
    rw [anticommuting ((Row.commutesWith_toPauli_eq_false _ _).1 comm)]
    have sign : ((t.putSign i true).entries i).sign = .minus := by
      rw [entries, row_putSign, if_pos rfl]
      rfl
    obtain ⟨xParts, zParts⟩ := t.parts_putSign i true
    refine ⟨xParts, zParts, fun k hk => ?_, by simp, fun _ => sign, ?_⟩
    · rw [signs_putSign, List.getElem?_set_ne hk.symm]
    · rw [putSign_beq_iff, Sign.ofBit, if_pos rfl]
      simp

/-- `X` and `Z` on one qubit: `X` becomes `-Y` and then `-X`, and the tableau is another. -/
theorem rowsum_rowsum_anticommute :
    let t := basis 1 0 (by decide)
    let i : Fin 2 := 0
    let j : Fin 2 := 1
    i ≠ j ∧ ∃ u v, t.rowsum i j = .ok u ∧ u.rowsum i j = .ok v ∧
      v.xParts = t.xParts ∧ v.zParts = t.zParts ∧ (v.entries i).sign = .minus ∧ (v == t) = false := by
  intro t i j
  have apart : i ≠ j := by decide
  have anti : (t.entries i).commutesWith (t.entries j) = false := by decide
  obtain ⟨u, v, first, second, xParts, zParts, -, -, sign, restored⟩ := rowsum_rowsum t apart
  refine ⟨apart, u, v, first, second, xParts, zParts, sign anti, ?_⟩
  rw [← Bool.not_eq_true, restored]
  decide

end Tableau

end Stabilizer
