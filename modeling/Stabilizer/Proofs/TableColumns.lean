import Stabilizer.Proofs.GeneratorTable
import Stabilizer.Proofs.Symplectic
/-!
# The columns of the table

The title and the rule of the table count two characters for each qubit, and so does a cell with an
identity.  The cell of another letter has the letter and the index of its qubit, and is wider from qubit 10
on.  So the bar of a line stands where the title has its own, moved on by the digits that are too many in
the cells before it (`overhang`), and all bars are below one another just when no stabilizer has a letter
on a qubit from 10 on.

The stabilizers of a state act on every qubit, and therefore its table is aligned up to ten qubits and not
beyond.
-/

namespace Stabilizer

/-! ## Columns -/

/-- The mark stands in the line once, in the given column. -/
def StandsAt (mark : Char) (column : Nat) (row : List Char) : Prop :=
  ∀ i, row[i]? = some mark ↔ i = column

section StandsAt

variable {mark : Char} {column column' : Nat} {row left right : List Char}

theorem StandsAt.eq (h : StandsAt mark column row) (h' : StandsAt mark column' row) :
    column = column' :=
  (h' column).1 ((h column).2 rfl)

theorem standsAt_append (notLeft : mark ∉ left) (notRight : mark ∉ right)
    (width : left.length = column) : StandsAt mark column (left ++ mark :: right) := by
  subst width
  intro i
  obtain before | rfl | after := Nat.lt_trichotomy i left.length
  · rw [List.getElem?_append_left before]
    refine ⟨fun h => absurd (List.mem_of_getElem? h) notLeft, fun h => ?_⟩
    omega
  · simp
  · obtain ⟨j, rfl⟩ := Nat.exists_eq_add_of_lt after
    rw [List.getElem?_append_right (by omega), show left.length + j + 1 - left.length = j + 1 by omega,
      List.getElem?_cons_succ]
    refine ⟨fun h => absurd (List.mem_of_getElem? h) notRight, fun h => ?_⟩
    omega

end StandsAt

namespace Tableau

variable {n : Nat}

/-- In the text of the table the bar of the title, the plus of the rule, and the bars of all lines stand
in one column. -/
def Aligned (t : Tableau n) : Prop :=
  ∃ title rule lines column, t.table.splitOn '\n' = title :: rule :: lines ++ [[]] ∧ lines.length = n ∧
    StandsAt '|' column title ∧ StandsAt '+' column rule ∧ ∀ line ∈ lines, StandsAt '|' column line

/-- The column of the bar in the title. -/
def barColumn (n : Nat) : Nat := max (2 * n + 3) 7

theorem standsAt_tableTitle (n : Nat) : StandsAt '|' (barColumn n) (tableTitle n) := by
  rw [tableTitle_eq]
  refine standsAt_append (by simp) (by decide) ?_
  have stable : "stable".toList.length = 6 := rfl
  rw [List.length_append, List.length_replicate, stable, barColumn]
  omega

theorem standsAt_tableRule (n : Nat) : StandsAt '+' (barColumn n) (tableRule n) := by
  rw [tableRule]
  exact standsAt_append (by simp) (by simp) List.length_replicate

/-! ## Widths -/

/-- By how many characters the cells from qubit `k` on are wider than two characters each. -/
def overhang (k : Nat) : List Pauli → Nat
  | [] => 0
  | letter :: letters => ((cell k letter).length - 2) + overhang (k + 1) letters

theorem two_le_length_cell (k : Nat) (letter : Pauli) : 2 ≤ (cell k letter).length := by
  have digits : 0 < (Nat.toDigits 10 k).length := Nat.length_toDigits_pos
  cases letter <;> simp only [cell, List.length_cons, List.length_nil] <;> omega

/-- Cells are of two characters for identities, and for all letters on the first ten qubits. -/
theorem length_cell_le_two_iff {k : Nat} {letter : Pauli} :
    (cell k letter).length ≤ 2 ↔ 10 ≤ k → letter = .I := by
  have digits : (Nat.toDigits 10 k).length ≤ 1 ↔ k < 10 := by
    simpa using Nat.length_toDigits_le_iff (b := 10) (n := k) (k := 1) (by decide) (by decide)
  cases letter <;> simp [cell, digits]

theorem length_cellsFrom (k : Nat) (letters : List Pauli) :
    (cellsFrom k letters).length = 2 * letters.length + overhang k letters := by
  induction letters generalizing k with
  | nil => rfl
  | cons letter letters ih =>
    have least := two_le_length_cell k letter
    simp only [cellsFrom, overhang, List.length_append, List.length_cons, ih]
    omega

theorem overhang_eq_zero_iff {k : Nat} {letters : List Pauli} :
    overhang k letters = 0 ↔ ∀ (j : Nat) (h : j < letters.length), 10 ≤ k + j → letters[j] = .I := by
  induction letters generalizing k with
  | nil => simp [overhang]
  | cons letter letters ih =>
    rw [overhang, Nat.add_eq_zero_iff, Nat.sub_eq_zero_iff_le, length_cell_le_two_iff, ih]
    constructor
    · rintro ⟨first, others⟩ j h far
      cases j with
      | zero => exact first far
      | succ j => exact others j (Nat.lt_of_succ_lt_succ h) (by omega)
    · intro all
      refine ⟨fun far => all 0 (by simp) far, fun j h far => ?_⟩
      exact all (j + 1) (Nat.succ_lt_succ h) (by omega)

theorem overhang_toPauli_eq_zero_iff {a : Row n} :
    overhang 0 a.toPauli.letters = 0 ↔ ∀ k : Fin n, 10 ≤ k.val → a.letter k = .I := by
  rw [overhang_eq_zero_iff]
  simp only [Row.toPauli, List.length_ofFn, List.getElem_ofFn, Nat.zero_add]
  exact ⟨fun h k => h k k.isLt, fun h j hj => h ⟨j, hj⟩⟩

/-- The bar of a line is moved on by the overhang of the stabilizer before it. -/
theorem standsAt_pairLine (t : Tableau n) (i : Fin n) :
    StandsAt '|' (barColumn n + overhang 0 (t.stabilizer i).toPauli.letters) (t.pairLine i) := by
  have entry (p : PauliString) : '|' ∉ tableEntry p := notMem_tableEntry (by decide) p
  have width : (tableEntry (t.stabilizer i).toPauli).length =
      2 * n + 2 + overhang 0 (t.stabilizer i).toPauli.letters := by
    rw [tableEntry, List.length_cons, List.length_cons, length_cellsFrom, Row.length_letters_toPauli]
    omega
  have split : t.pairLine i = (tableEntry (t.stabilizer i).toPauli ++ List.replicate (4 - 2 * n) ' ' ++
      [' ']) ++ '|' :: (' ' :: tableEntry (t.destabilizer i).toPauli) := by
    simp [pairLine, tableLine]
  rw [split]
  refine standsAt_append (by simp [entry]) (by simp [entry]) ?_
  simp only [List.length_append, List.length_replicate, List.length_singleton, width, barColumn]
  omega

/-! ## Alignment -/

theorem aligned_iff (t : Tableau n) :
    t.Aligned ↔ ∀ i k : Fin n, 10 ≤ k.val → (t.stabilizer i).letter k = .I := by
  simp only [← overhang_toPauli_eq_zero_iff]
  constructor
  · rintro ⟨title, rule, lines, column, cut, -, bar, -, bars⟩ i
    rw [splitOn_table, List.cons_append, List.cons_append, List.cons_append, List.cons_append,
      List.cons.injEq, List.cons.injEq, List.append_cancel_right_eq] at cut
    obtain ⟨rfl, rfl, rfl⟩ := cut
    have here := (t.standsAt_pairLine i).eq
      (bars _ (List.mem_map_of_mem (List.mem_finRange i)))
    have there := (standsAt_tableTitle n).eq bar
    omega
  · intro none
    refine ⟨_, _, _, barColumn n, t.splitOn_table, by simp, standsAt_tableTitle n,
      standsAt_tableRule n, fun line hl => ?_⟩
    obtain ⟨i, -, rfl⟩ := List.mem_map.1 hl
    simpa [none i] using t.standsAt_pairLine i

/-- On every qubit some stabilizer of a state has a letter. -/
theorem exists_letter_ne (t : Tableau n) (ht : t.isSymplectic = true) (q : Fin n) :
    ∃ i, (t.stabilizer i).letter q ≠ .I := by
  by_contra none
  push Not at none
  have noX (k : Fin n) : t.matrix (stabIndex k) (destabIndex q) = 0 := by
    rw [matrix_apply, row_stabIndex, PauliOperator.bits_destabIndex, Row.letters_exact, none k]
    rfl
  have noZ (k : Fin n) : t.matrix (stabIndex k) (stabIndex q) = 0 := by
    rw [matrix_apply, row_stabIndex, PauliOperator.bits_stabIndex, Row.letters_exact, none k]
    rfl
  -- the X column of the qubit is paired with its Z column, but one factor of every product is 0
  have paired := congrFun₂ ((isSymplectic_iff_columns t).1 ht) (destabIndex q) (stabIndex q)
  have apart : (t.matrix.transpose * (skew n * t.matrix)) (destabIndex q) (stabIndex q) = 0 := by
    rw [Matrix.mul_apply]
    refine Finset.sum_eq_zero fun i _ => ?_
    rw [skew_mul_apply, Matrix.transpose_apply]
    obtain ⟨k, rfl⟩ | ⟨k, rfl⟩ := index_cases i
    · rw [partner_destabIndex, noZ, mul_zero]
    · rw [noX, zero_mul]
  rw [apart, skew, Matrix.of_apply, if_pos (partner_destabIndex q).symm] at paired
  exact zero_ne_one paired

/-- **When the table is aligned.**  The bars of the table stand in one column if and only if every
stabilizer has identities on all qubits from 10 on.  The table of a state is aligned if and only if it has
at most ten qubits. -/
theorem table_aligned_iff (t : Tableau n) :
    (t.Aligned ↔ ∀ i k : Fin n, 10 ≤ k.val → (t.stabilizer i).letter k = .I) ∧
      (t.isSymplectic = true → (t.Aligned ↔ n ≤ 10)) := by
  refine ⟨t.aligned_iff, fun ht => ?_⟩
  rw [aligned_iff]
  constructor
  · intro none
    by_contra many
    obtain ⟨i, letter⟩ := t.exists_letter_ne ht ⟨10, by omega⟩
    exact letter (none i ⟨10, by omega⟩ (Nat.le_refl 10))
  · intro few i k far
    omega

/-- The basis state of ten qubits. -/
theorem table_aligned_iff_ten :
    let t := basis 10 0 (by decide)
    t.isSymplectic = true ∧ (t.Aligned ↔ 10 ≤ 10) := by
  intro t
  have symplectic : t.isSymplectic = true := (isSymplectic_iff t).2 (symplectic_basis 0 _)
  exact ⟨symplectic, (table_aligned_iff t).2 symplectic⟩

/-- With eleven qubits the basis state has a table that is not aligned: its last stabilizer has the letter
`Z` on qubit 10. -/
theorem not_aligned_eleven : ∃ t : Tableau 11, ofBasisState 11 0 = .ok t ∧ ¬ t.Aligned := by
  refine ⟨basis 11 0 (by decide), rfl, fun aligned => ?_⟩
  have none := (aligned_iff _).1 aligned 10 10 (by decide)
  rw [stabilizer_basis] at none
  exact absurd none (by decide)

end Tableau

end Stabilizer
