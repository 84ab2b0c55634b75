import Stabilizer.Proofs.Listings
/-!
# The table of generators is read back

The table has a title, a rule and a line for each qubit, so the number of its lines says how many qubits
there are.  A line is read cell by cell.  Cells are of different widths, and blanks fill the columns as
well; but at a known qubit no cell goes on where another one ends, for one that begins with a blank has
two blanks, and one that begins with a letter goes on with the index of the qubit.  So the cells, and with
them both generators of the line, can be read off from the left (`cellsFrom_append_inj`), and tables are
the same text just when the tableaus are equal.
-/

namespace Stabilizer

namespace Tableau

variable {n m : Nat}

/-! ## Characters -/

/-- A character of an entry is a blank, a sign, a letter or a digit. -/
def InEntry (c : Char) : Prop := c = ' ' ∨ c ∈ PauliString.alphabet ∨ c.isDigit = true

instance (c : Char) : Decidable (InEntry c) := inferInstanceAs (Decidable (_ ∨ _))

theorem inEntry_of_mem_cell {c : Char} {k : Nat} {letter : Pauli} (hc : c ∈ cell k letter) :
    InEntry c := by
  have digits (hd : c ∈ Nat.toDigits 10 k) : InEntry c :=
    .inr (.inr (Nat.isDigit_of_mem_toDigits (by decide) (by decide) hd))
  cases letter with
  | I => exact .inl (by simpa [cell] using hc)
  | X | Y | Z =>
    obtain rfl | hc := List.mem_cons.1 hc
    · exact .inr (.inl (by decide))
    · exact digits hc

theorem inEntry_of_mem_cellsFrom {c : Char} {k : Nat} {letters : List Pauli}
    (hc : c ∈ cellsFrom k letters) : InEntry c := by
  induction letters generalizing k with
  | nil => cases hc
  | cons letter letters ih =>
    obtain hc | hc := List.mem_append.1 hc
    · exact inEntry_of_mem_cell hc
    · exact ih hc

theorem inEntry_of_mem_tableEntry {c : Char} {p : PauliString} (hc : c ∈ tableEntry p) : InEntry c := by
  obtain rfl | hc := List.mem_cons.1 hc
  · refine .inr (.inl ?_)
    cases p.sign <;> decide
  · obtain rfl | hc := List.mem_cons.1 hc
    · exact .inl rfl
    · exact inEntry_of_mem_cellsFrom hc

theorem notMem_tableEntry {c : Char} (h : ¬ InEntry c) (p : PauliString) : c ∉ tableEntry p :=
  fun hc => h (inEntry_of_mem_tableEntry hc)

/-! ## Lines -/

/-- The title on both sides of its bar. -/
theorem tableTitle_eq (n : Nat) : tableTitle n =
    "stable".toList ++ List.replicate (max (2 * n - 3) 1) ' ' ++ '|' :: " destable".toList := rfl

/-- The line of the pair with the given number. -/
def pairLine (t : Tableau n) (i : Fin n) : List Char :=
  tableLine n (t.stabilizer i).toPauli (t.destabilizer i).toPauli

theorem notMem_pairLine (t : Tableau n) (i : Fin n) : '\n' ∉ t.pairLine i := by
  have entry (p : PauliString) : '\n' ∉ tableEntry p := notMem_tableEntry (by decide) p
  simp [pairLine, tableLine, entry]

/-- Lines that are each ended by a line break, with nothing after the last one. -/
theorem splitOn_flatMap {ι : Type} (line : ι → List Char) (whole : ∀ i, '\n' ∉ line i) (l : List ι) :
    (l.flatMap fun i => line i ++ ['\n']).splitOn '\n' = l.map line ++ [[]] := by
  induction l with
  | nil => rfl
  | cons i l ih =>
    rw [List.flatMap_cons, List.append_assoc, List.singleton_append,
      List.splitOn_append_cons_self_of_not_mem (whole i), ih, List.map_cons, List.cons_append]

theorem splitOn_table (t : Tableau n) : t.table.splitOn '\n' =
    tableTitle n :: tableRule n :: (List.finRange n).map t.pairLine ++ [[]] := by
  have title : '\n' ∉ tableTitle n := by simp [tableTitle_eq]
  have rule : '\n' ∉ tableRule n := by simp [tableRule]
  rw [table, List.append_assoc, List.cons_append,
    List.splitOn_append_cons_self_of_not_mem title, List.splitOn_append_cons_self_of_not_mem rule]
  exact congrArg _ (congrArg _ (splitOn_flatMap t.pairLine t.notMem_pairLine _))

/-! ## Reading -/

variable {x y : List Char}

/-- At a known qubit a cell is read from the left. -/
theorem cell_append_inj {k : Nat} {a b : Pauli} (h : cell k a ++ x = cell k b ++ y) : a = b ∧ x = y := by
  cases a <;> cases b <;>
    simp only [cell, Pauli.symbol, List.cons_append, List.nil_append, List.cons.injEq, Char.reduceEq,
      true_and, false_and, List.append_cancel_left_eq] at h
  all_goals exact ⟨rfl, h⟩

theorem cellsFrom_append_inj {k : Nat} {as bs : List Pauli} (length : as.length = bs.length)
    (h : cellsFrom k as ++ x = cellsFrom k bs ++ y) : as = bs ∧ x = y := by
  induction as generalizing k bs with
  | nil =>
    obtain rfl := List.eq_nil_of_length_eq_zero length.symm
    exact ⟨rfl, h⟩
  | cons a as ih =>
    cases bs with
    | nil => cases length
    | cons b bs =>
      rw [cellsFrom, cellsFrom, List.append_assoc, List.append_assoc] at h
      obtain ⟨rfl, rest⟩ := cell_append_inj h
      obtain ⟨rfl, ends⟩ := ih (Nat.succ.inj length) rest
      exact ⟨rfl, ends⟩

theorem tableEntry_append_inj {p q : PauliString} (length : p.letters.length = q.letters.length)
    (h : tableEntry p ++ x = tableEntry q ++ y) : p = q ∧ x = y := by
  obtain ⟨sign, letters⟩ := p
  obtain ⟨sign', letters'⟩ := q
  obtain ⟨signs, rest⟩ := List.cons.inj h
  obtain ⟨rfl, ends⟩ := cellsFrom_append_inj length (List.cons.inj rest).2
  have same : sign = sign' := by cases sign <;> cases sign' <;> first | rfl | cases signs
  exact ⟨by rw [same], ends⟩

/-- Both generators of a line are read off it. -/
theorem pairLine_inj {t u : Tableau n} {i : Fin n} (h : t.pairLine i = u.pairLine i) :
    t.stabilizer i = u.stabilizer i ∧ t.destabilizer i = u.destabilizer i := by
  have length (a b : Row n) : a.toPauli.letters.length = b.toPauli.letters.length := by simp
  simp only [pairLine, tableLine, List.append_assoc] at h
  obtain ⟨stabilizers, rest⟩ := tableEntry_append_inj (length _ _) h
  have entries := List.append_cancel_left (List.append_cancel_left rest)
  rw [← List.append_nil (tableEntry _), ← List.append_nil (tableEntry (u.destabilizer i).toPauli)]
    at entries
  obtain ⟨destabilizers, -⟩ := tableEntry_append_inj (length _ _) entries
  exact ⟨Row.toPauli_injective stabilizers, Row.toPauli_injective destabilizers⟩

/-- **The table loses nothing.**  Two tableaus, on any numbers of qubits, are shown by the same table if
and only if they are equal. -/
theorem table_eq_iff_same (t : Tableau n) (u : Tableau m) : t.table = u.table ↔ t.same u = true := by
  refine ⟨fun h => ?_, fun h => ?_⟩
  · have lines := t.splitOn_table.symm.trans ((congrArg _ h).trans u.splitOn_table)
    obtain rfl : n = m := by simpa using congrArg List.length lines
    have pairs : (List.finRange n).map t.pairLine = (List.finRange n).map u.pairLine := by
      simpa using lines
    have line (i : Fin n) : t.pairLine i = u.pairLine i :=
      List.map_inj_left.1 pairs i (List.mem_finRange i)
    rw [same_iff_pairs_eq, Tableau.pairs, Tableau.pairs]
    simp only [stabilizers, destabilizers, (pairLine_inj (line _)).1, (pairLine_inj (line _)).2]
  · have rows := (same_iff_sameRows (t := ⟨n, t⟩) (u := ⟨m, u⟩)).1 h
    cases rows with
    | intro rows => simp only [table, stabilizer, destabilizer, row, rows]

end Tableau

end Stabilizer
