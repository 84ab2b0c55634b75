import Mathlib.Order.Bounds.Basic
import Mathlib.Order.Fin.Basic
import Stabilizer.Proofs.Rowsum
import Stabilizer.Proofs.XRank
/-!
# The rows that a measurement leaves

A random outcome rewrites the rows in place and one after the other: the destabilizer of the pivot is
multiplied and then overwritten, and the pivot is read by every product before it gives way.  Still the
new rows are those of a simultaneous update, in which each is given by old rows alone
(`measure_simultaneous`).

Afterwards no stabilizer has an X part at the qubit, and of the destabilizers only that of the pivot has
one.  So measuring the qubit again finds no pivot and builds a product of one factor, the `Z` that the
outcome has put there, whose sign is the outcome (`measure_measure`).

Both hold of every tableau, whether or not its rows satisfy the commutation relations.
-/

namespace Stabilizer

variable {n : Nat}

namespace Tableau

/-! ## The pivot -/

/-- The pivot is the first stabilizer with an X part at the qubit. -/
theorem pivot?_eq_some {t : Tableau n} {q p : Fin n} :
    t.pivot? q = some p ↔ IsLeast {i | (t.stabilizer i).x.get q = true} p := by
  rw [pivot?, List.find?_eq_some_iff_getElem]
  constructor
  · rintro ⟨hp, k, hk, here, before⟩
    rw [List.getElem_finRange] at here
    subst here
    refine ⟨hp, fun i hi => ?_⟩
    by_contra earlier
    have unset := before i (Fin.lt_def.1 (not_le.1 earlier))
    rw [List.getElem_finRange, Bool.not_eq_true'] at unset
    exact Bool.false_ne_true (unset.symm.trans hi)
  · rintro ⟨hp, least⟩
    refine ⟨hp, p, by simp, by simp, fun i hi => ?_⟩
    by_contra set
    rw [Bool.not_eq_true', Bool.not_eq_false] at set
    exact absurd (Fin.le_def.1 (least set)) (Nat.not_le.2 (by simpa using hi))

/-- Without a pivot a measurement changes no row and draws nothing. -/
theorem exists_measure_of_none {t : Tableau n} {q : Fin n} (h : t.pivot? q = none) :
    t.isDeterministic q = .ok true ∧
      ∀ coins, ∃ after, t.measure q coins = .ok (.deterministic (t.determined q).minus, after, coins) ∧
        (after == t) = true := by
  refine ⟨?_, fun coins => ⟨_, measure_of_none h coins, beq_iff_rows_eq.2 rfl⟩⟩
  rw [isDeterministic_eq, h]
  rfl

/-! ## Simultaneous update -/

/-- The rows after a random outcome, each from rows before it: the pivot gives way to `Z`, its
destabilizer takes its place, and the other rows that have an X part at the qubit are multiplied by it. -/
structure Replaced (t : Tableau n) (q p : Fin n) (bit : Bool) (after : Tableau n) : Prop where
  pivot : after.row (stabIndex p) = Row.singleZ n bit q
  partner : after.row (destabIndex p) = t.row (stabIndex p)
  multiplied : ∀ i, i ≠ stabIndex p → i ≠ destabIndex p → (t.row i).x.get q = true →
    ∃ u, t.rowsum i (stabIndex p) = .ok u ∧ after.row i = u.row i
  kept : ∀ i, i ≠ stabIndex p → i ≠ destabIndex p → (t.row i).x.get q = false → after.row i = t.row i

/-- A row that is neither the pivot nor its destabilizer is cleared. -/
theorem row_collapse_of_ne (t : Tableau n) (q p : Fin n) (bit : Bool) {i : Fin (2 * n)}
    (pivot : i ≠ stabIndex p) (partner : i ≠ destabIndex p) :
    (t.collapse q p bit).row i = (t.row i).cleared q (t.stabilizer p) := by
  obtain ⟨k, rfl⟩ | ⟨k, rfl⟩ := index_cases i
  · rw [row_destabIndex, destabilizer_collapse, if_neg (mt destabIndex_inj.2 partner), row_destabIndex]
  · rw [row_stabIndex, stabilizer_collapse, if_neg (mt stabIndex_inj.2 pivot), row_stabIndex]

theorem replaced_collapse (t : Tableau n) (q p : Fin n) (bit : Bool) :
    t.Replaced q p bit (t.collapse q p bit) where
  pivot := by rw [row_stabIndex, stabilizer_collapse, if_pos rfl]
  partner := by rw [row_destabIndex, destabilizer_collapse, if_pos rfl, row_stabIndex]
  multiplied i pivot partner set := by
    refine ⟨_, t.rowsum_val i (stabIndex p), ?_⟩
    rw [row_collapse_of_ne t q p bit pivot partner, Row.cleared, if_pos set, row_multiply, if_pos rfl,
      row_stabIndex]
  kept i pivot partner unset := by
    rw [row_collapse_of_ne t q p bit pivot partner, Row.cleared, if_neg (Bool.not_eq_true _ ▸ unset)]

/-- Every row is one of the four kinds, so there is one tableau with these rows. -/
theorem Replaced.beq {t after other : Tableau n} {q p : Fin n} {bit : Bool}
    (h : t.Replaced q p bit after) (h' : t.Replaced q p bit other) : (other == after) = true := by
  rw [beq_iff_row_eq]
  intro i
  by_cases pivot : i = stabIndex p
  · rw [pivot, h.pivot, h'.pivot]
  by_cases partner : i = destabIndex p
  · rw [partner, h.partner, h'.partner]
  cases column : (t.row i).x.get q with
  | false => rw [h.kept i pivot partner column, h'.kept i pivot partner column]
  | true =>
    obtain ⟨u, product, row⟩ := h.multiplied i pivot partner column
    obtain ⟨u', product', row'⟩ := h'.multiplied i pivot partner column
    cases product.symm.trans product'
    rw [row, row']

/-- **The update in place is a simultaneous one.**  If no stabilizer has an X part at the qubit, all rows
stay and no coin is drawn.  Otherwise the first that has one is the pivot, one coin is drawn, and every
new row is given by old rows, which leaves no choice of a tableau. -/
theorem measure_simultaneous (t : Tableau n) (q : Fin n) (coins : Coins) :
    (t.isDeterministic q = .ok true ∧ (∀ i, (t.stabilizer i).x.get q = false) ∧
        ∃ bit after, t.measure q coins = .ok (.deterministic bit, after, coins) ∧
          (after == t) = true) ∨
      (t.isDeterministic q = .ok false ∧ ∃ p, IsLeast {i | (t.stabilizer i).x.get q = true} p ∧
        ∃ after, t.measure q coins = .ok (.random coins.next, after, coins.advance) ∧
          t.Replaced q p coins.next after ∧
          ∀ other, t.Replaced q p coins.next other → (other == after) = true) := by
  cases hq : t.pivot? q with
  | none =>
    obtain ⟨determined, measured⟩ := exists_measure_of_none hq
    exact .inl ⟨determined, pivot?_eq_none.1 hq, _, measured coins⟩
  | some p =>
    have replaced := t.replaced_collapse q p coins.next
    refine .inr ⟨?_, p, pivot?_eq_some.1 hq, _, measure_of_some hq coins, replaced,
      fun other => replaced.beq⟩
    rw [isDeterministic_eq, hq]
    rfl

/-! ## Measuring again -/

/-- The product of a single factor is that factor. -/
theorem determined_of_single {t : Tableau n} {q p : Fin n}
    (single : ∀ i, (t.destabilizer i).x.get q = decide (i = p)) :
    t.determined q = t.stabilizer p := by
  have factors : (List.finRange n).filter (fun i => (t.destabilizer i).x.get q) = [p] := by
    simp only [single]
    rw [List.filter_eq, List.count_finRange, List.replicate_one]
  rw [determined, ← List.foldl_filter, factors, List.foldl_cons, List.foldl_nil, Row.one_mul]

/-- After a random outcome one destabilizer has an X part at the qubit, that of the pivot. -/
theorem x_destabilizer_collapse {t : Tableau n} {q p : Fin n} (hp : (t.stabilizer p).x.get q = true)
    (bit : Bool) (i : Fin n) :
    ((t.collapse q p bit).destabilizer i).x.get q = decide (i = p) := by
  rw [destabilizer_collapse]
  by_cases hi : i = p
  · rw [if_pos hi, decide_eq_true hi, hp]
  · rw [if_neg hi, decide_eq_false hi, Row.x_cleared hp]

/-- So the product that is built afterwards is the new `Z`. -/
theorem determined_collapse {t : Tableau n} {q p : Fin n} (hp : (t.stabilizer p).x.get q = true)
    (bit : Bool) : (t.collapse q p bit).determined q = Row.singleZ n bit q := by
  rw [determined_of_single (x_destabilizer_collapse hp bit), stabilizer_collapse, if_pos rfl]

/-- **A measurement repeated finds the same.**  Whatever the rows are, measuring the qubit again, with any
coins, reports the bit as determined, draws nothing and changes no row. -/
theorem measure_measure (t : Tableau n) (q : Fin n) (coins : Coins) :
    ∃ outcome after, t.measure q coins = .ok (outcome, after, coins.after outcome) ∧
      after.isDeterministic q = .ok true ∧
      ∀ coins', ∃ again, after.measure q coins' = .ok (.deterministic outcome.bit, again, coins') ∧
        (again == after) = true := by
  cases hq : t.pivot? q with
  | none =>
    -- the product is begun anew, whatever the scratch row holds
    exact ⟨_, _, measure_of_none hq coins, exists_measure_of_none (t := { t with scratch := _ }) hq⟩
  | some p =>
    have hp := x_of_pivot? hq
    have empty : (t.collapse q p coins.next).pivot? q = none := pivot?_collapse hp _ (.inl rfl)
    have again := exists_measure_of_none empty
    rw [determined_collapse hp] at again
    exact ⟨_, _, measure_of_some hq coins, again⟩

end Tableau

end Stabilizer
