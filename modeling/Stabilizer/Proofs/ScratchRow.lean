import Stabilizer.Proofs.Accumulation
import Stabilizer.Proofs.Measurement
/-!
# The scratch row and products in place

A determined outcome is the sign of a product that is built in the scratch row, where a factor is multiplied
in as a whole.  A row of the tableau is multiplied in place: its sign is stored first, for the rows as they
are, and then its two bits are renewed column after column, from bits of a table that is being written
(`multiplyInPlace`).  What a column reads no earlier column has changed, even if source and target are one
row, and the result is the same (`multiplyInPlace_eq`).

So the scratch row can be had without a measurement: a destabilizer that is set to the identity and
multiplied by the same stabilizers ends as the scratch row does (`rowsumAll_eq_scratch`).  The rows may be
any: where factors anticommute both ways lose the same phases.
-/

namespace Stabilizer

open PauliOperator

variable {n : Nat}

namespace Row

/-! ## One column -/

/-- The target with its letter at one qubit multiplied by that of the source. -/
def mulAt (target source : Row n) (k : Fin n) : Row n where
  minus := target.minus
  x := target.x.set k (target.x.get k ^^ source.x.get k) k.isLt
  z := target.z.set k (target.z.get k ^^ source.z.get k) k.isLt

theorem letter_mulAt (target source : Row n) (c k : Fin n) :
    (target.mulAt source c).letter k =
      if k = c then (source.letter k).times (target.letter k) else target.letter k := by
  by_cases h : k = c
  · subst h
    rw [if_pos rfl]
    apply Pauli.ext_bits <;> simp [mulAt, letter, Bool.xor_comm]
  · have apart : c.val ≠ k.val := fun same => h (Fin.ext same.symm)
    rw [if_neg h]
    apply Pauli.ext_bits <;> simp [mulAt, letter, apart]

/-- Rows are equal when their signs and their letters are. -/
theorem ext_letter {a b : Row n} (minus : a.minus = b.minus) (letter : ∀ k, a.letter k = b.letter k) :
    a = b :=
  exact_injective (PauliOperator.ext (congrArg signPhase minus) (funext letter))

end Row

namespace Tableau

/-! ## Column after column -/

/-- One column of a product in place: the bits of the target there, each added to that of the source. -/
def multiplyColumn (target source : Fin (2 * n)) (t : Tableau n) (k : Fin n) : Tableau n :=
  t.put target ((t.row target).mulAt (t.row source) k)

/-- Multiplies row `source` into row `target` in place: the sign first, then every column. -/
def multiplyInPlace (t : Tableau n) (target source : Fin (2 * n)) : Tableau n :=
  (List.finRange n).foldl (multiplyColumn target source)
    (t.putSign target
      (productSign (t.row target).minus (t.row source).minus ((t.row source).sites (t.row target))))

theorem row_multiplyColumn (t : Tableau n) (i j m : Fin (2 * n)) (k : Fin n) :
    (multiplyColumn i j t k).row m = if m = i then (t.row i).mulAt (t.row j) k else t.row m :=
  t.row_put i m _

/-- The columns leave the signs, and the rows other than the target. -/
theorem foldl_multiplyColumn_kept (t : Tableau n) (i j : Fin (2 * n)) (columns : List (Fin n)) :
    ((columns.foldl (multiplyColumn i j) t).row i).minus = (t.row i).minus ∧
      (∀ m, m ≠ i → (columns.foldl (multiplyColumn i j) t).row m = t.row m) ∧
      (columns.foldl (multiplyColumn i j) t).scratch = t.scratch := by
  induction columns generalizing t with
  | nil => exact ⟨rfl, fun _ _ => rfl, rfl⟩
  | cons c columns ih =>
    obtain ⟨minus, others, scratch⟩ := ih (multiplyColumn i j t c)
    refine ⟨?_, fun m hm => ?_, scratch⟩
    · rw [List.foldl_cons, minus, row_multiplyColumn, if_pos rfl, Row.mulAt]
    · rw [List.foldl_cons, others m hm, row_multiplyColumn, if_neg hm]

/-- Different columns renew the letters of the target that stand there.  A letter that is read is still the
old one, also if the source is the target. -/
theorem letter_foldl_multiplyColumn (t : Tableau n) (i j : Fin (2 * n)) {columns : List (Fin n)}
    (different : columns.Nodup) (k : Fin n) :
    ((columns.foldl (multiplyColumn i j) t).row i).letter k =
      if k ∈ columns then ((t.row j).letter k).times ((t.row i).letter k) else (t.row i).letter k := by
  induction columns generalizing t with
  | nil => simp
  | cons c columns ih =>
    obtain ⟨hc, different⟩ := List.nodup_cons.1 different
    have letter (m : Fin (2 * n)) (hk : k ≠ c) :
        ((multiplyColumn i j t c).row m).letter k = (t.row m).letter k := by
      rw [row_multiplyColumn]
      split
      · next same => rw [Row.letter_mulAt, if_neg hk, same]
      · rfl
    rw [List.foldl_cons, ih _ different]
    by_cases hk : k = c
    · subst hk
      rw [if_neg hc, if_pos List.mem_cons_self, row_multiplyColumn, if_pos rfl, Row.letter_mulAt, if_pos rfl]
    · rw [letter i hk, letter j hk]
      simp only [List.mem_cons, hk, false_or]

/-- A product in place is the product. -/
theorem multiplyInPlace_eq (t : Tableau n) (i j : Fin (2 * n)) :
    t.multiplyInPlace i j = t.multiply i j := by
  let signed := t.putSign i ((t.row i).mul (t.row j)).minus
  have letter (m : Fin (2 * n)) (k : Fin n) : (signed.row m).letter k = (t.row m).letter k := by
    rw [Row.letter, (t.bits_putSign i m _).1, (t.bits_putSign i m _).2]
    rfl
  obtain ⟨minus, others, scratch⟩ := foldl_multiplyColumn_kept signed i j (List.finRange n)
  show (List.finRange n).foldl (multiplyColumn i j) signed = t.multiply i j
  refine ext_row (fun m => ?_) scratch
  rw [row_multiply]
  by_cases hm : m = i
  · rw [if_pos hm, hm]
    refine Row.ext_letter ?_ fun k => ?_
    · rw [minus, row_putSign, if_pos rfl]
    · rw [letter_foldl_multiplyColumn _ _ _ (List.nodup_finRange n), if_pos (List.mem_finRange k),
        letter, letter, Row.letter_mul]
  · rw [if_neg hm, others m hm, row_putSign, if_neg hm]

/-! ## The scratch row -/

/-- The stabilizers whose destabilizers have an X part at the qubit, in the order of the rows. -/
def factors (t : Tableau n) (q : Fin n) : List (Fin (2 * n)) :=
  ((List.finRange n).filter fun i => (t.destabilizer i).x.get q).map stabIndex

theorem determined_eq_foldl (t : Tableau n) (q : Fin n) :
    t.determined q = ((t.factors q).map t.row).foldl Row.mul (Row.one n) := by
  rw [determined, ← List.foldl_filter, factors, List.map_map, List.foldl_map]
  rfl

theorem destabIndex_notMem_factors (t : Tableau n) (q r : Fin n) : destabIndex r ∉ t.factors q := by
  simp [factors]

/-- The identity as a string is stored as the row of identities. -/
theorem setRow_identity (t : Tableau n) (r : Fin n) :
    t.setRow r (.identity n) = .ok (t.put (destabIndex r) (Row.one n)) := by
  have fits : (PauliString.identity n).letters.length = n := PauliString.length_identity n
  have stored : Row.ofPauli (.identity n) fits = Row.one n := by
    ext k hk <;> simp [Row.ofPauli, Row.one, PauliString.identity, Sign.toBit, Pauli.xBit, Pauli.zBit]
  rw [← stored]
  exact t.setRow_of_length (destabIndex r) fits

/-- The identity, stored in a row that then takes in the factors of the qubit, becomes the product of
them. -/
theorem row_multiplyAll_factors (t : Tableau n) (q r : Fin n) :
    ((t.put (destabIndex r) (Row.one n)).multiplyAll (destabIndex r) (t.factors q)).row (destabIndex r) =
      t.determined q := by
  have absent := t.destabIndex_notMem_factors q r
  have stays : (t.factors q).map (t.put (destabIndex r) (Row.one n)).row = (t.factors q).map t.row :=
    List.map_congr_left fun k hk => by
      rw [row_put, if_neg fun same : k = destabIndex r => absent (same ▸ hk)]
  rw [multiplyAll_eq_put absent, row_put, if_pos rfl, row_put, if_pos rfl, stays, determined_eq_foldl]

/-- **The scratch row is a product in place.**  If the outcome at the qubit is determined, a copy of the
tableau in which a destabilizer is set to the identity, and then multiplied by the stabilizers whose
destabilizers have an X part there, has in that row what the measurement leaves in the scratch row, and the
sign of it is the outcome.  This is so whether the products are built whole or column after column, and
whatever the rows are. -/
theorem rowsumAll_eq_scratch {t : Tableau n} {q : Fin n} (determined : t.isDeterministic q = .ok true)
    (r : Fin n) (coins : Coins) :
    ∃ copy product outcome after p, t.setRow r (.identity n) = .ok copy ∧
      copy.rowsumAll (destabIndex r) (t.factors q) = .ok product ∧
      (t.factors q).foldl (fun u i => u.multiplyInPlace (destabIndex r) i) copy = product ∧
      t.measure q coins = .ok (outcome, after, coins) ∧
      product.readRow r = .ok p ∧ after.scratch.toPauli = p ∧ outcome = .deterministic p.sign.toBit := by
  rw [isDeterministic_eq, Except.ok.injEq, Option.isNone_iff_eq_none] at determined
  have row := t.row_multiplyAll_factors q r
  refine ⟨_, _, _, _, _, t.setRow_identity r, rowsumAll_eq _ _ _, ?_, measure_of_none determined coins,
    readRow_val _ (destabIndex r), ?_, ?_⟩
  · simp only [multiplyInPlace_eq]
    rfl
  · rw [row]
  · rw [row]
    simp [Row.toPauli]

/-- Two factors that anticommute, `ZX` and `IZ`: the product of the identity with them is `-ZY`. -/
theorem rowsumAll_eq_scratch_anticommute :
    let t := ((basis 2 0 (by decide)).put 1 (Row.ofPauli ⟨.plus, [.X, .X]⟩ rfl)).put 2
      (Row.ofPauli ⟨.plus, [.Z, .X]⟩ rfl)
    let coins := Coins.fresh fun _ => 0
    (t.entries 2).commutesWith (t.entries 3) = false ∧ (t.determined 0).toPauli = ⟨.minus, [.Z, .Y]⟩ ∧
      t.isDeterministic 0 = .ok true ∧
      ∃ copy product outcome after p, t.setRow 1 (.identity 2) = .ok copy ∧
        copy.rowsumAll 1 (t.factors 0) = .ok product ∧
        (t.factors 0).foldl (fun u i => u.multiplyInPlace 1 i) copy = product ∧
        t.measure 0 coins = .ok (outcome, after, coins) ∧
        product.readRow 1 = .ok p ∧ after.scratch.toPauli = p ∧
        outcome = .deterministic p.sign.toBit := by
  intro t coins
  have determined : t.isDeterministic 0 = .ok true := by rfl
  exact ⟨by decide, by decide, determined, rowsumAll_eq_scratch determined 1 coins⟩

end Tableau

end Stabilizer
