import Stabilizer.Proofs.StoredRows
/-!
# Measurement in containers

A measurement reads a column bit by bit.  If no stabilizer has an X part there, it builds a product in the
scratch vectors; otherwise it multiplies rows in place, overwrites one and draws a coin.  In the end the
containers and the coins are those that a measurement of the rows leaves.
-/

namespace Stabilizer

variable {n : Nat}

namespace Storage

open Program Tableau

variable (t : Tableau n)

/-! ## Reading a column -/

theorem run_findM? {ι : Type} {f : Nat → Program Storage Bool} {index : ι → Nat} {found : ι → Bool}
    (read : ∀ i, (f (index i)).run t.storage = .returned (found i) t.storage) (l : List ι) :
    ((l.map index).findM? f).run t.storage = .returned ((l.find? found).map index) t.storage := by
  induction l with
  | nil => rfl
  | cons i l ih =>
    rw [List.map_cons, List.findM?, run_bind, read, Ending.andThen_returned, List.find?_cons]
    cases found i
    · exact ih
    · rfl

theorem run_pivot? (q : Fin n) :
    (pivot? q).run t.storage = .returned ((t.pivot? q).map fun i => (stabIndex i).val) t.storage := by
  rw [pivot?, run_bind, run_numQubits, Ending.andThen_returned, range'_eq_stabIndex,
    run_findM? t fun i => run_readX t (stabIndex i) q]
  rfl

theorem run_isDeterministic (q : Nat) :
    (isDeterministic q).run t.storage =
      .check t.storage (t.isDeterministic q) fun b => .returned b t.storage := by
  rw [isDeterministic, run_bind, run_checkQubit]
  obtain hq | hq := Nat.lt_or_ge q n
  · rw [qubitIndex, dif_pos hq, Ending.check_ok, Ending.andThen_returned, run_bind,
      run_pivot? t ⟨q, hq⟩, Ending.andThen_returned, run_pure, Option.isNone_map,
      isDeterministic_eq t ⟨q, hq⟩, Ending.check_ok]
  · rw [Tableau.isDeterministic, qubitIndex, dif_neg (Nat.not_lt.2 hq)]
    rfl

/-! ## The scratch row -/

theorem overwrite_all {v : Array Bool} {bits : List Bool} (h : bits.length = v.size) :
    overwrite v bits = bits.toArray := by
  rw [overwrite, List.drop_eq_nil_of_le (by simp [h]), List.append_nil]

theorem run_resetScratch :
    resetScratch.run t.storage = .returned () { t with scratch := Row.one n : Tableau n }.storage := by
  rw [resetScratch, run_bind, run_state, Ending.andThen_returned, run_setState]
  simp [storage, Row.one, half, row]

/-- Multiplying a row into the scratch vectors. -/
theorem run_multiplyScratch (i : Fin (2 * n)) :
    (multiplyScratch i).run t.storage =
      .returned () { t with scratch := t.scratch.mul (t.row i) : Tableau n }.storage := by
  let sites := (t.row i).sites t.scratch
  have x : overwrite t.scratch.x.toArray (sites.map fun site => site.xTarget ^^ site.xSource) =
      (t.scratch.mul (t.row i)).x.toArray := by
    rw [overwrite_all (by simp [sites, Row.sites])]
    exact Array.ext (by simp [sites, Row.sites]) fun k _ _ => by simp [sites, Row.sites]
  have z : overwrite t.scratch.z.toArray (sites.map fun site => site.zTarget ^^ site.zSource) =
      (t.scratch.mul (t.row i)).z.toArray := by
    rw [overwrite_all (by simp [sites, Row.sites])]
    exact Array.ext (by simp [sites, Row.sites]) fun k _ _ => by simp [sites, Row.sites]
  have bits : zipSites (t.row i).x.toList (t.row i).z.toList t.storage.scratch.x.toList
      t.storage.scratch.z.toList = sites := zipSites_eq_sites (t.row i) t.scratch
  simp only [multiplyScratch, run_bind, run_readSign, run_readLine, Ending.andThen_returned, run_state,
    run_setState, lettersAt, (t.row _).ofFn_bit, bits]
  exact congrArg (Ending.returned ()) (congrArg _ (congrArg₂ (Scratch.mk · · _) x z))

/-- The scratch vectors take in the stabilizers whose destabilizers have an X part at the qubit. -/
theorem run_determine (q : Fin n) :
    (determine q).run t.storage =
      .returned (t.determined q).minus { t with scratch := t.determined q : Tableau n }.storage := by
  let step (u : Tableau n) (i : Fin n) : Tableau n :=
    if (u.destabilizer i).x.get q then { u with scratch := u.scratch.mul (u.stabilizer i) } else u
  have loop : ((List.range n).forM fun i => do
        if ← readBit .x i q then multiplyScratch (n + i)).run
          { t with scratch := Row.one n : Tableau n }.storage =
      .returned () ((List.finRange n).foldl step { t with scratch := Row.one n }).storage := by
    refine run_forM _ fun u i => ?_
    show ((readBit .x (destabIndex i) q).run u.storage).andThen _ = _
    rw [run_readX, Ending.andThen_returned, row_destabIndex]
    by_cases taken : (u.destabilizer i).x.get q = true
    · simp only [step, if_pos taken]
      exact run_multiplyScratch u (stabIndex i)
    · simp only [step, if_neg taken, run_pure]
  have product (a : Row n) (l : List (Fin n)) : l.foldl step { t with scratch := a } =
      { t with
        scratch := l.foldl
          (fun product i =>
            if (t.destabilizer i).x.get q then product.mul (t.stabilizer i) else product) a } := by
    induction l generalizing a with
    | nil => rfl
    | cons i l ih =>
      rw [List.foldl_cons, List.foldl_cons, ← ih]
      refine congrArg (List.foldl step · l) ?_
      show (if (t.destabilizer i).x.get q then _ else _) = _
      split <;> rfl
  rw [product] at loop
  simp only [determine, run_bind, run_resetScratch, Ending.andThen_returned, run_numQubits, loop,
    run_state, run_pure]
  rfl

/-! ## Replacing the pivot -/

theorem run_clear (q : Fin n) (p : Fin (2 * n)) :
    ((List.range (2 * n)).forM fun i => do
      if i ≠ p then
        if ← readBit .x i q then multiply i p).run t.storage =
      .returned () (t.clear q p).storage := by
  refine run_forM t fun u i => ?_
  by_cases same : i = p
  · simp [same]
  · have apart : i.val ≠ p.val := fun same' => same (Fin.ext same')
    rw [if_pos apart, run_bind, run_readX, Ending.andThen_returned]
    cases taken : (u.row i).x.get q
    · simp
    · simpa [same] using run_multiply u i p

theorem run_clearLine (h : Half) (i : Fin (2 * n)) :
    (clearLine h i).run t.storage =
      .returned () (t.mapColumns fun _ l => Function.update l i ((l i).withBit h false)).storage := by
  have inside : ¬ (t.half h).rows ≤ i.val := Nat.not_le.2 i.isLt
  rw [clearLine, run_bind, run_state, Ending.andThen_returned, matrix_storage, if_neg inside]
  exact run_eachColumnOf t h fun u c l => run_writeBit u h i c false l

/-- Clearing both halves of a row and setting one bit leaves the sign and a `Z` on the qubit. -/
theorem run_replaceLetters (i : Fin (2 * n)) (q : Fin n) :
    (do
      clearLine .x i
      clearLine .z i
      writeBit .z i q true : Program Storage Unit).run t.storage =
      .returned () (t.put i (Row.singleZ n (t.row i).minus q)).storage := by
  let cleared := (t.mapColumns fun _ l => Function.update l i ((l i).withBit .x false)).mapColumns
    fun _ l => Function.update l i ((l i).withBit .z false)
  have letters (k : Fin n) : cleared.lettersAt k = Function.update (t.lettersAt k) i .I := by
    rw [lettersAt_mapColumns, lettersAt_mapColumns, Function.update_self, Function.update_idem]
    exact congrArg _ (Pauli.withBit_bit _ .I)
  have single : cleared.putColumn q (Function.update (cleared.lettersAt q) i
      ((cleared.lettersAt q i).withBit .z true)) = t.put i (Row.singleZ n (t.row i).minus q) := by
    refine ext_letters (fun j => ?_) (fun k => ?_) rfl
    · rw [minus_putColumn, minus_mapColumns, minus_mapColumns, minus_put]
      split
      · next same => rw [same]; rfl
      · rfl
    · rw [lettersAt_putColumn, lettersAt_put, letters, letters, Function.update_self,
        Function.update_idem, Row.letter_singleZ]
      split
      · next same => rw [same]; rfl
      · rfl
  have written := run_writeBit cleared .z i q true (cleared.lettersAt q)
  rw [putColumn_lettersAt, single] at written
  simp only [run_bind, run_clearLine, Ending.andThen_returned]
  exact written

/-- Everything that a random outcome does before the coin is drawn. -/
theorem run_collapse (q p : Fin n) :
    ∃ minus, (collapse q (stabIndex p)).run t.storage = .returned () (t.collapse q p minus).storage := by
  have destabilizer : (stabIndex p).val - n = (destabIndex p).val := Nat.add_sub_cancel_left n p
  refine ⟨(((t.clear q (stabIndex p)).copy (stabIndex p) (destabIndex p)).row (stabIndex p)).minus, ?_⟩
  rw [collapse, run_bind, run_numQubits, Ending.andThen_returned, run_bind, run_clear,
    Ending.andThen_returned, run_bind, destabilizer, run_copy, Ending.andThen_returned,
    run_replaceLetters, Tableau.collapse]

theorem putSign_collapse (q p : Fin n) (minus bit : Bool) :
    (t.collapse q p minus).putSign (stabIndex p) bit = t.collapse q p bit := by
  refine ext_row (fun i => ?_) rfl
  simp only [row_putSign, Tableau.collapse, row_put]
  split <;> rfl

end Storage

/-! ## Measuring -/

namespace Machine

open Program Tableau Storage

variable (t : Tableau n) (coins : Coins)

theorem run_draw (s : Storage) : draw.run (s, coins) = .returned coins.next (s, coins.advance) := rfl

/-- A measurement in containers is the measurement of the rows. -/
theorem run_measure (q : Nat) :
    (measure q).run (t.storage, coins) =
      .check (t.storage, coins) (t.measure q coins) fun r => .returned r.1 (r.2.1.storage, r.2.2) := by
  rw [measure, run_bind, run_onFirst, run_checkQubit]
  obtain hq | hq := Nat.lt_or_ge q n
  · have pivot := run_pivot? t ⟨q, hq⟩
    rw [qubitIndex, dif_pos hq, Ending.check_ok, Ending.mapState_returned, Ending.andThen_returned,
      run_bind, run_onFirst, pivot, Ending.mapState_returned, Ending.andThen_returned]
    cases found : t.pivot? ⟨q, hq⟩ with
    | none =>
      rw [measure_of_none (q := ⟨q, hq⟩) found, Option.map_none, run_bind, run_onFirst,
        run_determine t ⟨q, hq⟩]
      rfl
    | some p =>
      obtain ⟨minus, collapsed⟩ := run_collapse t ⟨q, hq⟩ p
      rw [measure_of_some (q := ⟨q, hq⟩) found, Option.map_some, run_bind, run_onFirst, collapsed,
        Ending.mapState_returned, Ending.andThen_returned, run_bind, run_draw, Ending.andThen_returned,
        run_bind, run_onFirst, run_writeSign, putSign_collapse]
      rfl
  · rw [measure_of_le hq, qubitIndex, dif_neg (Nat.not_lt.2 hq)]
    rfl

end Machine

end Stabilizer
