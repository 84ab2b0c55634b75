import Stabilizer.Machine.Circuit
import Stabilizer.Proofs.StoredRows
/-!
# Gates in containers

A gate goes over copies of the containers row by row and then replaces all three, or flips signs where they
are.  Each row becomes the one that the gate makes of it, so the containers become those of the tableau
that the gate is applied to.
-/

namespace Stabilizer

variable {n : Nat}

/-! ## Rows, bit by bit -/

/-- The row with another bit in one of its halves. -/
def Row.setBit (a : Row n) (h : Half) (k : Fin n) (b : Bool) : Row n :=
  match h with
  | .x => { a with x := a.x.set k b k.isLt }
  | .z => { a with z := a.z.set k b k.isLt }

/-- The row with both bits at a qubit and the sign replaced. -/
def Row.update (k : Fin n) (f : Bool → Bool → Bool → Bool × Bool × Bool) (a : Row n) : Row n :=
  let (x, z, minus) := f (a.x.get k) (a.z.get k) a.minus
  { (a.setBit .x k x).setBit .z k z with minus := minus }

theorem Row.letter_setBit (a : Row n) (h : Half) (c k : Fin n) (b : Bool) :
    (a.setBit h c b).letter k = if k = c then (a.letter c).withBit h b else a.letter k := by
  obtain rfl | apart := eq_or_ne k c
  · cases h <;> simp [letter, setBit, Pauli.withBit]
  · have apart' : c.val ≠ k.val := fun same => apart (Fin.ext same.symm)
    cases h <;> simp [letter, setBit, apart, apart']

namespace Tableau

/-- All rows replaced by the same function of each. -/
def mapRows (t : Tableau n) (f : Row n → Row n) : Tableau n :=
  { t with rows := Vector.ofFn fun i => f (t.row i) }

/-- Replacing rows one after the other. -/
theorem foldl_put (f : Row n → Row n) (t : Tableau n) :
    (List.finRange (2 * n)).foldl (fun u i => u.put i (f (u.row i))) t = t.mapRows f := by
  let step (u : Tableau n) (i : Fin (2 * n)) : Tableau n := u.put i (f (u.row i))
  have scratch : ((List.finRange (2 * n)).foldl step t).scratch = t.scratch :=
    foldl_kept Tableau.scratch (fun u i => (rfl : (step u i).scratch = u.scratch)) _ t
  refine ext_row (fun j => ?_) scratch
  rw [foldl_parts row (fun _ => f) (fun u i k => u.row_put i k _) (List.nodup_finRange _) t j,
    if_pos (List.mem_finRange j), mapRows, row_ofFn]

end Tableau

namespace Storage

open Program Tableau

variable (t : Tableau n)

/-- Writing a bit of a row. -/
theorem run_writeBit_row (h : Half) (i : Fin (2 * n)) (c : Fin n) (b : Bool) :
    (writeBit h i c b).run t.storage = .returned () (t.put i ((t.row i).setBit h c b)).storage := by
  have written := run_writeBit t h i c b (t.lettersAt c)
  rw [putColumn_lettersAt] at written
  rw [written]
  refine congrArg (fun u : Tableau n => Ending.returned () u.storage)
    (ext_letters (fun j => ?_) (fun k => ?_) rfl)
  · rw [minus_putColumn, minus_put]
    split
    · next same => rw [same]; cases h <;> rfl
    · rfl
  · rw [lettersAt_putColumn, lettersAt_put, Row.letter_setBit]
    split
    · next same => rw [same]; rfl
    · exact (Function.update_eq_self i _).symm

theorem run_eachRow {body : Nat → Program Storage Unit} {f : Row n → Row n}
    (ran : ∀ (u : Tableau n) (i : Fin (2 * n)),
      (body i).run u.storage = .returned () (u.put i (f (u.row i))).storage) :
    (eachRow body).run t.storage = .returned () (t.mapRows f).storage := by
  rw [eachRow, run_bind, run_numQubits, Ending.andThen_returned, run_forM t ran, foldl_put]

/-! ## Replacing the containers -/

/-- What is done to copies is done to the tableau, when they have replaced its containers. -/
theorem run_rebuild {edit : Program Storage Unit} {u : Tableau n} (scratch : u.scratch = t.scratch)
    (ran : edit.run t.storage = .returned () u.storage) :
    (rebuild edit).run t.storage = .returned () u.storage := by
  have x := run_setMatrix_of_shape t.storage .x (m := u.half .x) rfl
  have z := run_setMatrix_of_shape (t.storage.withMatrix .x (u.half .x)) .z (m := u.half .z) rfl
  have size : u.storage.rs.size = 2 * n := Array.size_ofFn
  have signs := run_setSigns_of_size
    ((t.storage.withMatrix .x (u.half .x)).withMatrix .z (u.half .z)) size
  rw [rebuild, run_bind, run_state, Ending.andThen_returned, run_bind, run_within_of_returned _ ran,
    Ending.andThen_returned, run_bind]
  show ((setMatrix .x (u.half .x)).unwrap.run t.storage).andThen _ = _
  rw [run_unwrap_of_returned x, Ending.andThen_returned, run_bind]
  show ((setMatrix .z (u.half .z)).unwrap.run _).andThen _ = _
  rw [run_unwrap_of_returned z, Ending.andThen_returned, run_unwrap_of_returned signs]
  simp only [storage, withMatrix, scratch]

theorem run_updateColumn (k : Fin n) (f : Bool → Bool → Bool → Bool × Bool × Bool) :
    (updateColumn k f).run t.storage = .returned () (t.mapRows (Row.update k f)).storage := by
  refine run_rebuild t rfl (run_eachRow t fun u i => ?_)
  simp only [run_bind, run_readX, run_readZ, run_readSign, Ending.andThen_returned, run_writeBit_row,
    run_writeSign, putSign, row_put, if_true, put_put]
  rfl

/-- Bits and sign are written from the bits that were read, so it does not matter which is written first,
nor whether control and target are one qubit. -/
theorem run_cnot (a b : Fin n) :
    (gate (.cnot a b)).run t.storage = .returned () (t.mapRows (Row.cnot a b)).storage := by
  refine run_rebuild t rfl (run_eachRow t fun u i => ?_)
  simp only [run_bind, run_readX, run_readZ, run_readSign, Ending.andThen_returned, run_writeBit_row,
    run_writeSign, putSign, row_put, if_true, put_put]
  rfl

theorem run_bitFlip (k : Fin n) :
    (gate (.x k)).run t.storage = .returned () (t.mapRows (Row.bitFlip k)).storage := by
  refine run_eachRow t fun u i => ?_
  rw [run_bind, run_readZ, Ending.andThen_returned]
  by_cases set : (u.row i).z.get k = true
  · have flipped : (flipSign i).run u.storage = .returned () (u.negate i).storage := by
      rw [run_flipSign, Tableau.flipSign, rowIndex_fin]
      rfl
    rw [if_pos set, run_unwrap_of_returned flipped, negate, putSign, Row.bitFlip, set, Bool.xor_true]
  · have same : Row.bitFlip k (u.row i) = u.row i := by
      rw [Row.bitFlip, Bool.eq_false_of_not_eq_true set, Bool.xor_false]
    rw [if_neg set, same, put_row]
    rfl

theorem run_hadamard (k : Fin n) :
    (gate (.h k)).run t.storage = .returned () (t.mapRows (Row.hadamard k)).storage :=
  run_updateColumn t k fun x z minus => (z, x, minus ^^ (x && z))

theorem run_phase (k : Fin n) :
    (gate (.s k)).run t.storage = .returned () (t.mapRows (Row.phase k)).storage := by
  have phase : Row.update k (fun x z minus => (x, z ^^ x, minus ^^ (x && z))) = Row.phase k := by
    funext a
    simp [Row.update, Row.setBit, Row.phase]
  rw [← phase]
  exact run_updateColumn t k fun x z minus => (x, z ^^ x, minus ^^ (x && z))

/-- **A gate in containers is the gate on rows**, if its positions are in range. -/
theorem run_gate {g : Gate Nat} {located : Gate (Fin n)} (inRange : g.locate? n = some located) :
    (gate g).run t.storage = .returned () (t.apply located).storage := by
  cases g with
  | h k =>
    obtain ⟨hk, same⟩ := Option.dite_none_right_eq_some.1 inRange
    cases same
    exact run_hadamard t ⟨k, hk⟩
  | s k =>
    obtain ⟨hk, same⟩ := Option.dite_none_right_eq_some.1 inRange
    cases same
    exact run_phase t ⟨k, hk⟩
  | x k =>
    obtain ⟨hk, same⟩ := Option.dite_none_right_eq_some.1 inRange
    cases same
    exact run_bitFlip t ⟨k, hk⟩
  | cnot a b =>
    obtain ⟨h, same⟩ := Option.dite_none_right_eq_some.1 inRange
    cases same
    exact run_cnot t ⟨a, h.1⟩ ⟨b, h.2⟩

/-! ## Positions out of range -/

theorem run_readBit_of_le {k : Nat} (outside : n ≤ k) (h : Half) (i : Nat) :
    (readBit h i k).run t.storage = .aborted .outOfRange := by
  have nothing : (t.half h).get? i k = none := dif_neg fun inside => Nat.not_lt.2 outside inside.2
  rw [readBit, run_bind, run_state, Ending.andThen_returned, matrix_storage, nothing]
  rfl

/-- There is a row 0, and what happens there happens first. -/
theorem run_eachRow_of_aborted {body : Nat → Program Storage Unit} {crash : Crash}
    (first : (body 0).run t.storage = .aborted crash) :
    (eachRow body).run t.storage = .aborted crash := by
  obtain ⟨m, rows⟩ : ∃ m, 2 * n = m + 1 :=
    Nat.exists_eq_add_one.2 (Nat.mul_pos (by decide) t.addressable.1)
  rw [eachRow, run_bind, run_numQubits, Ending.andThen_returned, rows, List.range_succ_eq_map]
  show ((body 0).run t.storage).andThen _ = _
  rw [first, Ending.andThen_aborted]

theorem run_rebuild_of_aborted {edit : Program Storage Unit} {crash : Crash}
    (ran : edit.run t.storage = .aborted crash) : (rebuild edit).run t.storage = .aborted crash := by
  rw [rebuild, run_bind, run_state, Ending.andThen_returned, run_bind, run_within_of_aborted _ ran,
    Ending.andThen_aborted]

/-- A gate at a position that there is not is broken off at the first row. -/
theorem run_gate_of_none {g : Gate Nat} (outOfRange : g.locate? n = none) :
    (gate g).run t.storage = .aborted .outOfRange := by
  have column {k : Nat} (outside : n ≤ k) (f : Bool → Bool → Bool → Bool × Bool × Bool) :
      (updateColumn k f).run t.storage = .aborted .outOfRange := by
    refine run_rebuild_of_aborted t (run_eachRow_of_aborted t ?_)
    rw [run_bind, run_readBit_of_le t outside, Ending.andThen_aborted]
  cases g with
  | h k =>
    have outside : n ≤ k := by simpa [Gate.locate?] using outOfRange
    exact column outside fun x z minus => (z, x, minus ^^ (x && z))
  | s k =>
    have outside : n ≤ k := by simpa [Gate.locate?] using outOfRange
    exact column outside fun x z minus => (x, z ^^ x, minus ^^ (x && z))
  | x k =>
    have outside : n ≤ k := by simpa [Gate.locate?] using outOfRange
    refine run_eachRow_of_aborted t ?_
    rw [run_bind, run_readBit_of_le t outside, Ending.andThen_aborted]
  | cnot a b =>
    have outside : a < n → n ≤ b := by simpa [Gate.locate?] using outOfRange
    have first : 0 < 2 * n := Nat.mul_pos (by decide) t.addressable.1
    refine run_rebuild_of_aborted t (run_eachRow_of_aborted t ?_)
    obtain ha | ha := Nat.lt_or_ge a n
    · have x := run_readX t ⟨0, first⟩ ⟨a, ha⟩
      have z := run_readZ t ⟨0, first⟩ ⟨a, ha⟩
      rw [run_bind, x, Ending.andThen_returned, run_bind, z, Ending.andThen_returned, run_bind,
        run_readBit_of_le t (outside ha), Ending.andThen_aborted]
    · rw [run_bind, run_readBit_of_le t ha, Ending.andThen_aborted]

end Storage

end Stabilizer
