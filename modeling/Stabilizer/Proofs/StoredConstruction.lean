import Stabilizer.Machine.Construction
import Stabilizer.Proofs.BasisState
import Stabilizer.Proofs.Records
import Stabilizer.Proofs.StoredGates
/-!
# Construction from words

The checks of the two words accept the numbers that a tableau of a basis state is built for, and refuse
the others for the same cause.  They do not ask whether the matrices fit in containers.  So where the
number of entries has an address, but is `2^63` or more, building is broken off; everywhere else the
containers that are filled in place are those of the tableau of the basis state.
-/

namespace Stabilizer

/-! ## The checks -/

/-- A word has no bits from its 64th on, so the state of 64 qubits or more need not be shifted. -/
theorem lost_bits_iff {n state : UInt64} :
    (n < 64 && state >>> n != 0) = true ↔ Nat.pow 2 n.toNat ≤ state.toNat := by
  have narrow : n < 64 ↔ n.toNat < 64 := UInt64.lt_iff_toNat_lt
  by_cases few : n.toNat < 64
  · have shifted : (state >>> n).toNat = state.toNat >>> n.toNat := by
      rw [UInt64.toNat_shiftRight, Nat.mod_eq_of_lt few]
    rw [decide_eq_true (narrow.2 few), Bool.true_and, bne_iff_ne, ne_eq, ← UInt64.toNat_inj, shifted]
    exact (not_congr Tableau.shiftRight_eq_zero_iff).trans Nat.not_lt
  · have short : state.toNat < Nat.pow 2 n.toNat :=
      Nat.lt_of_lt_of_le state.toNat_lt (Nat.pow_le_pow_right (by decide) (Nat.le_of_not_lt few))
    rw [decide_eq_false (mt narrow.1 few), Bool.false_and]
    exact iff_of_false Bool.false_ne_true (Nat.not_le.2 short)

theorem checkBasis_of_addressable {n : UInt64} (addressable : Addressable n.toNat) (state : UInt64) :
    ∃ rows, rows.toNat = 2 * n.toNat ∧
      checkBasis n state =
        if n < 64 && state >>> n != 0 then .error (.invalidInitialState state.toNat n.toNat)
        else .ok rows := by
  have nonzero : n ≠ 0 := fun zero => Nat.ne_of_gt addressable.1 (congrArg UInt64.toNat zero)
  obtain ⟨rows, counted, count⟩ := exists_rowCount? addressable.1 addressable.2
  exact ⟨rows, count, by rw [checkBasis, if_neg nonzero, counted]⟩

theorem checkBasis_of_refused {n state : UInt64} {error : Error}
    (h : Tableau.BasisRefused n.toNat state.toNat error) : checkBasis n state = .error error := by
  cases h with
  | noQubits none => exact if_pos (UInt64.toNat_inj.1 none)
  | tooManyQubits some many =>
    have nonzero : n ≠ 0 := fun zero => some (congrArg UInt64.toNat zero)
    rw [checkBasis, if_neg nonzero, rowCount?_eq_none many]
  | invalidInitialState addressable wide =>
    obtain ⟨rows, -, checked⟩ := checkBasis_of_addressable addressable state
    rw [checked, if_pos (lost_bits_iff.2 wide)]

/-- What is accepted are the numbers of a basis state, and the rows are counted right. -/
theorem checkBasis_of_fits {n state : UInt64} (addressable : Addressable n.toNat)
    (fits : state.toNat < Nat.pow 2 n.toNat) :
    ∃ rows, checkBasis n state = .ok rows ∧ rows.toNat = 2 * n.toNat := by
  obtain ⟨rows, count, checked⟩ := checkBasis_of_addressable addressable state
  refine ⟨rows, ?_, count⟩
  rw [checked, if_neg (mt lost_bits_iff.1 (Nat.not_le.2 fits))]

namespace Tableau

/-! ## Rows -/

/-- The bits of the word are those of the number. -/
theorem basisOfWord_eq (n state : UInt64) (h : Addressable n.toNat) :
    basisOfWord n state h = basis n.toNat state.toNat h := by
  rw [basisOfWord, basis, mk.injEq]
  refine ⟨congrArg Vector.ofFn (funext fun i => ?_), rfl⟩
  split
  · rfl
  · next high =>
    exact congrArg (Row.singleZ n.toNat · _) (bigEndianBit_ofNat (upperIndex i high).isLt)

/-- Building in words is building in numbers, where the entries fit in containers. -/
theorem build_eq (n state : UInt64) :
    build n state =
      .check () (ofBasisState n.toNat state.toNat) fun t =>
        if FitsContainer (2 * n.toNat * n.toNat) then .returned t () else .aborted .capacityOverflow := by
  unfold build
  obtain ⟨addressable, fits⟩ | ⟨error, refused⟩ := fits_or_refused n.toNat state.toNat
  · obtain ⟨rows, accepted, count⟩ := checkBasis_of_fits addressable fits
    rw [ofBasisState_of_fits addressable fits, Ending.check_ok]
    split
    · next error checked => cases checked.symm.trans accepted
    · next rows' checked =>
      cases checked.symm.trans accepted
      rw [count, basisOfWord_eq]
  · rw [ofBasisState_of_refused refused, Ending.check_error]
    split
    · next error' checked =>
      cases checked.symm.trans (checkBasis_of_refused refused)
      rfl
    · next checked => cases checked.symm.trans (checkBasis_of_refused refused)

/-! ## Filling -/

variable {n : Nat}

/-- Containers of zeros are those of a tableau of identities. -/
def blank (n : Nat) (h : Addressable n) : Tableau n :=
  ⟨Vector.ofFn fun _ => Row.one n, Row.one n, h⟩

theorem row_blank (h : Addressable n) (i : Fin (2 * n)) : (blank n h).row i = Row.one n := by
  simp [blank, row]

theorem storage_blank (h : Addressable n) :
    (blank n h).storage =
      ⟨n, BitMatrix.ofFn (2 * n) n fun _ _ => false, BitMatrix.ofFn (2 * n) n fun _ _ => false,
        Array.replicate (2 * n) false, Scratch.zero n⟩ := by
  have signs : (Array.ofFn fun _ : Fin (2 * n) => (Row.one n).minus) = Array.replicate (2 * n) false :=
    Array.ext (by simp) fun _ _ _ => by simp [Row.one]
  simp only [storage, half, row_blank, Row.letter_one, signs]
  simp [blank, Row.one, Scratch.zero, Pauli.bit, Pauli.xBit, Pauli.zBit]

/-- The two rows of a qubit are filled in. -/
def fill (bit : Fin n → Bool) (t : Tableau n) (i : Fin n) : Tableau n :=
  ((t.put (destabIndex i) ((t.destabilizer i).setBit .x i true)).put (stabIndex i)
    ((t.stabilizer i).setBit .z i true)).putSign (stabIndex i) (bit i)

theorem destabilizer_fill (bit : Fin n → Bool) (t : Tableau n) (i k : Fin n) :
    (t.fill bit i).destabilizer k =
      if k = i then (t.destabilizer i).setBit .x i true else t.destabilizer k := by
  rw [destabilizer, fill, row_putSign, if_neg (destabIndex_ne_stabIndex k i), row_put,
    if_neg (destabIndex_ne_stabIndex k i), row_put]
  simp only [destabIndex_inj, row_destabIndex]

theorem stabilizer_fill (bit : Fin n → Bool) (t : Tableau n) (i k : Fin n) :
    (t.fill bit i).stabilizer k =
      if k = i then { (t.stabilizer i).setBit .z i true with minus := bit i } else t.stabilizer k := by
  rw [stabilizer, fill, row_putSign, row_put, if_pos rfl, row_put, row_put,
    if_neg (stabIndex_ne_destabIndex k i)]
  simp only [stabIndex_inj]
  split <;> rfl

theorem foldl_fill_blank (state : Nat) (h : Addressable n) :
    (List.finRange n).foldl (fill fun i => state.testBit (n - 1 - i)) (blank n h) =
      basis n state h := by
  let bit (i : Fin n) : Bool := state.testBit (n - 1 - i)
  have singleX (k : Fin n) : (Row.one n).setBit .x k true = Row.singleX n k := by
    refine Row.ext_letter rfl fun j => ?_
    rw [Row.letter_setBit, Row.letter_singleX, Row.letter_one, Row.letter_one]
    rfl
  have singleZ (minus : Bool) (k : Fin n) :
      { (Row.one n).setBit .z k true with minus := minus } = Row.singleZ n minus k := by
    refine Row.ext_letter rfl fun j => ?_
    show ((Row.one n).setBit .z k true).letter j = _
    rw [Row.letter_setBit, Row.letter_singleZ, Row.letter_one, Row.letter_one]
    rfl
  have scratch : ((List.finRange n).foldl (fill bit) (blank n h)).scratch = Row.one n :=
    foldl_kept Tableau.scratch (fun u i => (rfl : (u.fill bit i).scratch = u.scratch)) _ _
  refine ext_row (fun i => ?_) scratch
  obtain ⟨k, rfl⟩ | ⟨k, rfl⟩ := index_cases i
  · rw [row_destabIndex, row_destabIndex, destabilizer_basis,
      foldl_parts destabilizer (fun i a => a.setBit .x i true) (destabilizer_fill bit)
        (List.nodup_finRange n) _ k,
      if_pos (List.mem_finRange k), ← singleX, destabilizer, row_blank]
  · rw [row_stabIndex, row_stabIndex, stabilizer_basis,
      foldl_parts stabilizer (fun i a => { a.setBit .z i true with minus := bit i })
        (stabilizer_fill bit) (List.nodup_finRange n) _ k,
      if_pos (List.mem_finRange k), ← singleZ, stabilizer, row_blank]

end Tableau

namespace Storage

open Program Tableau

/-- Filling the rows of every qubit. -/
theorem run_fill {n : Nat} (t : Tableau n) (word : Nat → Bool) (bit : Fin n → Bool)
    (same : ∀ i : Fin n, word i = bit i) :
    ((List.range n).forM fun i => do
      writeBit .x i i true
      writeBit .z (n + i) i true
      writeSign (n + i) (word i)).run t.storage =
      .returned () ((List.finRange n).foldl (fill bit) t).storage := by
  refine run_forM t fun u i => ?_
  have stabilizer (a : Row n) : (u.put (destabIndex i) a).row (stabIndex i) = u.stabilizer i := by
    rw [row_put, if_neg (stabIndex_ne_destabIndex i i)]
    rfl
  show ((writeBit .x (destabIndex i) i true).run u.storage).andThen _ = _
  rw [run_writeBit_row, Ending.andThen_returned]
  show ((writeBit .z (stabIndex i) i true).run _).andThen _ = _
  rw [run_writeBit_row, Ending.andThen_returned, stabilizer]
  show (writeSign (stabIndex i) (word i)).run _ = _
  rw [run_writeSign, same]
  rfl

/-- The containers that are made and filled are those of the tableau of the basis state. -/
theorem new_of_fits {n state : UInt64} (addressable : Addressable n.toNat)
    (fits : state.toNat < Nat.pow 2 n.toNat) (capacity : FitsContainer (2 * n.toNat * n.toNat)) :
    (new n state).run () = .returned (basis n.toNat state.toNat addressable).storage () := by
  obtain ⟨rows, accepted, count⟩ := checkBasis_of_fits addressable fits
  have short : FitsContainer (2 * n.toNat) :=
    Nat.lt_of_le_of_lt (Nat.le_mul_of_pos_right _ addressable.1) capacity
  have filled := run_fill (blank n.toNat addressable) (fun i => bigEndianBit state n (UInt64.ofNat i))
    (fun i => state.toNat.testBit (n.toNat - 1 - i)) fun i => bigEndianBit_ofNat i.isLt
  rw [foldl_fill_blank, storage_blank] at filled
  rw [new, run_bind, accepted, run_ofExcept_ok, Ending.andThen_returned, count]
  simp only [allocate, allocateVector, if_pos capacity, if_pos short, run_bind, run_pure,
    Ending.andThen_returned]
  exact run_within_of_returned _ filled

/-- Building a tableau that is put in containers, if its entries fit in them. -/
def ofResult {n : Nat} (result : Except Error (Tableau n)) : Ending Unit Storage :=
  .check () result fun t =>
    if FitsContainer (2 * n * n) then .returned t.storage () else .aborted .capacityOverflow

theorem exists_of_ofResult {n : Nat} {result : Except Error (Tableau n)} {s : Storage}
    (built : ofResult result = .returned s ()) : ∃ t : Tableau n, s = t.storage := by
  cases result with
  | error e => cases built
  | ok t =>
    rw [ofResult, Ending.check_ok] at built
    split at built
    · cases built
      exact ⟨t, rfl⟩
    · cases built

/-- Matrices that are too large are not made. -/
theorem run_new (n state : UInt64) :
    (new n state).run () = ofResult (ofBasisState n.toNat state.toNat) := by
  rw [ofResult]
  obtain ⟨addressable, fits⟩ | ⟨error, refused⟩ := fits_or_refused n.toNat state.toNat
  · rw [ofBasisState_of_fits addressable fits, Ending.check_ok]
    split
    · next capacity => exact new_of_fits addressable fits capacity
    · next large =>
      obtain ⟨rows, accepted, count⟩ := checkBasis_of_fits addressable fits
      rw [new, run_bind, accepted, run_ofExcept_ok, Ending.andThen_returned, count, run_bind, allocate,
        if_neg large, run_abort, Ending.andThen_aborted]
  · rw [ofBasisState_of_refused refused, Ending.check_error, new, run_bind,
      checkBasis_of_refused refused, run_ofExcept_error, Ending.andThen_failed]

/-- **Basis states are built exactly and measured back.**  An error is reported for its cause and for
nothing else.  A number that fits becomes a tableau whose rows are single letters, and whose measurements
are all determined and give the digits of the number; but if the entries of a matrix are too many for a
container, which no check asks, building is broken off. -/
theorem new_exact (n state : UInt64) :
    (∀ error, (new n state).run () = .failed error () ↔ BasisRefused n.toNat state.toNat error) ∧
      (Addressable n.toNat → state.toNat < Nat.pow 2 n.toNat →
        (2 * n.toNat * n.toNat < Nat.pow 2 63 →
          ∃ t bit, Tableau.build n state = .returned t () ∧
            (new n state).run () = .returned t.storage () ∧ t.Encodes state.toNat bit) ∧
        (Nat.pow 2 63 ≤ 2 * n.toNat * n.toNat →
          Tableau.build n state = .aborted .capacityOverflow ∧
            (new n state).run () = .aborted .capacityOverflow)) := by
  rw [run_new, ofResult, Tableau.build_eq]
  refine ⟨fun error => ?_, fun addressable fits => ?_⟩
  · rw [← ofBasisState_eq_error_iff]
    cases ofBasisState n.toNat state.toNat with
    | error e => simp
    | ok t =>
      rw [Ending.check_ok]
      split <;> simp
  · rw [ofBasisState_of_fits addressable fits, Ending.check_ok, Ending.check_ok]
    refine ⟨fun capacity => ?_, fun large => ?_⟩
    · exact ⟨_, _, if_pos capacity, if_pos capacity, encodes_basis fits⟩
    · exact ⟨if_neg (Nat.not_lt.2 large), if_neg (Nat.not_lt.2 large)⟩

/-- More qubits than a word has bits. -/
theorem new_exact_wide :
    Addressable (70 : UInt64).toNat ∧ (1 : UInt64).toNat < Nat.pow 2 (70 : UInt64).toNat ∧
      2 * (70 : UInt64).toNat * (70 : UInt64).toNat < Nat.pow 2 63 ∧
      ∃ t bit, Tableau.build 70 1 = .returned t () ∧ (new 70 1).run () = .returned t.storage () ∧
        t.Encodes (1 : UInt64).toNat bit := by
  have addressable : Addressable (70 : UInt64).toNat := by decide
  have fits : (1 : UInt64).toNat < Nat.pow 2 (70 : UInt64).toNat := by decide
  have capacity : 2 * (70 : UInt64).toNat * (70 : UInt64).toNat < Nat.pow 2 63 := by decide
  exact ⟨addressable, fits, capacity, ((new_exact 70 1).2 addressable fits).1 capacity⟩

/-- With `2^31` qubits in state 0 every check is passed, but there is no tableau. -/
theorem new_large :
    Addressable (2147483648 : UInt64).toNat ∧
      (0 : UInt64).toNat < Nat.pow 2 (2147483648 : UInt64).toNat ∧
      ∀ s, (new 2147483648 0).run () ≠ .returned s () := by
  have addressable : Addressable (2147483648 : UInt64).toNat := by decide
  have positive (m : Nat) : 0 < Nat.pow 2 m := Nat.two_pow_pos m
  have fits : (0 : UInt64).toNat < Nat.pow 2 (2147483648 : UInt64).toNat := positive _
  have large : ¬ FitsContainer (2 * (2147483648 : UInt64).toNat * (2147483648 : UInt64).toNat) := by
    decide
  refine ⟨addressable, fits, fun s built => ?_⟩
  rw [run_new, ofBasisState_of_fits addressable fits, ofResult, Ending.check_ok, if_neg large] at built
  cases built

/-! ## Records -/

/-- The number of qubits of a record is no word, but what is checked first makes it fit in one. -/
theorem new_zero {m : Nat} (word : m < Nat.pow 2 64) :
    (new (UInt64.ofNat m) 0).run () = ofResult (ofBasisState m 0) := by
  obtain ⟨n, rfl⟩ : ∃ n : UInt64, n.toNat = m := ⟨UInt64.ofNat m, UInt64.toNat_ofNat_of_lt' word⟩
  rw [UInt64.ofNat_toNat]
  exact run_new n 0

theorem shape_of_readMatrix {part : Part} {n : Nat} {rows : List (List Bool)} {m : BitMatrix}
    (h : Record.readMatrix part n rows = .ok m) : m.shape = [2 * n, n] := by
  obtain fits | ⟨found, fault⟩ := Record.fits_or_fault n rows
  · cases (Record.readMatrix_of_fits part fits).symm.trans h
    rfl
  · cases (Record.readMatrix_of_fault part fault).symm.trans h

/-- Parts that were checked replace those of any tableau. -/
theorem exists_setParts {n : Nat} (t : Tableau n) {bits : Array Bool} {xs zs : BitMatrix}
    (signs : bits.size = 2 * n) (hx : xs.shape = [2 * n, n]) (hz : zs.shape = [2 * n, n]) :
    ∃ u, (t.setSigns bits >>= fun t => t.setXParts xs >>= fun t => t.setZParts zs) = .ok u ∧
      (do
        setSigns bits
        setMatrix .x xs
        setMatrix .z zs : Program Storage Unit).run t.storage = .returned () u.storage := by
  obtain ⟨u, hu⟩ : ∃ u, t.setSigns bits = .ok u := ⟨_, dif_pos signs⟩
  obtain ⟨v, hv, -⟩ := exists_setHalf u .x hx
  obtain ⟨w, hw, -⟩ := exists_setHalf v .z hz
  refine ⟨w, ?_, ?_⟩
  · rw [hu]
    show (u.setHalf .x xs >>= fun t => t.setHalf .z zs) = _
    rw [hv]
    exact hw
  · simp only [run_bind, run_setSigns, hu, run_setMatrix, hv, hw, Ending.check_ok, Ending.andThen_returned]

/-- Reading a record into containers is reading a record, where the entries fit in containers. -/
theorem run_ofRecord (r : Record) : (ofRecord r).run () = ofResult (Tableau.ofRecord r) := by
  rw [ofRecord, Tableau.ofRecord]
  by_cases none : r.n = 0
  · rw [if_pos none, if_pos none]
    rfl
  rw [if_neg none, if_neg none, run_bind]
  by_cases signed : r.Signed
  · rw [Record.checkSigns_of_signed signed]
    cases hx : Record.readMatrix .xParts r.n r.xs with
    | error e => rfl
    | ok xs =>
      cases hz : Record.readMatrix .zParts r.n r.zs with
      | error e => rfl
      | ok zs =>
        have word : r.n < Nat.pow 2 64 := by have := signed.1; omega
        have size : r.rs.toArray.size = 2 * r.n := by simpa using signed.2
        show ((new (UInt64.ofNat r.n) 0).run ()).andThen _ =
          ofResult (ofBasisState r.n 0 >>= fun t =>
            t.setSigns r.rs.toArray >>= fun t => t.setXParts xs >>= fun t => t.setZParts zs)
        rw [new_zero word, ofResult, ofResult]
        cases ofBasisState r.n 0 with
        | error e => rfl
        | ok t =>
          obtain ⟨u, replaced, ran⟩ :=
            exists_setParts t size (shape_of_readMatrix hx) (shape_of_readMatrix hz)
          rw [Ending.check_ok, Ending.check_bind, Ending.check_ok, replaced, Ending.check_ok]
          split
          · exact run_within_of_returned _ ran
          · rfl
  · obtain ⟨e, refused⟩ : ∃ e, Record.checkSigns r.n r.rs = .error e := ⟨_, if_neg signed⟩
    rw [refused]
    rfl

end Storage

end Stabilizer
