import Stabilizer.Proofs.StoredTableau
/-!
# Row operations in containers

Products, copies, exchanges and strings are written entry by entry, into two matrices and a vector of
signs.  Together the writes of an operation do to the rows what the operation is on rows as a whole, and
what its checks refuse is left as it is (`Ending.check`).
-/

namespace Stabilizer

variable {n : Nat}

/-! ## Checks -/

/-- The end after a check: what follows if it is passed, and else a failure that leaves the state as it
is. -/
def Ending.check {σ α β : Type} (s : σ) (result : Except Error α) (next : α → Ending σ β) : Ending σ β :=
  match result with
  | .ok a => next a
  | .error e => .failed e s

@[simp] theorem Ending.check_ok {σ α β : Type} (s : σ) (a : α) (next : α → Ending σ β) :
    check s (.ok a) next = next a := rfl

@[simp] theorem Ending.check_error {σ α β : Type} (s : σ) (e : Error) (next : α → Ending σ β) :
    check s (.error e) next = .failed e s := rfl

theorem Ending.check_bind {σ α β γ : Type} (s : σ) (result : Except Error α) (f : α → Except Error β)
    (next : β → Ending σ γ) :
    check s (result >>= f) next = check s result fun a => check s (f a) next := by
  cases result <;> rfl

namespace Tableau

/-- One of the two parts replaced, if it has the right dimensions. -/
def setHalf (t : Tableau n) : Half → BitMatrix → Except Error (Tableau n)
  | .x => t.setXParts
  | .z => t.setZParts

end Tableau

namespace Pauli

@[simp] theorem withBit_bit (p q : Pauli) : (p.withBit .x (q.bit .x)).withBit .z (q.bit .z) = q := by
  cases p <;> cases q <;> rfl

@[simp] theorem withBit_bit_self (p : Pauli) (h : Half) : p.withBit h (p.bit h) = p := by
  cases h <;> cases p <;> rfl

/-- Adding both bits is multiplying. -/
theorem withBit_xor (p q : Pauli) :
    let p' := p.withBit .x (p.bit .x ^^ q.bit .x)
    p'.withBit .z (p'.bit .z ^^ q.bit .z) = q.times p := by
  cases p <;> cases q <;> rfl

theorem zipWith_ofBits (f : Fin n → Pauli) :
    List.zipWith ofBits (List.ofFn fun k => (f k).bit .x) (List.ofFn fun k => (f k).bit .z) =
      List.ofFn f := by
  refine List.ext_getElem (by simp) fun k _ _ => ?_
  simp [bit]

end Pauli

theorem Row.ofFn_bit (a : Row n) :
    (List.ofFn fun k => (a.letter k).bit .x) = a.x.toList ∧
      (List.ofFn fun k => (a.letter k).bit .z) = a.z.toList :=
  ⟨List.ext_getElem (by simp) fun k _ _ => by simp [letter, Pauli.bit],
    List.ext_getElem (by simp) fun k _ _ => by simp [letter, Pauli.bit]⟩

namespace Storage

open Program Tableau

variable (t : Tableau n)

theorem run_readBit_column (h : Half) (i : Fin (2 * n)) (c : Fin n) (l : Fin (2 * n) → Pauli) :
    (readBit h i c).run (t.putColumn c l).storage = .returned ((l i).bit h) (t.putColumn c l).storage := by
  rw [run_readBit, lettersAt_putColumn_self]

theorem run_addBit (h : Half) (i : Fin (2 * n)) (c : Fin n) (b : Bool) (l : Fin (2 * n) → Pauli) :
    (addBit h i c b).run (t.putColumn c l).storage =
      .returned () (t.putColumn c (Function.update l i ((l i).withBit h ((l i).bit h ^^ b)))).storage := by
  rw [addBit, run_bind, run_readBit_column, Ending.andThen_returned, run_writeBit]

/-! ## Products -/

/-- The bits of two rows side by side are their sites. -/
theorem zipSites_eq_sites (a b : Row n) :
    zipSites a.x.toList a.z.toList b.x.toList b.z.toList = a.sites b := by
  refine List.ext_getElem (by simp [zipSites, Row.sites]) fun k _ _ => ?_
  simp [zipSites, Row.sites]

/-- Multiplying in place is multiplying rows. -/
theorem run_multiply (i j : Fin (2 * n)) :
    (multiply i j).run t.storage = .returned () (t.multiply i j).storage := by
  let signed := t.putSign i ((t.row i).mul (t.row j)).minus
  let g : Fin n → (Fin (2 * n) → Pauli) → Fin (2 * n) → Pauli :=
    fun _ l => Function.update l i ((l j).times (l i))
  have product : signed.mapColumns g = t.multiply i j := by
    refine ext_letters (fun k => ?_) (fun k => ?_) rfl
    · rw [minus_mapColumns, minus_putSign, Tableau.multiply, minus_put]
    · rw [lettersAt_mapColumns, lettersAt_putSign, Tableau.multiply, lettersAt_put, Row.letter_mul]
      rfl
  have columns : (eachColumn fun k => do
        let x ← readBit .x j k
        let z ← readBit .z j k
        addBit .x i k x
        addBit .z i k z).run signed.storage = .returned () (signed.mapColumns g).storage := by
    refine run_eachColumn signed fun u c l => ?_
    simp only [run_bind, run_readBit_column, Ending.andThen_returned, run_addBit]
    rw [Function.update_self, Function.update_idem, Pauli.withBit_xor]
  have sign : (t.row i |>.mul (t.row j)).minus =
      productSign (t.row i).minus (t.row j).minus ((t.row j).sites (t.row i)) := rfl
  rw [← product, ← columns]
  simp only [multiply, run_bind, run_readSign, run_readLine, Ending.andThen_returned, run_writeSign,
    lettersAt, (t.row _).ofFn_bit, zipSites_eq_sites, ← sign]
  rfl

/-! ## Copies and exchanges -/

/-- Copying bit by bit is copying a row.  Where a row is copied to itself, its Z bit is still there when
its X bit has been written. -/
theorem run_copy (i j : Fin (2 * n)) : (copy i j).run t.storage = .returned () (t.copy i j).storage := by
  let g : Fin n → (Fin (2 * n) → Pauli) → Fin (2 * n) → Pauli := fun _ l => Function.update l j (l i)
  have copied : (t.mapColumns g).putSign j (t.row i).minus = t.copy i j := by
    refine ext_letters (fun k => ?_) (fun k => ?_) rfl
    · rw [minus_putSign, minus_mapColumns, Tableau.copy, minus_put]
    · rw [lettersAt_putSign, lettersAt_mapColumns, Tableau.copy, lettersAt_put]
      rfl
  have columns : (eachColumn fun k => do
        writeBit .x j k (← readBit .x i k)
        writeBit .z j k (← readBit .z i k)).run t.storage = .returned () (t.mapColumns g).storage := by
    refine run_eachColumn t fun u c l => ?_
    have kept (b : Bool) : (Function.update l j ((l j).withBit .x b) i).bit .z = (l i).bit .z := by
      rw [Function.update_apply]
      split
      · next same => rw [Pauli.bit_withBit, same, if_neg (by decide)]
      · rfl
    simp only [run_bind, run_readBit_column, Ending.andThen_returned, run_writeBit, kept,
      Function.update_self, Function.update_idem, Pauli.withBit_bit]
    rfl
  rw [copy, run_bind, columns, Ending.andThen_returned, run_bind, run_readSign, Ending.andThen_returned,
    run_writeSign, minus_mapColumns, copied]

/-- One of the two bits exchanged between the letters of two rows. -/
def exchangeBits (h : Half) (i j : Fin (2 * n)) (l : Fin (2 * n) → Pauli) : Fin (2 * n) → Pauli :=
  Function.update (Function.update l i ((l i).withBit h ((l j).bit h))) j
    ((l j).withBit h ((l i).bit h))

theorem exchangeBits_self (h : Half) (i : Fin (2 * n)) (l : Fin (2 * n) → Pauli) :
    exchangeBits h i i l = l := by
  rw [exchangeBits, Function.update_idem, Pauli.withBit_bit_self, Function.update_eq_self]

/-- With both bits exchanged the letters are. -/
theorem exchangeBits_exchangeBits (i j : Fin (2 * n)) (l : Fin (2 * n) → Pauli) :
    exchangeBits .z i j (exchangeBits .x i j l) = Function.update (Function.update l i (l j)) j (l i) := by
  obtain rfl | apart := eq_or_ne i j
  · rw [exchangeBits_self, exchangeBits_self, Function.update_idem, Function.update_eq_self]
  · have first : exchangeBits .x i j l i = (l i).withBit .x ((l j).bit .x) := by
      rw [exchangeBits, Function.update_of_ne apart, Function.update_self]
    have second : exchangeBits .x i j l j = (l j).withBit .x ((l i).bit .x) := Function.update_self ..
    rw [exchangeBits, first, second, Pauli.bit_withBit, Pauli.bit_withBit, if_neg (by decide),
      if_neg (by decide), Pauli.withBit_bit, Pauli.withBit_bit, exchangeBits,
      Function.update_comm apart.symm, Function.update_idem, Function.update_idem]

/-- Exchanging the entries of two rows in one matrix.  For one row nothing is done. -/
theorem run_exchangeLines (h : Half) (i j : Fin (2 * n)) :
    (exchangeLines h i j).run t.storage =
      .returned () (t.mapColumns fun _ => exchangeBits h i j).storage := by
  have inside : ¬ ((t.half h).rows ≤ i.val ∨ (t.half h).rows ≤ j.val) := by
    rintro (none | none)
    · exact Nat.not_le.2 i.isLt none
    · exact Nat.not_le.2 j.isLt none
  rw [exchangeLines, run_bind, run_state, Ending.andThen_returned, matrix_storage, if_neg inside]
  split
  · next same =>
    obtain rfl := Fin.ext same
    have nothing : (t.mapColumns fun _ => exchangeBits h i i) = t :=
      ext_letters (t.minus_mapColumns _) (fun k => by rw [lettersAt_mapColumns, exchangeBits_self]) rfl
    rw [nothing, run_pure]
  · next apart =>
    have apart : j ≠ i := fun same => apart (congrArg Fin.val same.symm)
    refine run_eachColumnOf t h fun u c l => ?_
    simp only [run_bind, run_readBit_column, Ending.andThen_returned, run_writeBit,
      Function.update_of_ne apart]
    rfl

theorem run_exchangeSigns (i j : Fin (2 * n)) :
    (exchangeSigns i j).run t.storage =
      .returned () ((t.putSign i (t.row j).minus).putSign j (t.row i).minus).storage := by
  simp only [exchangeSigns, run_bind, run_readSign, run_writeSign, Ending.andThen_returned]

/-- Exchanging three parts is exchanging two rows. -/
theorem run_exchange (i j : Fin (2 * n)) :
    (do
      exchangeLines .x i j
      exchangeLines .z i j
      exchangeSigns i j : Program Storage Unit).run t.storage =
      .returned () (t.exchange i j).storage := by
  have exchanged (u : Tableau n) (hu : u = (t.mapColumns fun _ => exchangeBits .x i j).mapColumns
      fun _ => exchangeBits .z i j) :
      (u.putSign i (u.row j).minus).putSign j (u.row i).minus = t.exchange i j := by
    have minus (k : Fin (2 * n)) : (u.row k).minus = (t.row k).minus := by
      rw [hu, minus_mapColumns, minus_mapColumns]
    refine ext_letters (fun k => ?_) (fun k => ?_) (by rw [hu]; rfl)
    · simp only [minus_putSign, Tableau.exchange, minus_put, minus]
    · rw [lettersAt_putSign, lettersAt_putSign, hu, lettersAt_mapColumns, lettersAt_mapColumns,
        exchangeBits_exchangeBits, Tableau.exchange, lettersAt_put, lettersAt_put]
      rfl
  simp only [run_bind, run_exchangeLines, run_exchangeSigns, Ending.andThen_returned, exchanged _ rfl]

/-! ## Strings -/

/-- Storing a string letter by letter and then its sign is putting a row. -/
theorem run_storeLetters (i : Fin (2 * n)) {p : PauliString} (fits : p.letters.length = n) :
    (do
      p.letters.zipIdx.forM fun (letter, k) => do
        writeBit .x i k letter.xBit
        writeBit .z i k letter.zBit
      writeSign i p.sign.toBit : Program Storage Unit).run t.storage =
      .returned () (t.put i (Row.ofPauli p fits)).storage := by
  let letter (k : Nat) : Pauli := p.letters[k]?.getD .I
  let g : Fin n → (Fin (2 * n) → Pauli) → Fin (2 * n) → Pauli :=
    fun c l => Function.update l i (letter c)
  let write : Pauli × Nat → Program Storage Unit := fun (letter, k) => do
    writeBit .x i k letter.xBit
    writeBit .z i k letter.zBit
  have indexed : p.letters.zipIdx = (List.range n).map fun k => (letter k, k) :=
    List.ext_getElem (by simp [fits]) fun k hk _ => by
      have hk : k < p.letters.length := by simpa using hk
      simp [letter, hk]
  have columns : (p.letters.zipIdx.forM write).run t.storage = .returned () (t.mapColumns g).storage := by
    have loop : ((List.range n).map fun k => (letter k, k)).forM write =
        (List.range n).forM fun k => write (letter k, k) := List.forM_map
    rw [indexed, loop]
    refine run_forM_columns t fun u c l => ?_
    have both : ((l i).withBit .x (letter c).xBit).withBit .z (letter c).zBit = letter c :=
      Pauli.withBit_bit (l i) (letter c)
    simp only [write, run_bind, Ending.andThen_returned, run_writeBit, Function.update_self,
      Function.update_idem, both]
    rfl
  have stored : (t.mapColumns g).putSign i p.sign.toBit = t.put i (Row.ofPauli p fits) := by
    refine ext_letters (fun k => ?_) (fun k => ?_) rfl
    · rw [minus_putSign, minus_mapColumns, minus_put, Row.ofPauli]
    · have read : letter k = (Row.ofPauli p fits).letter k := by
        simp [letter, Row.letter, Row.ofPauli, fits]
      rw [lettersAt_putSign, lettersAt_mapColumns, lettersAt_put, ← read]
  rw [run_bind, columns, Ending.andThen_returned, run_writeSign, stored]

/-- Reading the bits of a row is reading its string. -/
theorem run_pauliAt (i : Fin (2 * n)) :
    (pauliAt i).run t.storage = .returned (t.row i).toPauli t.storage := by
  simp only [pauliAt, run_bind, run_readLine, run_readSign, Ending.andThen_returned, run_pure,
    Pauli.zipWith_ofBits]
  rfl

/-! ## Checked operations -/

theorem run_checkRow_bind {α : Type} (i : Nat) {p : Program Storage α}
    {f : Fin (2 * n) → Ending Storage α}
    (passed : ∀ k : Fin (2 * n), k.val = i → p.run t.storage = f k) :
    (checkRow i >>= fun _ => p).run t.storage = .check t.storage (rowIndex n i) f := by
  rw [run_bind, checkRow, run_bind, run_numQubits, Ending.andThen_returned, rowIndex]
  by_cases hi : i < 2 * n
  · rw [if_pos hi, dif_pos hi]
    exact passed ⟨i, hi⟩ rfl
  · rw [if_neg hi, dif_neg hi]
    rfl

theorem run_checkQubit (q : Nat) :
    (checkQubit q).run t.storage =
      .check t.storage (qubitIndex n q) fun _ => .returned () t.storage := by
  rw [checkQubit, run_bind, run_numQubits, Ending.andThen_returned, qubitIndex]
  split <;> rfl

theorem run_checkShape_bind {α : Type} (s : Storage) (part : Part) (expected found : List Nat)
    (p : Program Storage α) :
    (checkShape part expected found >>= fun _ => p).run s =
      if expected = found then p.run s else .failed (.shapeMismatch part expected found) s := by
  rw [run_bind, checkShape]
  split <;> rfl

theorem run_rowsum (target source : Nat) :
    (rowsum target source).run t.storage =
      .check t.storage (t.rowsum target source) fun u => .returned () u.storage := by
  rw [Tableau.rowsum, Ending.check_bind]
  refine run_checkRow_bind t target ?_
  rintro i rfl
  rw [Ending.check_bind]
  refine run_checkRow_bind t source ?_
  rintro j rfl
  exact run_multiply t i j

theorem run_copyRow (source target : Nat) :
    (copyRow source target).run t.storage =
      .check t.storage (t.copyRow source target) fun u => .returned () u.storage := by
  rw [Tableau.copyRow, Ending.check_bind]
  refine run_checkRow_bind t source ?_
  rintro i rfl
  rw [Ending.check_bind]
  refine run_checkRow_bind t target ?_
  rintro j rfl
  exact run_copy t i j

theorem run_swapRows (a b : Nat) :
    (swapRows a b).run t.storage =
      .check t.storage (t.swapRows a b) fun u => .returned () u.storage := by
  rw [Tableau.swapRows, Ending.check_bind]
  refine run_checkRow_bind t a ?_
  rintro i rfl
  rw [Ending.check_bind]
  refine run_checkRow_bind t b ?_
  rintro j rfl
  exact run_exchange t i j

theorem run_setSign (i : Nat) (minus : Bool) :
    (setSign i minus).run t.storage =
      .check t.storage (t.setSign i minus) fun u => .returned () u.storage := by
  rw [Tableau.setSign, Ending.check_bind]
  refine run_checkRow_bind t i ?_
  rintro i rfl
  exact run_writeSign t i minus

theorem run_flipSign (i : Nat) :
    (flipSign i).run t.storage =
      .check t.storage (t.flipSign i) fun u => .returned () u.storage := by
  rw [Tableau.flipSign, Ending.check_bind]
  refine run_checkRow_bind t i ?_
  rintro i rfl
  rw [run_bind, run_readSign, Ending.andThen_returned, run_writeSign]
  rfl

theorem run_setRow (i : Nat) (p : PauliString) :
    (setRow i p).run t.storage = .check t.storage (t.setRow i p) fun u => .returned () u.storage := by
  rw [Tableau.setRow, Ending.check_bind]
  refine run_checkRow_bind t i ?_
  rintro i rfl
  rw [run_bind, run_numQubits, Ending.andThen_returned, run_checkShape_bind, PauliString.length]
  by_cases fits : p.letters.length = n
  · rw [dif_pos fits, if_pos (by rw [fits])]
    exact run_storeLetters t i fits
  · rw [dif_neg fits, if_neg fun same => fits (List.singleton_inj.1 same).symm]
    rfl

theorem run_readRow (i : Nat) :
    (readRow i).run t.storage = .check t.storage (t.readRow i) fun p => .returned p t.storage := by
  rw [Tableau.readRow, Ending.check_bind]
  refine run_checkRow_bind t i ?_
  rintro i rfl
  exact run_pauliAt t i

/-! ## All rows -/

/-- Reading at every index of a list. -/
theorem run_mapM {α ι : Type} {f : Nat → Program Storage α} {index : ι → Nat} {value : ι → α}
    (read : ∀ i, (f (index i)).run t.storage = .returned (value i) t.storage) (l : List ι) :
    ((l.map index).mapM f).run t.storage = .returned (l.map value) t.storage := by
  induction l with
  | nil => rfl
  | cons i l ih =>
    rw [List.map_cons, List.mapM_cons, run_bind, read, Ending.andThen_returned, run_bind, ih]
    rfl

/-- The indices of the stabilizers. -/
theorem range'_eq_stabIndex (n : Nat) :
    List.range' n n = (List.finRange n).map fun i => (stabIndex i).val :=
  List.ext_getElem (by simp) fun i _ _ => by simp [stabIndex]

theorem run_stabilizers : stabilizers.run t.storage = .returned t.stabilizers t.storage := by
  rw [stabilizers, run_bind, run_numQubits, Ending.andThen_returned, range'_eq_stabIndex,
    run_mapM t fun i => run_pauliAt t (stabIndex i), Tableau.stabilizers, List.ofFn_eq_map]
  rfl

theorem run_destabilizers : destabilizers.run t.storage = .returned t.destabilizers t.storage := by
  have indices : List.range n = (List.finRange n).map fun i => (destabIndex i).val :=
    List.ext_getElem (by simp) fun i _ _ => by simp [destabIndex]
  rw [destabilizers, run_bind, run_numQubits, Ending.andThen_returned, indices,
    run_mapM t fun i => run_pauliAt t (destabIndex i), Tableau.destabilizers, List.ofFn_eq_map]
  rfl

theorem run_lines (h : Half) :
    (lines h).run t.storage =
      .returned ((List.finRange (2 * n)).map fun i => List.ofFn fun k => (t.lettersAt k i).bit h)
        t.storage := by
  have indices : List.range (2 * n) = (List.finRange (2 * n)).map Fin.val := by simp
  rw [lines, run_bind, run_state, Ending.andThen_returned, matrix_storage]
  show ((List.range (2 * n)).mapM (readLine h)).run _ = _
  rw [indices, run_mapM t fun i => run_readLine t h i]

theorem run_toRecord : toRecord.run t.storage = .returned t.toRecord t.storage := by
  have signs : t.storage.rs.toList = t.signs := by
    rw [signs_eq, storage, Array.toList_ofFn, List.ofFn_eq_map]
  simp only [toRecord, run_bind, run_state, Ending.andThen_returned, run_lines, run_pure, lettersAt,
    (t.row _).ofFn_bit, signs, ← xParts_eq, ← zParts_eq]
  rfl

/-! ## Parts -/

/-- Replacing one of the matrices by one of the same dimensions. -/
theorem withMatrix_of_shape (h : Half) {m : BitMatrix} {u : Tableau n} (fits : m.shape = [2 * n, n])
    (bits : ∀ i k, ((u.row i).letter k).bit h = (m.row fits i).get k)
    (kept : ∀ h', h' ≠ h → u.half h' = t.half h') (minus : ∀ i, (u.row i).minus = (t.row i).minus)
    (scratch : u.scratch = t.scratch) : t.storage.withMatrix h m = u.storage := by
  refine t.withMatrix_storage h minus scratch ?_ kept
  rw [half, ← BitMatrix.ofFn_row fits]
  exact congrArg (BitMatrix.ofFn (2 * n) n) (funext fun i => funext (bits i))

theorem run_setMatrix_of_shape (s : Storage) (h : Half) {m : BitMatrix} (fits : m.shape = [2 * s.n, s.n]) :
    (setMatrix h m).run s = .returned () (s.withMatrix h m) := by
  rw [setMatrix, run_bind, run_state, Ending.andThen_returned, run_checkShape_bind, if_pos fits.symm,
    run_setState]

theorem run_setSigns_of_size (s : Storage) {bits : Array Bool} (fits : bits.size = 2 * s.n) :
    (setSigns bits).run s = .returned () { s with rs := bits } := by
  rw [setSigns, run_bind, run_state, Ending.andThen_returned, run_checkShape_bind, if_pos (by rw [fits]),
    run_setState]

/-- The part of all rows that is one of the halves is replaced, and nothing else. -/
theorem exists_setHalf (h : Half) {m : BitMatrix} (fits : m.shape = [2 * n, n]) :
    ∃ u, t.setHalf h m = .ok u ∧ (∀ i k, ((u.row i).letter k).bit h = (m.row fits i).get k) ∧
      (∀ h', h' ≠ h → u.half h' = t.half h') ∧ (∀ i, (u.row i).minus = (t.row i).minus) ∧
      u.scratch = t.scratch := by
  cases h with
  | x =>
    refine ⟨_, dif_pos fits, fun i k => ?_, fun h' apart => ?_, fun i => ?_, rfl⟩
    · simp [row_ofFn, Row.letter, Pauli.bit]
    · cases h' with
      | x => exact absurd rfl apart
      | z => simp [half, row_ofFn, Row.letter, Pauli.bit]
    · simp [row_ofFn]
  | z =>
    refine ⟨_, dif_pos fits, fun i k => ?_, fun h' apart => ?_, fun i => ?_, rfl⟩
    · simp [row_ofFn, Row.letter, Pauli.bit]
    · cases h' with
      | x => simp [half, row_ofFn, Row.letter, Pauli.bit]
      | z => exact absurd rfl apart
    · simp [row_ofFn]

theorem run_setMatrix (h : Half) (m : BitMatrix) :
    (setMatrix h m).run t.storage =
      .check t.storage (t.setHalf h m) fun u => .returned () u.storage := by
  by_cases fits : m.shape = [2 * n, n]
  · obtain ⟨u, replaced, bits, kept, minus, scratch⟩ := exists_setHalf t h fits
    rw [run_setMatrix_of_shape t.storage h fits, replaced, Ending.check_ok,
      withMatrix_of_shape t h fits bits kept minus scratch]
  · have refused : t.setHalf h m = .error (.shapeMismatch h.part [2 * n, n] m.shape) := by
      cases h <;> exact dif_neg fits
    rw [setMatrix, run_bind, run_state, Ending.andThen_returned, run_checkShape_bind, n_storage,
      if_neg fun same => fits same.symm, refused, Ending.check_error]

theorem run_setSigns (bits : Array Bool) :
    (setSigns bits).run t.storage =
      .check t.storage (t.setSigns bits) fun u => .returned () u.storage := by
  by_cases fits : bits.size = 2 * n
  · rw [run_setSigns_of_size t.storage fits, Tableau.setSigns, dif_pos fits]
    refine congrArg (Ending.returned ()) (t.withSigns_storage (fun k => ?_) rfl ?_)
    · funext i
      simp only [lettersAt, row_ofFn, Row.letter]
    · exact Array.ext (by simp [storage, fits]) fun i _ _ => by simp [storage, row_ofFn]
  · rw [setSigns, run_bind, run_state, Ending.andThen_returned, run_checkShape_bind, n_storage,
      if_neg fun same => fits (List.singleton_inj.1 same).symm, Tableau.setSigns, dif_neg fits]
    rfl

end Storage

end Stabilizer
