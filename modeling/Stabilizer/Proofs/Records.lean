import Stabilizer.Tableau.Record
/-!
# Records and tableaus

A record is well shaped if it has the `2n` sign bits and the two matrices of `2n` rows of `n` bits that
a tableau on `n` qubits has.  Every record that is not is refused for its first fault, in the order in
which the fields stand; of a matrix the number of rows counts first, then the first row of another
width.

A record that is well shaped is read as a tableau whose record it is, and a tableau is the one that its
own record is read as.
-/

namespace Stabilizer

variable {n : Nat}

namespace Record

/-! ## Shapes -/

/-- A matrix of `2n` rows of `n` bits. -/
structure Fits (n : Nat) (rows : List (List Bool)) : Prop where
  count : rows.length = 2 * n
  width : ∀ row ∈ rows, row.length = n

/-- The width of the first row, if there is one. -/
def firstWidth (rows : List (List Bool)) : Nat := (rows.head?.map (·.length)).getD 0

/-- The dimensions that are reported of a matrix which does not fit. -/
inductive MatrixFault (n : Nat) (rows : List (List Bool)) : List Nat → Prop
  | count (wrong : rows.length ≠ 2 * n) : MatrixFault n rows [rows.length, firstWidth rows]
  | width {before after : List (List Bool)} {row : List Bool} (count : rows.length = 2 * n)
      (split : rows = before ++ row :: after) (fits : ∀ row ∈ before, row.length = n)
      (wrong : row.length ≠ n) : MatrixFault n rows [2 * n, row.length]

variable {rows : List (List Bool)}

theorem fits_or_fault (n : Nat) (rows : List (List Bool)) :
    Fits n rows ∨ ∃ found, MatrixFault n rows found := by
  by_cases count : rows.length = 2 * n
  · cases first : rows.find? (·.length ≠ n) with
    | none => exact .inl ⟨count, by simpa using first⟩
    | some row =>
      obtain ⟨wrong, before, after, split, fits⟩ := List.find?_eq_some_iff_append.1 first
      exact .inr ⟨_, .width count split (by simpa using fits) (by simpa using wrong)⟩
  · exact .inr ⟨_, .count count⟩

/-- The rows as a matrix. -/
def Fits.matrix (h : Fits n rows) : BitMatrix := BitMatrix.ofRows rows h.count h.width

@[simp] theorem Fits.shape_matrix (h : Fits n rows) : h.matrix.shape = [2 * n, n] := rfl

theorem readMatrix_of_fits (part : Part) (h : Fits n rows) : readMatrix part n rows = .ok h.matrix := by
  have none_odd : rows.find? (·.length ≠ n) = none := by simpa using h.width
  rw [readMatrix, dif_pos h.count]
  split
  · rfl
  · next row odd => cases none_odd.symm.trans odd

theorem readMatrix_of_fault (part : Part) {found : List Nat} (h : MatrixFault n rows found) :
    readMatrix part n rows = .error (.shapeMismatch part [2 * n, n] found) := by
  cases h with
  | count wrong => exact dif_neg wrong
  | @width before after row count split fits wrong =>
    -- `find?` stops at the first row that is wrong, which is where the rows are split
    have first : rows.find? (·.length ≠ n) = some row :=
      List.find?_eq_some_iff_append.2
        ⟨by simpa using wrong, before, after, split, by simpa using fits⟩
    rw [readMatrix, dif_pos count]
    split
    · next odd => cases odd.symm.trans first
    · next row' odd =>
      cases odd.symm.trans first
      rfl

/-- There are `2n` sign bits, and `2n` is an address. -/
def Signed (r : Record) : Prop := 2 * r.n < Nat.pow 2 64 ∧ r.rs.length = 2 * r.n

/-- The dimensions of a record are those of a tableau. -/
structure WellShaped (r : Record) : Prop where
  qubits : r.n ≠ 0
  signs : r.Signed
  xs : Fits r.n r.xs
  zs : Fits r.n r.zs

/-- The error that a record is refused with: the fields before the one it is about are as they should
be. -/
inductive Refused (r : Record) : Error → Prop
  | noQubits (none : r.n = 0) : Refused r .noQubits
  | signs (qubits : r.n ≠ 0) (wrong : Nat.pow 2 64 ≤ 2 * r.n ∨ r.rs.length ≠ 2 * r.n) :
      Refused r (.shapeMismatch .signs [min (2 * r.n) (Nat.pow 2 64 - 1)] [r.rs.length])
  | xs {found : List Nat} (qubits : r.n ≠ 0) (signs : r.Signed) (fault : MatrixFault r.n r.xs found) :
      Refused r (.shapeMismatch .xParts [2 * r.n, r.n] found)
  | zs {found : List Nat} (qubits : r.n ≠ 0) (signs : r.Signed) (xs : Fits r.n r.xs)
      (fault : MatrixFault r.n r.zs found) : Refused r (.shapeMismatch .zParts [2 * r.n, r.n] found)

theorem wellShaped_or_refused (r : Record) : r.WellShaped ∨ ∃ error, r.Refused error := by
  by_cases qubits : r.n = 0
  · exact .inr ⟨_, .noQubits qubits⟩
  by_cases signs : r.Signed
  · obtain xs | ⟨found, fault⟩ := fits_or_fault r.n r.xs
    · obtain zs | ⟨found, fault⟩ := fits_or_fault r.n r.zs
      · exact .inl ⟨qubits, signs, xs, zs⟩
      · exact .inr ⟨_, .zs qubits signs xs fault⟩
    · exact .inr ⟨_, .xs qubits signs fault⟩
  · have wrong : Nat.pow 2 64 ≤ 2 * r.n ∨ r.rs.length ≠ 2 * r.n := by
      rw [Signed] at signs
      omega
    exact .inr ⟨_, .signs qubits wrong⟩

theorem checkSigns_of_signed {r : Record} (h : r.Signed) : checkSigns r.n r.rs = .ok () := if_pos h

end Record

namespace Tableau

open Record

/-! ## Parts -/

/-- Replacing the three parts of a tableau one after the other replaces them all. -/
theorem setParts_eq (t : Tableau n) {rs : Array Bool} {xs zs : BitMatrix} (signs : rs.size = 2 * n)
    (hx : xs.shape = [2 * n, n]) (hz : zs.shape = [2 * n, n]) :
    (t.setSigns rs >>= fun t => t.setXParts xs >>= fun t => t.setZParts zs) =
      .ok { t with rows := Vector.ofFn fun i => ⟨(Vector.mk rs signs).get i, xs.row hx i, zs.row hz i⟩ } := by
  rw [setSigns, dif_pos signs]
  simp only [bind, Except.bind, setXParts, setZParts, hx, hz, dite_true, row_ofFn]
  rfl

theorem getElem?_flatten {rows : List (List Bool)} (h : ∀ row ∈ rows, row.length = n) (i : Nat)
    {k : Nat} (hk : k < n) : rows.flatten[i * n + k]? = (rows[i]?).bind (·[k]?) := by
  induction rows generalizing i with
  | nil => rfl
  | cons row rows ih =>
    have width : row.length = n := h row List.mem_cons_self
    rw [List.flatten_cons]
    cases i with
    | zero =>
      rw [Nat.zero_mul, Nat.zero_add, List.getElem?_append_left (by omega)]
      rfl
    | succ i =>
      have index : (i + 1) * n + k - row.length = i * n + k := by
        rw [width, Nat.succ_mul]
        omega
      rw [List.getElem?_append_right (by rw [width, Nat.succ_mul]; omega), index]
      exact ih (fun row hrow => h row (List.mem_cons_of_mem _ hrow)) i

/-- The rows of the matrix are the rows. -/
theorem row_matrix {rows : List (List Bool)} (h : Fits n rows) {i : Nat} (hi : i < 2 * n)
    (hi' : i < rows.length) : (h.matrix.row h.shape_matrix ⟨i, hi⟩).toList = rows[i] := by
  have width : rows[i].length = n := h.width _ (List.getElem_mem hi')
  refine List.ext_getElem (by simp [width]) fun k hk hk' => Option.some.inj ?_
  have kn : k < n := width ▸ hk'
  calc some (h.matrix.row h.shape_matrix ⟨i, hi⟩).toList[k]
      = rows.flatten[i * n + k]? := by
        have bound : i * n + k < rows.flatten.length := by
          rw [BitMatrix.length_flatten h.width, h.count]
          exact BitMatrix.index_lt hi kn
        rw [List.getElem?_eq_getElem bound, Vector.getElem_toList]
        exact congrArg some (Vector.getElem_ofFn kn)
    _ = some rows[i][k] := by
        rw [getElem?_flatten h.width i kn, List.getElem?_eq_getElem hi', Option.bind_some,
          List.getElem?_eq_getElem hk']

/-- The bits that the parts of a tableau are replaced by are those that are read off it. -/
theorem toRecord_ofMatrices (t : Tableau n) {rs : List Bool} {xs zs : List (List Bool)}
    (signs : rs.toArray.size = 2 * n) (hx : Fits n xs) (hz : Fits n zs) :
    toRecord { t with
      rows := Vector.ofFn fun i =>
        ⟨(Vector.mk rs.toArray signs).get i, hx.matrix.row hx.shape_matrix i,
          hz.matrix.row hz.shape_matrix i⟩ } =
      ⟨n, rs, xs, zs⟩ := by
  rw [toRecord, Record.mk.injEq]
  refine ⟨rfl, ?_, ?_, ?_⟩
  · exact List.ext_getElem (by simpa [Tableau.signs] using signs.symm) fun i _ hi => by
      simp [Tableau.signs]
  · exact List.ext_getElem (by simp [xParts, hx.count]) fun i hi hi' => by
      simpa [xParts] using row_matrix hx (hx.count ▸ hi') hi'
  · exact List.ext_getElem (by simp [zParts, hz.count]) fun i hi hi' => by
      simpa [zParts] using row_matrix hz (hz.count ▸ hi') hi'

/-! ## Reading -/

theorem ofRecord_of_refused {r : Record} {error : Error} (h : r.Refused error) :
    ofRecord r = .error error := by
  cases h with
  | noQubits none => exact if_pos none
  | signs qubits wrong =>
    have unsigned : ¬ (2 * r.n < Nat.pow 2 64 ∧ r.rs.length = 2 * r.n) := by omega
    rw [ofRecord, if_neg qubits, checkSigns, if_neg unsigned]
    rfl
  | xs qubits signs fault =>
    rw [ofRecord, if_neg qubits, checkSigns_of_signed signs, readMatrix_of_fault _ fault]
    rfl
  | zs qubits signs xs fault =>
    rw [ofRecord, if_neg qubits, checkSigns_of_signed signs, readMatrix_of_fits _ xs,
      readMatrix_of_fault _ fault]
    rfl

/-- A well shaped record becomes a tableau with its bits, if their addresses suffice: the checks made on
the way find nothing more to object to. -/
theorem ofRecord_of_wellShaped {r : Record} (h : r.WellShaped) (ha : Addressable r.n) :
    ∃ t, ofRecord r = .ok t ∧ t.toRecord = r := by
  have zero : ofBasisState r.n 0 = .ok (basis r.n 0 ha) := by
    rw [ofBasisState, dif_neg h.qubits, dif_pos ha.2, if_pos (Nat.zero_shiftRight _)]
  have signs : r.rs.toArray.size = 2 * r.n := by simpa using h.signs.2
  refine ⟨_, ?_, toRecord_ofMatrices (basis r.n 0 ha) signs h.xs h.zs⟩
  rw [ofRecord, if_neg h.qubits, checkSigns_of_signed h.signs, readMatrix_of_fits _ h.xs,
    readMatrix_of_fits _ h.zs, zero]
  exact setParts_eq _ signs h.xs.shape_matrix h.zs.shape_matrix

theorem ofRecord_eq_error_iff {r : Record} (addresses : r.WellShaped → 2 * r.n * r.n < Nat.pow 2 64)
    {error : Error} : ofRecord r = .error error ↔ r.Refused error := by
  refine ⟨fun failed => ?_, ofRecord_of_refused⟩
  obtain shaped | ⟨error', refused⟩ := r.wellShaped_or_refused
  · obtain ⟨t, read, -⟩ :=
      ofRecord_of_wellShaped shaped ⟨Nat.pos_of_ne_zero shaped.qubits, addresses shaped⟩
    cases read.symm.trans failed
  · cases (ofRecord_of_refused refused).symm.trans failed
    exact refused

/-- A tableau is known by its record. -/
theorem beq_of_toRecord_eq {t u : Tableau n} (h : t.toRecord = u.toRecord) : (t == u) = true := by
  obtain ⟨-, signs, xParts, zParts⟩ := Record.mk.inj h
  rw [signs_eq, signs_eq, List.map_inj_left] at signs
  rw [xParts_eq, xParts_eq, List.map_inj_left] at xParts
  rw [zParts_eq, zParts_eq, List.map_inj_left] at zParts
  refine beq_iff_row_eq.2 fun i => Row.ext (signs i (List.mem_finRange i)) ?_ ?_
  · exact Vector.toList_inj.1 (xParts i (List.mem_finRange i))
  · exact Vector.toList_inj.1 (zParts i (List.mem_finRange i))

theorem wellShaped_toRecord (t : Tableau n) : t.toRecord.WellShaped where
  qubits := Nat.ne_of_gt t.addressable.1
  signs := by
    have address : 2 * n ≤ 2 * n * n := Nat.le_mul_of_pos_right _ t.addressable.1
    exact ⟨Nat.lt_of_le_of_lt address t.addressable.2, by simp [toRecord, signs]⟩
  xs := ⟨by simp [toRecord, xParts], by simp [toRecord, xParts]⟩
  zs := ⟨by simp [toRecord, zParts], by simp [toRecord, zParts]⟩

/-! ## Both ways -/

theorem ofRecord_toRecord (t : Tableau n) :
    ∃ u : Tableau n, ofRecord t.toRecord = .ok u ∧ (u == t) = true := by
  obtain ⟨u, read, same⟩ := ofRecord_of_wellShaped t.wellShaped_toRecord t.addressable
  exact ⟨u, read, beq_of_toRecord_eq same⟩

/-- **Records and tableaus are the same data.**  A record is refused for its first fault and for nothing
else; one without a fault is read as a tableau that has it for its record.  A tableau equals the one
that its record is read as. -/
theorem ofRecord_exact :
    (∀ r : Record, (r.WellShaped → 2 * r.n * r.n < Nat.pow 2 64) →
      (∀ error, ofRecord r = .error error ↔ r.Refused error) ∧
        ((∃ t, ofRecord r = .ok t ∧ t.toRecord = r) ↔ ∀ error, ¬ r.Refused error)) ∧
    ∀ (n : Nat) (t : Tableau n),
      ∃ u : Tableau n, ofRecord t.toRecord = .ok u ∧ (u == t) = true := by
  refine ⟨fun r addresses => ⟨fun _ => ofRecord_eq_error_iff addresses, ?_⟩,
    fun n t => t.ofRecord_toRecord⟩
  constructor
  · rintro ⟨t, read, -⟩ error refused
    cases (ofRecord_of_refused refused).symm.trans read
  · intro accepted
    obtain shaped | ⟨error, refused⟩ := r.wellShaped_or_refused
    · exact ofRecord_of_wellShaped shaped ⟨Nat.pos_of_ne_zero shaped.qubits, addresses shaped⟩
    · exact absurd refused (accepted error)

/-- Two rows of the Z part are ragged, and the first of them is reported. -/
theorem ofRecord_exact_ragged :
    let zs := [[true, false], [false], [false, true, true], [true, true]]
    let r : Record := ⟨2, [true, false, false, true], List.replicate 4 [false, true], zs⟩
    2 * r.n * r.n < Nat.pow 2 64 ∧ ofRecord r = .error (.shapeMismatch .zParts [4, 2] [4, 1]) := by
  intro zs r
  have addresses : 2 * r.n * r.n < Nat.pow 2 64 := by decide
  have split : zs = [[true, false]] ++ [false] :: [[false, true, true], [true, true]] := rfl
  have fault : MatrixFault 2 zs [2 * 2, 1] := .width rfl split (by decide) (by decide)
  have refused : r.Refused (.shapeMismatch .zParts [4, 2] [4, 1]) :=
    .zs (by decide) ⟨by decide, rfl⟩ ⟨rfl, by decide⟩ fault
  exact ⟨addresses, ((ofRecord_exact.1 r fun _ => addresses).1 _).2 refused⟩

end Tableau

end Stabilizer
