import Stabilizer.BitMatrix
import Stabilizer.Error
import Stabilizer.Tableau.Row
/-!
# Tableaus

A stabilizer state of `n` qubits is held as `2n` rows: the destabilizers are rows `0` to `n - 1`,
the stabilizers rows `n` to `2n - 1`, and the destabilizer in row `i` belongs to the stabilizer in
row `n + i`.

Beside its rows a tableau keeps a scratch row, the product that the last deterministic measurement
built.  No reading shows it and equality ignores it.

Operations come in two layers.  `put`, `multiply`, `copy` and the like take indices that are in
range by their type.  `rowsum`, `copyRow` and the like take any natural numbers, and check them.
What they do to containers that are written entry by entry is the matter of `Stabilizer.Storage`.
-/

namespace Stabilizer

/-- A number of qubits that a tableau can have: at least one, and few enough that the `2n · n`
entries of a part have 64-bit addresses (`new`, tableau 167-170). -/
def Addressable (n : Nat) : Prop := 0 < n ∧ 2 * n * n < Nat.pow 2 64

instance (n : Nat) : Decidable (Addressable n) := inferInstanceAs (Decidable (_ ∧ _))

/-- A tableau, row by row (`Tableau`, tableau 127-133). -/
structure Tableau (n : Nat) where
  /-- The generators, destabilizers first. -/
  rows : Vector (Row n) (2 * n)
  /-- The product built by the last deterministic measurement (`Scratch`, tableau 98-102). -/
  scratch : Row n
  addressable : Addressable n

namespace Tableau

variable {n : Nat}

/-- Equality sees the rows alone (`eq`, tableau 136-141). -/
instance : BEq (Tableau n) := ⟨fun t u => decide (t.rows = u.rows)⟩

theorem beq_iff_rows_eq {t u : Tableau n} : (t == u) = true ↔ t.rows = u.rows := by
  simp [BEq.beq]

/-- Equality of tableaus whose numbers of qubits may differ (`eq`, tableau 136-141). -/
def same {m : Nat} (t : Tableau n) (u : Tableau m) : Bool :=
  if h : m = n then decide (t.rows = h ▸ u.rows) else false

/-! ### Rows -/

def destabIndex (i : Fin n) : Fin (2 * n) := ⟨i, by omega⟩

def stabIndex (i : Fin n) : Fin (2 * n) := ⟨n + i, by omega⟩

@[simp] theorem destabIndex_inj {i j : Fin n} : destabIndex i = destabIndex j ↔ i = j := by
  simp [destabIndex, Fin.ext_iff]

@[simp] theorem stabIndex_inj {i j : Fin n} : stabIndex i = stabIndex j ↔ i = j := by
  simp [stabIndex, Fin.ext_iff]

@[simp] theorem destabIndex_ne_stabIndex (i j : Fin n) : destabIndex i ≠ stabIndex j := by
  simp only [destabIndex, stabIndex, ne_eq, Fin.mk.injEq]
  omega

@[simp] theorem stabIndex_ne_destabIndex (i j : Fin n) : stabIndex i ≠ destabIndex j :=
  (destabIndex_ne_stabIndex j i).symm

theorem index_cases (i : Fin (2 * n)) : (∃ k, i = destabIndex k) ∨ ∃ k, i = stabIndex k := by
  by_cases h : i.val < n
  · exact .inl ⟨⟨i, h⟩, rfl⟩
  · refine .inr ⟨⟨i - n, by omega⟩, Fin.ext ?_⟩
    simp only [stabIndex]
    omega

/-- The index within the last `n` of `2n`. -/
def upperIndex (i : Fin (2 * n)) (h : ¬ i.val < n) : Fin n := ⟨i.val - n, by omega⟩

def row (t : Tableau n) (i : Fin (2 * n)) : Row n := t.rows[i]

def destabilizer (t : Tableau n) (i : Fin n) : Row n := t.row (destabIndex i)

def stabilizer (t : Tableau n) (i : Fin n) : Row n := t.row (stabIndex i)

@[simp] theorem row_destabIndex (t : Tableau n) (i : Fin n) :
    t.row (destabIndex i) = t.destabilizer i := rfl

@[simp] theorem row_stabIndex (t : Tableau n) (i : Fin n) :
    t.row (stabIndex i) = t.stabilizer i := rfl

/-- Two tableaus are equal when they read the same at every index. -/
theorem beq_iff_row_eq {t u : Tableau n} : (t == u) = true ↔ ∀ i, t.row i = u.row i := by
  rw [beq_iff_rows_eq]
  constructor
  · intro h i
    simp [row, h]
  · intro h
    ext1 i hi
    exact h ⟨i, hi⟩

/-! ### Construction -/

/-- The tableau of a basis state: destabilizer `i` is `X` on qubit `i`, stabilizer `i` is `Z` on
qubit `i`, negated when the qubit is 1.  Qubit 0 is the most significant bit of the state (`new`,
tableau 175-184). -/
def basis (n state : Nat) (h : Addressable n) : Tableau n where
  rows := Vector.ofFn fun i : Fin (2 * n) =>
    if hi : i.val < n then Row.singleX n ⟨i, hi⟩
    else Row.singleZ n (state.testBit (n - 1 - (i.val - n))) (upperIndex i hi)
  scratch := Row.one n
  addressable := h

@[simp] theorem destabilizer_basis (n state : Nat) (h : Addressable n) (i : Fin n) :
    (basis n state h).destabilizer i = Row.singleX n i := by
  simp [basis, destabilizer, destabIndex, row]

@[simp] theorem stabilizer_basis (n state : Nat) (h : Addressable n) (i : Fin n) :
    (basis n state h).stabilizer i = Row.singleZ n (state.testBit (n - 1 - i)) i := by
  have not_lt : ¬ n + i.val < n := by omega
  simp [basis, stabilizer, stabIndex, upperIndex, row, not_lt]

/-- The tableau of a basis state, if there is one: some qubits but not too many, and a state that
fits in them (`new`, tableau 166-185, with numbers for words and containers of any size;
`Tableau.build` has the words and the limit of containers). -/
def ofBasisState (n state : Nat) : Except Error (Tableau n) :=
  if hn : n = 0 then .error .noQubits
  else if ha : 2 * n * n < Nat.pow 2 64 then
    if state >>> n = 0 then .ok (basis n state ⟨Nat.pos_of_ne_zero hn, ha⟩)
    else .error (.invalidInitialState state n)
  else .error (.tooManyQubits n)

theorem ofBasisState_eq_ok {state : Nat} {t : Tableau n} (h : ofBasisState n state = .ok t) :
    ∃ addressable, t = basis n state addressable := by
  unfold ofBasisState at h
  split at h
  · cases h
  split at h
  · split at h
    · cases h
      exact ⟨_, rfl⟩
    · cases h
  · cases h

/-! ### Readings -/

/-- The X parts (`xs`, tableau 194). -/
def xParts (t : Tableau n) : List (List Bool) := t.rows.toList.map (·.x.toList)

/-- The Z parts (`zs`, tableau 197). -/
def zParts (t : Tableau n) : List (List Bool) := t.rows.toList.map (·.z.toList)

/-- The sign bits (`rs`, tableau 200). -/
def signs (t : Tableau n) : List Bool := t.rows.toList.map (·.minus)

def generators (t : Tableau n) : List PauliString := t.rows.toList.map Row.toPauli

/-- The stabilizers as strings (`stabilizers`, tableau 385-387). -/
def stabilizers (t : Tableau n) : List PauliString := List.ofFn fun i => (t.stabilizer i).toPauli

/-- The destabilizers as strings (`destabilizers`, tableau 391-393). -/
def destabilizers (t : Tableau n) : List PauliString :=
  List.ofFn fun i => (t.destabilizer i).toPauli

theorem rows_toList (t : Tableau n) : t.rows.toList = (List.finRange (2 * n)).map t.row := by
  refine List.ext_getElem (by simp) fun i hi _ => ?_
  simp [row]

theorem xParts_eq (t : Tableau n) :
    t.xParts = (List.finRange (2 * n)).map fun i => (t.row i).x.toList := by
  rw [xParts, rows_toList, List.map_map]
  rfl

theorem zParts_eq (t : Tableau n) :
    t.zParts = (List.finRange (2 * n)).map fun i => (t.row i).z.toList := by
  rw [zParts, rows_toList, List.map_map]
  rfl

theorem signs_eq (t : Tableau n) :
    t.signs = (List.finRange (2 * n)).map fun i => (t.row i).minus := by
  rw [signs, rows_toList, List.map_map]
  rfl

/-! ### Row operations -/

def put (t : Tableau n) (i : Fin (2 * n)) (a : Row n) : Tableau n :=
  { t with rows := t.rows.set i a }

/-- Multiplies row `source` into row `target` (`rowsum_unchecked`, tableau 254-279). -/
def multiply (t : Tableau n) (target source : Fin (2 * n)) : Tableau n :=
  t.put target ((t.row target).mul (t.row source))

/-- Stores row `source` at `target` as well (`row_copy_unchecked`, tableau 314-326). -/
def copy (t : Tableau n) (source target : Fin (2 * n)) : Tableau n := t.put target (t.row source)

/-- Exchanges two rows (`row_swap`, tableau 332-334). -/
def exchange (t : Tableau n) (a b : Fin (2 * n)) : Tableau n :=
  (t.put a (t.row b)).put b (t.row a)

/-- Replaces the sign bit of a row (`set_sign`, tableau 341). -/
def putSign (t : Tableau n) (i : Fin (2 * n)) (minus : Bool) : Tableau n :=
  t.put i { t.row i with minus := minus }

/-- Flips the sign bit of a row (`flip_sign`, tableau 348). -/
def negate (t : Tableau n) (i : Fin (2 * n)) : Tableau n := t.putSign i (!(t.row i).minus)

theorem row_put (t : Tableau n) (i j : Fin (2 * n)) (a : Row n) :
    (t.put i a).row j = if j = i then a else t.row j := by
  by_cases h : j = i
  · subst h
    simp [put, row]
  · have hne : i.val ≠ j.val := fun e => h (Fin.ext e.symm)
    simp [put, row, h, hne]

theorem row_ofFn (t : Tableau n) (a : Fin (2 * n) → Row n) (i : Fin (2 * n)) :
    ({ t with rows := Vector.ofFn a } : Tableau n).row i = a i := by
  simp [row]

theorem row_multiply (t : Tableau n) (target source k : Fin (2 * n)) :
    (t.multiply target source).row k =
      if k = target then (t.row target).mul (t.row source) else t.row k :=
  t.row_put target k _

theorem row_copy (t : Tableau n) (source target k : Fin (2 * n)) :
    (t.copy source target).row k = if k = target then t.row source else t.row k :=
  t.row_put target k _

/-- After an exchange each of the two rows stands at the index of the other. -/
theorem row_exchange (t : Tableau n) (a b k : Fin (2 * n)) :
    (t.exchange a b).row k = if k = b then t.row a else if k = a then t.row b else t.row k := by
  rw [exchange, row_put, row_put]

theorem row_putSign (t : Tableau n) (i k : Fin (2 * n)) (minus : Bool) :
    (t.putSign i minus).row k = if k = i then { t.row i with minus := minus } else t.row k :=
  t.row_put i k _

/-! ### Indices -/

/-- The number as an index of a row (`check_row`, tableau 223-229). -/
def rowIndex (n i : Nat) : Except Error (Fin (2 * n)) :=
  if h : i < 2 * n then .ok ⟨i, h⟩ else .error (.rowOutOfBounds i (2 * n))

theorem rowIndex_fin (i : Fin (2 * n)) : rowIndex n i = .ok i := dif_pos i.isLt

theorem rowIndex_val (i : Fin n) : rowIndex n i = .ok (destabIndex i) := rowIndex_fin (destabIndex i)

theorem rowIndex_add (i : Fin n) : rowIndex n (n + i) = .ok (stabIndex i) := rowIndex_fin (stabIndex i)

/-- The number as an index of a qubit (`check_qubit`, tableau 231-237). -/
def qubitIndex (n q : Nat) : Except Error (Fin n) :=
  if h : q < n then .ok ⟨q, h⟩ else .error (.qubitOutOfBounds q n)

/-! ### Checked operations -/

/-- Multiplies row `source` into row `target`.  The target is checked first (`rowsum`,
tableau 246-252). -/
def rowsum (t : Tableau n) (target source : Nat) : Except Error (Tableau n) := do
  let i ← rowIndex n target
  let j ← rowIndex n source
  return t.multiply i j

/-- Copies row `source` to `target`.  The source is checked first (`row_copy`, tableau 308-312). -/
def copyRow (t : Tableau n) (source target : Nat) : Except Error (Tableau n) := do
  let i ← rowIndex n source
  let j ← rowIndex n target
  return t.copy i j

/-- Exchanges rows `a` and `b`.  Row `a` is checked first (`row_swap`, tableau 329-336). -/
def swapRows (t : Tableau n) (a b : Nat) : Except Error (Tableau n) := do
  let i ← rowIndex n a
  let j ← rowIndex n b
  return t.exchange i j

/-- Sets the sign bit of a row (`set_sign`, tableau 339-343). -/
def setSign (t : Tableau n) (i : Nat) (minus : Bool) : Except Error (Tableau n) := do
  return t.putSign (← rowIndex n i) minus

/-- Negates a row (`flip_sign`, tableau 346-350). -/
def flipSign (t : Tableau n) (i : Nat) : Except Error (Tableau n) := do
  return t.negate (← rowIndex n i)

/-- Stores a signed Pauli string as a row.  The row is checked first, then the length (`set_row`,
tableau 354-366). -/
def setRow (t : Tableau n) (i : Nat) (p : PauliString) : Except Error (Tableau n) := do
  let i ← rowIndex n i
  if h : p.letters.length = n then return t.put i (Row.ofPauli p h)
  else throw (.shapeMismatch .row [n] [p.letters.length])

/-- Reads a row as a string (`row_to_pauli`, tableau 369-372). -/
def readRow (t : Tableau n) (i : Nat) : Except Error PauliString := do
  return (t.row (← rowIndex n i)).toPauli

theorem readRow_val (t : Tableau n) (i : Fin (2 * n)) : t.readRow i = .ok (t.row i).toPauli := by
  rw [readRow, rowIndex_fin]
  rfl

/-- Replaces all X parts (`set_xs`, tableau 203-207). -/
def setXParts (t : Tableau n) (m : BitMatrix) : Except Error (Tableau n) :=
  if h : m.shape = [2 * n, n] then
    .ok { t with rows := Vector.ofFn fun i => { t.row i with x := m.row h i } }
  else .error (.shapeMismatch .xParts [2 * n, n] m.shape)

/-- Replaces all Z parts (`set_zs`, tableau 210-214). -/
def setZParts (t : Tableau n) (m : BitMatrix) : Except Error (Tableau n) :=
  if h : m.shape = [2 * n, n] then
    .ok { t with rows := Vector.ofFn fun i => { t.row i with z := m.row h i } }
  else .error (.shapeMismatch .zParts [2 * n, n] m.shape)

/-- Replaces all sign bits (`set_rs`, tableau 217-221). -/
def setSigns (t : Tableau n) (bits : Array Bool) : Except Error (Tableau n) :=
  if h : bits.size = 2 * n then
    .ok { t with rows := Vector.ofFn fun i => { t.row i with minus := bits[i] } }
  else .error (.shapeMismatch .signs [2 * n] [bits.size])

end Tableau

end Stabilizer
