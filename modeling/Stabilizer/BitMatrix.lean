/-!
# Matrices of bits

A matrix of bits has its dimensions as data, and as many entries as they say, row by row.  It may have
any dimensions, and one without columns takes no space.

`get` takes a row and a column that there are; `get?` and `set?` take any numbers and fail where the
matrix has no entry.
-/

namespace Stabilizer

/-- A matrix of bits, row by row. -/
structure BitMatrix where
  rows : Nat
  columns : Nat
  entries : Vector Bool (rows * columns)
  deriving DecidableEq

namespace BitMatrix

/-- The dimensions, rows first. -/
def shape (m : BitMatrix) : List Nat := [m.rows, m.columns]

theorem shape_eq_iff {m : BitMatrix} {r c : Nat} : m.shape = [r, c] ↔ m.rows = r ∧ m.columns = c := by
  simp [shape]

/-! ### Positions -/

theorem index_lt {r c i k : Nat} (hi : i < r) (hk : k < c) : i * c + k < r * c :=
  calc i * c + k < i * c + c := Nat.add_lt_add_left hk _
    _ = (i + 1) * c := (Nat.succ_mul i c).symm
    _ ≤ r * c := Nat.mul_le_mul_right c hi

theorem index_div {c i k : Nat} (hk : k < c) : (i * c + k) / c = i := by
  rw [Nat.mul_comm, Nat.mul_add_div (Nat.zero_lt_of_lt hk), Nat.div_eq_of_lt hk, Nat.add_zero]

theorem index_mod {c i k : Nat} (hk : k < c) : (i * c + k) % c = k := by
  rw [Nat.mul_comm, Nat.mul_add_mod, Nat.mod_eq_of_lt hk]

/-- Different entries stand at different positions. -/
theorem index_inj {c i j k l : Nat} (hk : k < c) (hl : l < c) :
    i * c + k = j * c + l ↔ i = j ∧ k = l := by
  refine ⟨fun same => ⟨?_, ?_⟩, fun ⟨hi, hk⟩ => hi ▸ hk ▸ rfl⟩
  · rw [← index_div (i := i) hk, same, index_div hl]
  · rw [← index_mod (i := i) hk, same, index_mod hl]

/-! ### Entries -/

/-- The entry in row `i` and column `k`. -/
def get (m : BitMatrix) (i : Fin m.rows) (k : Fin m.columns) : Bool :=
  m.entries.get ⟨i * m.columns + k, index_lt i.isLt k.isLt⟩

/-- The matrix with the given entries. -/
def ofFn (r c : Nat) (f : Fin r → Fin c → Bool) : BitMatrix where
  rows := r
  columns := c
  entries := Vector.ofFn fun p =>
    f ⟨p / c, Nat.div_lt_of_lt_mul (Nat.mul_comm r c ▸ p.isLt)⟩
      ⟨p % c, Nat.mod_lt _ (Nat.pos_of_lt_mul_left p.isLt)⟩

theorem length_flatten {c : Nat} {rows : List (List Bool)} (width : ∀ row ∈ rows, row.length = c) :
    rows.flatten.length = rows.length * c := by
  induction rows with
  | nil => simp
  | cons row rows ih =>
    rw [List.forall_mem_cons] at width
    rw [List.flatten_cons, List.length_append, width.1, ih width.2, List.length_cons, Nat.succ_mul,
      Nat.add_comm]

/-- Rows of one width, one after the other. -/
def ofRows {r c : Nat} (rows : List (List Bool)) (count : rows.length = r)
    (width : ∀ row ∈ rows, row.length = c) : BitMatrix where
  rows := r
  columns := c
  entries := ⟨rows.flatten.toArray, count ▸ length_flatten width⟩

/-- The entry in row `i` and column `k`, if there is one. -/
def get? (m : BitMatrix) (i k : Nat) : Option Bool :=
  if h : i < m.rows ∧ k < m.columns then some (m.get ⟨i, h.1⟩ ⟨k, h.2⟩) else none

/-- The matrix with another entry in row `i` and column `k`, if there is one. -/
def set? (m : BitMatrix) (i k : Nat) (bit : Bool) : Option BitMatrix :=
  if h : i < m.rows ∧ k < m.columns then
    some { m with entries := m.entries.set (i * m.columns + k) bit (index_lt h.1 h.2) }
  else none

/-- The entries of row `i`, if there is one. -/
def line? (m : BitMatrix) (i : Nat) : Option (List Bool) :=
  if h : i < m.rows then some (List.ofFn (m.get ⟨i, h⟩)) else none

/-- Row `i` of a matrix of the given dimensions. -/
def row {r c : Nat} (m : BitMatrix) (h : m.shape = [r, c]) (i : Fin r) : Vector Bool c :=
  Vector.ofFn fun k => m.get (i.cast (shape_eq_iff.1 h).1.symm) (k.cast (shape_eq_iff.1 h).2.symm)

/-! ### Reading what was written -/

section

variable {r c : Nat} (f : Fin r → Fin c → Bool) (i : Fin r) (k : Fin c)

@[simp] theorem get_ofFn : (ofFn r c f).get i k = f i k := by
  have read : (ofFn r c f).get i k = f ⟨(i * c + k) / c, _⟩ ⟨(i * c + k) % c, _⟩ :=
    Vector.getElem_ofFn (index_lt i.isLt k.isLt)
  simpa only [index_div k.isLt, index_mod k.isLt] using read

/-- A matrix is known by its entries. -/
theorem eq_ofFn {entries : Vector Bool (r * c)} {f : Fin r → Fin c → Bool}
    (h : ∀ i k, (mk r c entries).get i k = f i k) : mk r c entries = ofFn r c f := by
  simp only [ofFn, mk.injEq, heq_eq_eq, true_and]
  ext p hp
  have hi : p / c < r := Nat.div_lt_of_lt_mul (Nat.mul_comm r c ▸ hp)
  have hk : p % c < c := Nat.mod_lt _ (Nat.pos_of_lt_mul_left hp)
  rw [Vector.getElem_ofFn, ← h ⟨p / c, hi⟩ ⟨p % c, hk⟩]
  simp only [get, Nat.div_add_mod']
  rfl

@[simp] theorem shape_ofFn : (ofFn r c f).shape = [r, c] := rfl

@[simp] theorem row_ofFn : (ofFn r c f).row rfl i = Vector.ofFn (f i) :=
  congrArg Vector.ofFn (funext fun k => get_ofFn f i k)

/-- A matrix is known by its rows. -/
theorem ofFn_row {m : BitMatrix} (h : m.shape = [r, c]) :
    (ofFn r c fun i k => (m.row h i).get k) = m := by
  obtain ⟨rows, columns, entries⟩ := m
  obtain ⟨rfl, rfl⟩ := shape_eq_iff.1 h
  refine (eq_ofFn fun i k => ?_).symm
  exact (Vector.getElem_ofFn k.isLt).symm

theorem get?_ofFn : (ofFn r c f).get? i k = some (f i k) :=
  (dif_pos (⟨i.isLt, k.isLt⟩ : i.val < r ∧ k.val < c)).trans (congrArg some (get_ofFn f i k))

theorem line?_ofFn : (ofFn r c f).line? i = some (List.ofFn (f i)) :=
  (dif_pos (i.isLt : i.val < r)).trans
    (congrArg (some <| List.ofFn ·) (funext fun k => get_ofFn f i k))

/-- Writing an entry changes it and no other. -/
theorem set?_ofFn (bit : Bool) :
    (ofFn r c f).set? i k bit = some (ofFn r c fun j l => if j = i ∧ l = k then bit else f j l) := by
  have same (j : Fin r) (l : Fin c) : i.val * c + k.val = j.val * c + l.val ↔ j = i ∧ l = k := by
    rw [index_inj k.isLt l.isLt, Fin.ext_iff, Fin.ext_iff, eq_comm, @eq_comm _ k.val]
  refine (dif_pos (⟨i.isLt, k.isLt⟩ : i.val < r ∧ k.val < c)).trans (congrArg some (eq_ofFn ?_))
  intro (j : Fin r) (l : Fin c)
  rw [← get_ofFn f j l]
  refine (Vector.getElem_set (index_lt i.isLt k.isLt) (index_lt j.isLt l.isLt)).trans ?_
  simp only [ofFn, same]
  rfl

end

end BitMatrix

end Stabilizer
