import Stabilizer.Machine.Operation
import Stabilizer.Proofs.ScratchRow
/-!
# Tableaus in containers

`Tableau.storage` lays the rows of a tableau out in containers, whose dimensions then fit together.  A
program that reads or writes at indices of rows and qubits finds an entry there, and what it does to the
containers is something that is done to rows.

A loop over the columns does to every column what its body does to one (`run_forM_columns`), since a body
reaches for no other column than its own.
-/

namespace Stabilizer

variable {n : Nat}

/-! ## Letters as pairs of bits -/

namespace Pauli

/-- One of the two bits. -/
def bit (p : Pauli) : Half → Bool
  | .x => p.xBit
  | .z => p.zBit

/-- The letter with one of its bits replaced. -/
def withBit (p : Pauli) : Half → Bool → Pauli
  | .x, b => ofBits b p.zBit
  | .z, b => ofBits p.xBit b

theorem bit_withBit (p : Pauli) (h h' : Half) (b : Bool) :
    (p.withBit h b).bit h' = if h' = h then b else p.bit h' := by
  cases h <;> cases h' <;> simp [bit, withBit]

end Pauli

/-- The row with another letter at a qubit. -/
def Row.setLetter (a : Row n) (k : Fin n) (p : Pauli) : Row n where
  minus := a.minus
  x := a.x.set k p.xBit k.isLt
  z := a.z.set k p.zBit k.isLt

theorem Row.letter_setLetter (a : Row n) (c k : Fin n) (p : Pauli) :
    (a.setLetter c p).letter k = if k = c then p else a.letter k := by
  by_cases h : k = c
  · subst h
    simp [letter, setLetter]
  · have apart : c.val ≠ k.val := fun same => h (Fin.ext same.symm)
    simp [letter, setLetter, apart, h]

/-! ## Loops over different indices -/

section

variable {α ι β : Type} {step : α → ι → α}

/-- Where every step changes the part of its own index only, all steps together change every part once,
from what it was in the beginning. -/
theorem foldl_parts [DecidableEq ι] (part : α → ι → β) (f : ι → β → β)
    (own : ∀ a i k, part (step a i) k = if k = i then f i (part a i) else part a k) {indices : List ι}
    (different : indices.Nodup) (a : α) (k : ι) :
    part (indices.foldl step a) k = if k ∈ indices then f k (part a k) else part a k := by
  induction indices generalizing a with
  | nil => rfl
  | cons i indices ih =>
    obtain ⟨hi, different⟩ := List.nodup_cons.1 different
    rw [List.foldl_cons, ih different, own]
    by_cases hk : k = i
    · subst hk
      rw [if_neg hi, if_pos rfl, if_pos List.mem_cons_self]
    · simp only [hk, if_false, List.mem_cons, false_or]

/-- What no step changes. -/
theorem foldl_kept (whole : α → β) (kept : ∀ a i, whole (step a i) = whole a) (indices : List ι) (a : α) :
    whole (indices.foldl step a) = whole a := by
  induction indices generalizing a with
  | nil => rfl
  | cons i indices ih => rw [List.foldl_cons, ih, kept]

end

namespace Tableau

/-! ## Columns -/

/-- The letters at a qubit, row by row. -/
def lettersAt (t : Tableau n) (k : Fin n) : Fin (2 * n) → Pauli := fun i => (t.row i).letter k

/-- The tableau with other letters at a qubit. -/
def putColumn (t : Tableau n) (c : Fin n) (letters : Fin (2 * n) → Pauli) : Tableau n :=
  { t with rows := Vector.ofFn fun i => (t.row i).setLetter c (letters i) }

/-- The tableau with the letters at every qubit replaced. -/
def mapColumns (t : Tableau n) (g : Fin n → (Fin (2 * n) → Pauli) → Fin (2 * n) → Pauli) : Tableau n :=
  { t with
    rows := Vector.ofFn fun i =>
      ⟨(t.row i).minus, Vector.ofFn fun k => (g k (t.lettersAt k) i).xBit,
        Vector.ofFn fun k => (g k (t.lettersAt k) i).zBit⟩ }

/-- A tableau is its letters, its signs and its scratch row. -/
theorem ext_letters {t u : Tableau n} (minus : ∀ i, (t.row i).minus = (u.row i).minus)
    (letters : ∀ k, t.lettersAt k = u.lettersAt k) (scratch : t.scratch = u.scratch) : t = u :=
  ext_row (fun i => Row.ext_letter (minus i) fun k => congrFun (letters k) i) scratch

theorem minus_put (t : Tableau n) (i j : Fin (2 * n)) (a : Row n) :
    ((t.put i a).row j).minus = if j = i then a.minus else (t.row j).minus := by
  rw [row_put, apply_ite Row.minus]

theorem lettersAt_put (t : Tableau n) (i : Fin (2 * n)) (a : Row n) (k : Fin n) :
    (t.put i a).lettersAt k = Function.update (t.lettersAt k) i (a.letter k) := by
  funext j
  rw [lettersAt, row_put, Function.update_apply]
  split <;> rfl

@[simp] theorem lettersAt_putSign (t : Tableau n) (i : Fin (2 * n)) (minus : Bool) (k : Fin n) :
    (t.putSign i minus).lettersAt k = t.lettersAt k := by
  rw [putSign, lettersAt_put]
  exact Function.update_eq_self i _

theorem minus_putSign (t : Tableau n) (i j : Fin (2 * n)) (minus : Bool) :
    ((t.putSign i minus).row j).minus = if j = i then minus else (t.row j).minus :=
  t.minus_put i j _

theorem minus_putColumn (t : Tableau n) (c : Fin n) (l : Fin (2 * n) → Pauli) (i : Fin (2 * n)) :
    ((t.putColumn c l).row i).minus = (t.row i).minus := by
  rw [putColumn, row_ofFn, Row.setLetter]

theorem lettersAt_putColumn (t : Tableau n) (c k : Fin n) (l : Fin (2 * n) → Pauli) :
    (t.putColumn c l).lettersAt k = if k = c then l else t.lettersAt k := by
  funext i
  rw [lettersAt, putColumn, row_ofFn, Row.letter_setLetter]
  split <;> rfl

@[simp] theorem lettersAt_putColumn_self (t : Tableau n) (c : Fin n) (l : Fin (2 * n) → Pauli) :
    (t.putColumn c l).lettersAt c = l := by rw [lettersAt_putColumn, if_pos rfl]

@[simp] theorem putColumn_lettersAt (t : Tableau n) (c : Fin n) : t.putColumn c (t.lettersAt c) = t := by
  refine ext_letters (t.minus_putColumn c _) (fun k => ?_) rfl
  rw [lettersAt_putColumn]
  split
  · next same => rw [same]
  · rfl

theorem minus_mapColumns (t : Tableau n) (g : Fin n → (Fin (2 * n) → Pauli) → Fin (2 * n) → Pauli)
    (i : Fin (2 * n)) : ((t.mapColumns g).row i).minus = (t.row i).minus := by
  rw [mapColumns, row_ofFn]

@[simp] theorem lettersAt_mapColumns (t : Tableau n)
    (g : Fin n → (Fin (2 * n) → Pauli) → Fin (2 * n) → Pauli) (k : Fin n) :
    (t.mapColumns g).lettersAt k = g k (t.lettersAt k) := by
  funext i
  rw [lettersAt, mapColumns, row_ofFn]
  simp [Row.letter]

/-! ## Layout -/

/-- One half of all rows. -/
def half (t : Tableau n) (h : Half) : BitMatrix :=
  BitMatrix.ofFn (2 * n) n fun i k => ((t.row i).letter k).bit h

/-- The tableau in containers. -/
def storage (t : Tableau n) : Storage where
  n := n
  xs := t.half .x
  zs := t.half .z
  rs := Array.ofFn fun i => (t.row i).minus
  scratch := ⟨t.scratch.x.toArray, t.scratch.z.toArray, t.scratch.minus⟩

theorem half_congr {t u : Tableau n} (letters : ∀ k, t.lettersAt k = u.lettersAt k) (h : Half) :
    t.half h = u.half h :=
  congrArg (BitMatrix.ofFn (2 * n) n) <|
    funext fun i => funext fun k => congrArg (Pauli.bit · h) (congrFun (letters k) i)

@[simp] theorem n_storage (t : Tableau n) : t.storage.n = n := rfl

@[simp] theorem matrix_storage (t : Tableau n) (h : Half) : t.storage.matrix h = t.half h := by
  cases h <;> rfl

/-- Replacing one matrix makes the containers those of a tableau that differs in that half alone. -/
theorem withMatrix_storage (t : Tableau n) (h : Half) {m : BitMatrix} {u : Tableau n}
    (minus : ∀ i, (u.row i).minus = (t.row i).minus) (scratch : u.scratch = t.scratch)
    (replaced : u.half h = m) (kept : ∀ h', h' ≠ h → u.half h' = t.half h') :
    t.storage.withMatrix h m = u.storage := by
  cases h
  · simp only [storage, Storage.withMatrix, minus, scratch, kept .z (by decide), replaced]
  · simp only [storage, Storage.withMatrix, minus, scratch, kept .x (by decide), replaced]

/-- Replacing the signs makes the containers those of a tableau with the same letters. -/
theorem withSigns_storage (t : Tableau n) {bits : Array Bool} {u : Tableau n}
    (letters : ∀ k, u.lettersAt k = t.lettersAt k) (scratch : u.scratch = t.scratch)
    (replaced : u.storage.rs = bits) : { t.storage with rs := bits } = u.storage := by
  subst replaced
  simp only [storage, half_congr letters, scratch]

end Tableau

namespace Storage

open Program Tableau

variable (t : Tableau n)

@[simp] theorem run_numQubits : numQubits.run t.storage = .returned n t.storage := rfl

theorem run_readBit (h : Half) (i : Fin (2 * n)) (k : Fin n) :
    (readBit h i k).run t.storage = .returned ((t.lettersAt k i).bit h) t.storage := by
  simp [readBit, half, BitMatrix.get?_ofFn, lettersAt]

theorem run_readX (i : Fin (2 * n)) (q : Fin n) :
    (readBit .x i q).run t.storage = .returned ((t.row i).x.get q) t.storage := by
  rw [run_readBit]
  simp [lettersAt, Row.letter, Pauli.bit]

theorem run_readZ (i : Fin (2 * n)) (q : Fin n) :
    (readBit .z i q).run t.storage = .returned ((t.row i).z.get q) t.storage := by
  rw [run_readBit]
  simp [lettersAt, Row.letter, Pauli.bit]

theorem run_readLine (h : Half) (i : Fin (2 * n)) :
    (readLine h i).run t.storage = .returned (List.ofFn fun k => (t.lettersAt k i).bit h) t.storage := by
  simp [readLine, half, BitMatrix.line?_ofFn, lettersAt]

theorem run_readSign (i : Fin (2 * n)) :
    (readSign i).run t.storage = .returned (t.row i).minus t.storage := by
  simp [readSign, storage]

theorem run_writeSign (i : Fin (2 * n)) (minus : Bool) :
    (writeSign i minus).run t.storage = .returned () (t.putSign i minus).storage := by
  have inside : i.val < t.storage.rs.size := by simp [storage]
  have signs : (t.putSign i minus).storage.rs = t.storage.rs.set i minus inside := by
    refine Array.ext (by simp [storage]) fun j hj _ => ?_
    simp [storage, Array.getElem_set, row_putSign, apply_ite Row.minus, Fin.ext_iff, eq_comm]
  rw [writeSign, run_bind, run_state, Ending.andThen_returned, dif_pos inside, run_setState,
    t.withSigns_storage (t.lettersAt_putSign i minus) rfl signs]

/-- Writing a bit of a column writes into the letters of that column. -/
theorem run_writeBit (h : Half) (i : Fin (2 * n)) (c : Fin n) (b : Bool) (l : Fin (2 * n) → Pauli) :
    (writeBit h i c b).run (t.putColumn c l).storage =
      .returned () (t.putColumn c (Function.update l i ((l i).withBit h b))).storage := by
  let u := t.putColumn c (Function.update l i ((l i).withBit h b))
  have bits (h' : Half) (j : Fin (2 * n)) (k : Fin n) : (u.lettersAt k j).bit h' =
      if h' = h ∧ j = i ∧ k = c then b else ((t.putColumn c l).lettersAt k j).bit h' := by
    rw [lettersAt_putColumn, lettersAt_putColumn]
    by_cases hk : k = c
    · by_cases hj : j = i
      · subst hj
        simp [hk, Pauli.bit_withBit]
      · simp [hk, hj]
    · simp [hk]
  have written : ((t.putColumn c l).half h).set? i c b = some (u.half h) := by
    rw [half, BitMatrix.set?_ofFn]
    refine congrArg (fun f => some (BitMatrix.ofFn (2 * n) n f)) (funext fun j => funext fun k => ?_)
    rw [← lettersAt, ← lettersAt, bits]
    simp
  have other (h' : Half) (apart : h' ≠ h) : u.half h' = (t.putColumn c l).half h' := by
    refine congrArg (BitMatrix.ofFn (2 * n) n) (funext fun j => funext fun k => ?_)
    rw [← lettersAt, ← lettersAt, bits]
    simp [apart]
  have minus (j : Fin (2 * n)) : (u.row j).minus = ((t.putColumn c l).row j).minus := by
    rw [minus_putColumn, minus_putColumn]
  simp only [writeBit, run_bind, run_state, Ending.andThen_returned, matrix_storage, written,
    run_access_some, run_setState, (t.putColumn c l).withMatrix_storage h minus rfl rfl other]
  rfl

/-! ## Loops -/

/-- A loop whose body does something to a tableau at every index. -/
theorem run_forM {m : Nat} {body : Nat → Program Storage Unit} {f : Tableau n → Fin m → Tableau n}
    (ran : ∀ (u : Tableau n) (i : Fin m), (body i).run u.storage = .returned () (f u i).storage) :
    ((List.range m).forM body).run t.storage =
      .returned () ((List.finRange m).foldl f t).storage := by
  have indices : List.range m = (List.finRange m).map Fin.val := by simp
  rw [indices]
  induction List.finRange m generalizing t with
  | nil => rfl
  | cons i l ih =>
    rw [List.map_cons]
    show ((body i).run t.storage).andThen _ = _
    rw [ran]
    exact ih (f t i)

/-- A loop over the columns does to every column what its body does to one. -/
theorem run_forM_columns {body : Nat → Program Storage Unit}
    {g : Fin n → (Fin (2 * n) → Pauli) → Fin (2 * n) → Pauli}
    (ran : ∀ (u : Tableau n) (c : Fin n) (l : Fin (2 * n) → Pauli),
      (body c).run (u.putColumn c l).storage = .returned () (u.putColumn c (g c l)).storage) :
    ((List.range n).forM body).run t.storage = .returned () (t.mapColumns g).storage := by
  let step (u : Tableau n) (c : Fin n) : Tableau n := u.putColumn c (g c (u.lettersAt c))
  have columns : (List.finRange n).foldl step t = t.mapColumns g := by
    refine ext_letters (fun i => ?_) (fun k => ?_) ?_
    · rw [minus_mapColumns]
      exact foldl_kept (fun u => (u.row i).minus) (fun u c => u.minus_putColumn c _ i) _ t
    · rw [lettersAt_mapColumns, foldl_parts lettersAt g (fun u c k => u.lettersAt_putColumn c k _)
        (List.nodup_finRange n) t k, if_pos (List.mem_finRange k)]
    · exact foldl_kept Tableau.scratch (fun u c => (rfl : (step u c).scratch = u.scratch)) _ t
  rw [run_forM t (f := step) fun u c => by simpa using ran u c (u.lettersAt c), columns]

theorem run_eachColumn {body : Nat → Program Storage Unit}
    {g : Fin n → (Fin (2 * n) → Pauli) → Fin (2 * n) → Pauli}
    (ran : ∀ (u : Tableau n) (c : Fin n) (l : Fin (2 * n) → Pauli),
      (body c).run (u.putColumn c l).storage = .returned () (u.putColumn c (g c l)).storage) :
    (eachColumn body).run t.storage = .returned () (t.mapColumns g).storage := by
  rw [← run_forM_columns t ran, eachColumn, run_bind, run_state, Ending.andThen_returned]
  show ((List.range (min n n)).forM body).run _ = _
  rw [Nat.min_self]

theorem run_eachColumnOf (h : Half) {body : Nat → Program Storage Unit}
    {g : Fin n → (Fin (2 * n) → Pauli) → Fin (2 * n) → Pauli}
    (ran : ∀ (u : Tableau n) (c : Fin n) (l : Fin (2 * n) → Pauli),
      (body c).run (u.putColumn c l).storage = .returned () (u.putColumn c (g c l)).storage) :
    (eachColumnOf h body).run t.storage = .returned () (t.mapColumns g).storage := by
  rw [← run_forM_columns t ran, eachColumnOf, run_bind, run_state, Ending.andThen_returned,
    matrix_storage]
  rfl

end Storage

end Stabilizer
