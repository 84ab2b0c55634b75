import Mathlib.Logic.Equiv.Basic
import Stabilizer.Proofs.RowProduct
/-!
# A tableau as an array of strings

Read row by row, a tableau is an array of signed Pauli strings, and equal tableaus are those that are
the same array.  Storing, copying and exchanging rows and changing their signs acts on the bits of rows,
but on the array each of these writes is what its name says, and entries that it does not name stay,
also when it names one index twice.

After any writes an entry is the string that was stored there last, with the signs that were changed
since (`LastStored`).
-/

namespace Stabilizer

variable {n : Nat}

theorem Row.toPauli_injective : Function.Injective (Row.toPauli : Row n → PauliString) := by
  intro a b h
  apply Row.exact_injective
  rw [← Row.exact_toPauli, h, Row.exact_toPauli]

/-- The string with the other sign. -/
def PauliString.negated (p : PauliString) : PauliString := { p with sign := .ofBit !p.sign.toBit }

/-- Strings, one for each row of a tableau on `n` qubits. -/
abbrev RowArray (n : Nat) := Fin (2 * n) → PauliString

/-! ## Reading -/

namespace Tableau

/-- The rows as strings. -/
def entries (t : Tableau n) : RowArray n := fun i => (t.row i).toPauli

theorem readRow_eq_entries (t : Tableau n) (i : Fin (2 * n)) : t.readRow i = .ok (t.entries i) :=
  t.readRow_val i

/-- Tableaus that read the same are equal. -/
theorem beq_iff_entries_eq {t u : Tableau n} : (t == u) = true ↔ t.entries = u.entries := by
  rw [beq_iff_row_eq, funext_iff]
  exact forall_congr' fun i => Row.toPauli_injective.eq_iff.symm

theorem entries_put (t : Tableau n) (i : Fin (2 * n)) (a : Row n) :
    (t.put i a).entries = Function.update t.entries i a.toPauli := by
  funext k
  rw [entries, row_put, apply_ite Row.toPauli, Function.update_apply]
  rfl

/-- A string of the right length is stored. -/
theorem setRow_of_length (t : Tableau n) (i : Fin (2 * n)) {p : PauliString}
    (fits : p.letters.length = n) : t.setRow i p = .ok (t.put i (Row.ofPauli p fits)) := by
  rw [setRow, rowIndex_fin]
  exact dif_pos fits

end Tableau

/-! ## Writing -/

/-- A write to the rows of a tableau. -/
inductive RowWrite (n : Nat) where
  | store (i : Fin (2 * n)) (p : PauliString) (fits : p.letters.length = n)
  | copy (source target : Fin (2 * n))
  | swap (a b : Fin (2 * n))
  | setSign (i : Fin (2 * n)) (minus : Bool)
  | flipSign (i : Fin (2 * n))

namespace RowWrite

/-- The write as an operation on a tableau. -/
def run (t : Tableau n) : RowWrite n → Except Error (Tableau n)
  | store i p _ => t.setRow i p
  | copy source target => t.copyRow source target
  | swap a b => t.swapRows a b
  | setSign i minus => t.setSign i minus
  | flipSign i => t.flipSign i

/-- The write as an operation on an array. -/
def onArray (entries : RowArray n) : RowWrite n → RowArray n
  | store i p _ => Function.update entries i p
  | copy source target => Function.update entries target (entries source)
  | swap a b => entries ∘ Equiv.swap a b
  | setSign i minus => Function.update entries i { entries i with sign := .ofBit minus }
  | flipSign i => Function.update entries i (entries i).negated

/-- Writes one after the other. -/
def runAll (t : Tableau n) (writes : List (RowWrite n)) : Except Error (Tableau n) :=
  writes.foldlM run t

def onArrayAll (entries : RowArray n) (writes : List (RowWrite n)) : RowArray n :=
  writes.foldl onArray entries

theorem onArrayAll_append (entries : RowArray n) (before : List (RowWrite n)) (w : RowWrite n)
    (after : List (RowWrite n)) :
    onArrayAll entries (before ++ w :: after) =
      onArrayAll (w.onArray (onArrayAll entries before)) after :=
  List.foldl_append

/-- A write succeeds, and does to the array of rows what it does to arrays. -/
theorem exists_run (t : Tableau n) (w : RowWrite n) :
    ∃ u, w.run t = .ok u ∧ u.entries = w.onArray t.entries := by
  cases w with
  | store i p fits =>
    refine ⟨t.put i (Row.ofPauli p fits), t.setRow_of_length i fits, ?_⟩
    rw [Tableau.entries_put, Row.toPauli_ofPauli]
    rfl
  | copy source target =>
    refine ⟨t.copy source target, ?_, t.entries_put target _⟩
    rw [run, Tableau.copyRow, Tableau.rowIndex_fin, Tableau.rowIndex_fin]
    rfl
  | swap a b =>
    -- an exchange is two stores, and of these the second counts where both name one index
    refine ⟨t.exchange a b, ?_, ?_⟩
    · rw [run, Tableau.swapRows, Tableau.rowIndex_fin, Tableau.rowIndex_fin]
      rfl
    · rw [Tableau.exchange, Tableau.entries_put, Tableau.entries_put, onArray, Equiv.swap_comm,
        Equiv.comp_swap_eq_update]
      rfl
  | setSign i minus =>
    refine ⟨t.putSign i minus, ?_, t.entries_put i _⟩
    rw [run, Tableau.setSign, Tableau.rowIndex_fin]
    rfl
  | flipSign i =>
    refine ⟨t.negate i, ?_, ?_⟩
    · rw [run, Tableau.flipSign, Tableau.rowIndex_fin]
      rfl
    · rw [Tableau.negate, Tableau.putSign, Tableau.entries_put, onArray, PauliString.negated]
      simp only [Tableau.entries, Row.toPauli, Sign.toBit_ofBit]
      rfl

theorem exists_runAll (t : Tableau n) (writes : List (RowWrite n)) :
    ∃ u, runAll t writes = .ok u ∧ u.entries = onArrayAll t.entries writes := by
  induction writes generalizing t with
  | nil => exact ⟨t, rfl, rfl⟩
  | cons w writes ih =>
    obtain ⟨between, first, entries⟩ := exists_run t w
    obtain ⟨u, others, entries'⟩ := ih between
    refine ⟨u, ?_, ?_⟩
    · rw [runAll, List.foldlM_cons, first]
      exact others
    · rw [entries', entries]
      rfl

/-! ## The last write -/

/-- The write stores a string at the index.  A change of sign does not. -/
def Stores (i : Fin (2 * n)) : RowWrite n → Prop
  | store j _ _ => i = j
  | copy _ target => i = target
  | swap a b => i = a ∨ i = b
  | setSign _ _ | flipSign _ => False

/-- What the write makes of the sign of the string that stands at the index. -/
def resign (i : Fin (2 * n)) (p : PauliString) : RowWrite n → PauliString
  | setSign j minus => if i = j then { p with sign := .ofBit minus } else p
  | flipSign j => if i = j then p.negated else p
  | _ => p

def resignAll (i : Fin (2 * n)) (p : PauliString) (writes : List (RowWrite n)) : PauliString :=
  writes.foldl (resign i) p

/-- What stands at an index after some writes to an array: the string that the last of them that stores
one there stores, or else the string from the beginning, and in either case the signs are changed as the
later writes say. -/
inductive LastStored (entries : RowArray n) (writes : List (RowWrite n)) (i : Fin (2 * n)) :
    PauliString → Prop
  | untouched (nowhere : ∀ w ∈ writes, ¬ w.Stores i) :
      LastStored entries writes i (resignAll i (entries i) writes)
  | stored {before after : List (RowWrite n)} {w : RowWrite n} (split : writes = before ++ w :: after)
      (stores : w.Stores i) (last : ∀ v ∈ after, ¬ v.Stores i) :
      LastStored entries writes i (resignAll i (w.onArray (onArrayAll entries before) i) after)

variable {entries : RowArray n} {writes : List (RowWrite n)} {w : RowWrite n} {i : Fin (2 * n)}

/-- An entry that is replaced by a function of itself. -/
theorem update_apply_entry (entries : RowArray n) (f : PauliString → PauliString) (i j : Fin (2 * n)) :
    Function.update entries j (f (entries j)) i = if i = j then f (entries i) else entries i := by
  rw [Function.update_apply]
  exact if_ctx_congr Iff.rfl (fun same => by rw [same]) fun _ => rfl

/-- Where a write stores nothing it changes the sign at most. -/
theorem onArray_of_not_stores (h : ¬ w.Stores i) (entries : RowArray n) :
    w.onArray entries i = w.resign i (entries i) := by
  cases w with
  | store j p fits => exact Function.update_of_ne h _ _
  | copy source target => exact Function.update_of_ne h _ _
  | swap a b =>
    obtain ⟨ha, hb⟩ := not_or.1 h
    exact congrArg entries (Equiv.swap_apply_of_ne_of_ne ha hb)
  | setSign j minus => exact update_apply_entry entries (fun p => { p with sign := .ofBit minus }) i j
  | flipSign j => exact update_apply_entry entries PauliString.negated i j

/-- Nor do many. -/
theorem onArrayAll_of_nowhere (nowhere : ∀ w ∈ writes, ¬ w.Stores i) (entries : RowArray n) :
    onArrayAll entries writes i = resignAll i (entries i) writes := by
  induction writes generalizing entries with
  | nil => rfl
  | cons w writes ih =>
    obtain ⟨here, later⟩ := List.forall_mem_cons.1 nowhere
    rw [resignAll, List.foldl_cons, ← onArray_of_not_stores here]
    exact ih later (w.onArray entries)

theorem resignAll_append (i : Fin (2 * n)) (p : PauliString) (writes : List (RowWrite n))
    (w : RowWrite n) : resignAll i p (writes ++ [w]) = w.resign i (resignAll i p writes) :=
  List.foldl_append

/-- One more write that stores nothing at the index. -/
theorem LastStored.append {p : PauliString} (h : LastStored entries writes i p) (hw : ¬ w.Stores i) :
    LastStored entries (writes ++ [w]) i (w.resign i p) := by
  have later {l : List (RowWrite n)} (hl : ∀ v ∈ l, ¬ v.Stores i) : ∀ v ∈ l ++ [w], ¬ v.Stores i := by
    intro v hv
    obtain hv | hv := List.mem_append.1 hv
    · exact hl v hv
    · rwa [List.mem_singleton.1 hv]
  cases h with
  | untouched nowhere =>
    rw [← resignAll_append]
    exact .untouched (later nowhere)
  | @stored before after v split stores last =>
    rw [← resignAll_append]
    exact .stored (by rw [split, List.append_assoc, List.cons_append]) stores (later last)

/-- No other string is the last. -/
theorem LastStored.eq {p : PauliString} (h : LastStored entries writes i p) :
    p = onArrayAll entries writes i := by
  cases h with
  | untouched nowhere => exact (onArrayAll_of_nowhere nowhere entries).symm
  | @stored before after v split stores last =>
    rw [split, onArrayAll_append]
    exact (onArrayAll_of_nowhere last _).symm

theorem lastStored_onArrayAll (entries : RowArray n) (writes : List (RowWrite n)) (i : Fin (2 * n)) :
    LastStored entries writes i (onArrayAll entries writes i) := by
  -- The newest write is at the end of the list, so that is where the induction takes it off.
  induction writes using List.reverseRecOn with
  | nil => exact .untouched fun w hw => absurd hw List.not_mem_nil
  | append_singleton writes w ih =>
    have newest : onArrayAll entries (writes ++ [w]) = w.onArray (onArrayAll entries writes) :=
      onArrayAll_append entries writes w []
    rw [newest]
    by_cases stores : w.Stores i
    · exact .stored rfl stores fun v hv => absurd hv List.not_mem_nil
    · rw [onArray_of_not_stores stores]
      exact ih.append stores

theorem lastStored_iff {p : PauliString} :
    LastStored entries writes i p ↔ p = onArrayAll entries writes i :=
  ⟨LastStored.eq, fun h => h ▸ lastStored_onArrayAll entries writes i⟩

end RowWrite

namespace Tableau

/-- **Rows are an array of strings.**  Tableaus are equal when all rows read the same.  Writes act on the
rows that are read as they act on an array; and after any writes a row reads as what was stored there
last, with the signs that were changed since. -/
theorem readRow_writes :
    (∀ t u : Tableau n, (t == u) = true ↔ ∀ i : Fin (2 * n), t.readRow i = u.readRow i) ∧
      ∀ t : Tableau n, (∀ i : Fin (2 * n), t.readRow i = .ok (t.entries i)) ∧
        (∀ w : RowWrite n, ∃ u, w.run t = .ok u ∧
          ∀ i : Fin (2 * n), u.readRow i = .ok (w.onArray t.entries i)) ∧
        ∀ writes, ∃ u, RowWrite.runAll t writes = .ok u ∧
          ∀ (i : Fin (2 * n)) (p : PauliString),
            u.readRow i = .ok p ↔ RowWrite.LastStored t.entries writes i p := by
  refine ⟨fun t u => ?_, fun t => ⟨t.readRow_eq_entries, fun w => ?_, fun writes => ?_⟩⟩
  · simp only [beq_iff_entries_eq, funext_iff, readRow_eq_entries, Except.ok.injEq]
  · obtain ⟨u, done, entries⟩ := w.exists_run t
    refine ⟨u, done, fun i => ?_⟩
    rw [readRow_eq_entries, entries]
  · obtain ⟨u, done, entries⟩ := RowWrite.exists_runAll t writes
    refine ⟨u, done, fun i p => ?_⟩
    rw [readRow_eq_entries, entries, Except.ok.injEq, RowWrite.lastStored_iff, eq_comm]

end Tableau

end Stabilizer
