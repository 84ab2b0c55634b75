import Stabilizer.Proofs.StoredCalls
import Stabilizer.Proofs.StoredConstruction
/-!
# Checked calls

Calls take any numbers, strings and shapes.  `Call.error?` says, from the number of qubits and the arguments
alone, which calls are refused and with what error: of several row numbers the first that is out of range
counts, a row number comes before the length of a string.

Containers that were built on some number of qubits, and whatever calls were made on them since, keep the
dimensions that belong to it.  That holds because the calls are those on rows (`Call.run_program`), which
know no other dimensions.  So no call is ever broken off: one whose arguments are as they should be
returns, and any other fails and leaves containers and coins as they were (`Reachable.calls_checked`).
-/

namespace Stabilizer

variable {n : Nat} {ε α β : Type}

/-! ## Faults -/

/-- The first of some row numbers that is none. -/
def rowFault (n : Nat) (rows : List Nat) : Option Error :=
  (rows.find? fun i => decide (2 * n ≤ i)).map fun i => .rowOutOfBounds i (2 * n)

def qubitFault (n q : Nat) : Option Error := if q < n then none else some (.qubitOutOfBounds q n)

def shapeFault (part : Part) (expected found : List Nat) : Option Error :=
  if found = expected then none else some (.shapeMismatch part expected found)

theorem rowFault_singleton (n i : Nat) :
    rowFault n [i] = if i < 2 * n then none else some (.rowOutOfBounds i (2 * n)) := by
  obtain hi | hi := Nat.lt_or_ge i (2 * n)
  · simp [rowFault, hi]
  · simp [rowFault, hi, Nat.not_lt.2 hi]

theorem rowFault_cons (n i : Nat) (rows : List Nat) :
    rowFault n (i :: rows) = (rowFault n [i]).or (rowFault n rows) := by
  by_cases hi : 2 * n ≤ i <;> simp [rowFault, hi]

theorem shapeFault_singleton (part : Part) (expected found : Nat) :
    shapeFault part [expected] [found] =
      if found = expected then none else some (.shapeMismatch part [expected] [found]) := by
  simp [shapeFault]

/-- An operation that fails with the fault, if there is one, and succeeds if there is none. -/
def Checked (fault : Option ε) (result : Except ε α) : Prop :=
  match fault with
  | some error => result = .error error
  | none => ∃ a, result = .ok a

namespace Checked

variable {fault fault' : Option ε} {result : Except ε α}

theorem ok (a : α) : Checked none (.ok a : Except ε α) := ⟨a, rfl⟩

theorem error (e : ε) : Checked (some e) (.error e : Except ε α) := rfl

theorem cases (h : Checked fault result) :
    (∃ e, fault = some e ∧ result = .error e) ∨ ∃ a, fault = none ∧ result = .ok a := by
  cases fault with
  | some e => exact .inl ⟨e, rfl, h⟩
  | none => exact .inr (h.imp fun a done => ⟨rfl, done⟩)

/-- Checks are made one after the other. -/
theorem bind {next : α → Except ε β} (h : Checked fault result)
    (h' : ∀ a, Checked fault' (next a)) : Checked (fault.or fault') (result >>= next) := by
  obtain ⟨e, rfl, rfl⟩ | ⟨a, rfl, rfl⟩ := h.cases
  · exact error e
  · exact h' a

theorem map (h : Checked fault result) (f : α → β) : Checked fault (f <$> result) := by
  obtain ⟨e, rfl, rfl⟩ | ⟨a, rfl, rfl⟩ := h.cases
  · exact error e
  · exact ok (f a)

theorem guarded {c : Prop} [Decidable c] (e : ε) (a : c → α) :
    Checked (if c then none else some e) (if h : c then .ok (a h) else .error e) := by
  split
  · exact ok _
  · exact error e

theorem rowIndex (n i : Nat) : Checked (rowFault n [i]) (Tableau.rowIndex n i) := by
  rw [rowFault_singleton]
  exact guarded _ _

theorem qubitIndex (n q : Nat) : Checked (qubitFault n q) (Tableau.qubitIndex n q) := guarded _ _

end Checked

/-! ## Operations -/

namespace Tableau

variable (t : Tableau n)

theorem checked_rowsum (target source : Nat) :
    Checked (rowFault n [target, source]) (t.rowsum target source) := by
  rw [rowFault_cons]
  exact (Checked.rowIndex n target).bind fun i => (Checked.rowIndex n source).map (t.multiply i)

theorem checked_copyRow (source target : Nat) :
    Checked (rowFault n [source, target]) (t.copyRow source target) := by
  rw [rowFault_cons]
  exact (Checked.rowIndex n source).bind fun i => (Checked.rowIndex n target).map (t.copy i)

theorem checked_swapRows (a b : Nat) : Checked (rowFault n [a, b]) (t.swapRows a b) := by
  rw [rowFault_cons]
  exact (Checked.rowIndex n a).bind fun i => (Checked.rowIndex n b).map (t.exchange i)

theorem checked_setSign (row : Nat) (minus : Bool) :
    Checked (rowFault n [row]) (t.setSign row minus) :=
  (Checked.rowIndex n row).map (t.putSign · minus)

theorem checked_flipSign (row : Nat) : Checked (rowFault n [row]) (t.flipSign row) :=
  (Checked.rowIndex n row).map t.negate

/-- The row is checked before the length of the string. -/
theorem checked_setRow (row : Nat) (p : PauliString) :
    Checked ((rowFault n [row]).or (shapeFault .row [n] [p.length])) (t.setRow row p) := by
  refine (Checked.rowIndex n row).bind fun i => ?_
  rw [shapeFault_singleton]
  exact .guarded _ _

theorem checked_setHalf (h : Half) (m : BitMatrix) :
    Checked (shapeFault h.part [2 * n, n] m.shape) (t.setHalf h m) := by
  cases h
  · exact .guarded _ fun _ => _
  · exact .guarded _ fun _ => _

theorem checked_setSigns (bits : Array Bool) :
    Checked (shapeFault .signs [2 * n] [bits.size]) (t.setSigns bits) := by
  rw [shapeFault_singleton]
  exact .guarded _ _

theorem checked_measure (q : Nat) (coins : Coins) : Checked (qubitFault n q) (t.measure q coins) :=
  (Checked.qubitIndex n q).map _

theorem checked_isDeterministic (q : Nat) : Checked (qubitFault n q) (t.isDeterministic q) :=
  (Checked.qubitIndex n q).map _

theorem checked_readRow (i : Nat) : Checked (rowFault n [i]) (t.readRow i) :=
  (Checked.rowIndex n i).map _

end Tableau

/-! ## Calls -/

/-- Why a call on `n` qubits is refused, if it is. -/
def Call.error? (n : Nat) : Call → Option Error
  | rowsum target source => rowFault n [target, source]
  | copyRow source target => rowFault n [source, target]
  | swapRows a b => rowFault n [a, b]
  | setSign row _ | flipSign row | readRow row => rowFault n [row]
  | setRow row p => (rowFault n [row]).or (shapeFault .row [n] [p.length])
  | setMatrix half m => shapeFault half.part [2 * n, n] m.shape
  | setSigns bits => shapeFault .signs [2 * n] [bits.size]
  | measure q | isDeterministic q => qubitFault n q
  | stabilizers | destabilizers | validate | toRecord => none

theorem Call.checked_onTableau (t : Tableau n) (coins : Coins) (call : Call) :
    Checked (call.error? n) (call.onTableau t coins) := by
  cases call with
  | rowsum target source => exact (t.checked_rowsum target source).map _
  | copyRow source target => exact (t.checked_copyRow source target).map _
  | swapRows a b => exact (t.checked_swapRows a b).map _
  | setSign row minus => exact (t.checked_setSign row minus).map _
  | flipSign row => exact (t.checked_flipSign row).map _
  | setRow row p => exact (t.checked_setRow row p).map _
  | setMatrix half m => exact (t.checked_setHalf half m).map _
  | setSigns bits => exact (t.checked_setSigns bits).map _
  | measure q => exact (t.checked_measure q coins).map _
  | isDeterministic q => exact (t.checked_isDeterministic q).map _
  | readRow row => exact (t.checked_readRow row).map _
  | stabilizers | destabilizers | validate | toRecord => exact .ok _

/-! ## Dimensions -/

/-- The containers are as large as `m` qubits need them, and their entries have addresses. -/
structure Storage.Sized (s : Storage) (m : Nat) : Prop where
  numQubits : s.n = m
  positive : 0 < m
  addresses : 2 * m * m < Nat.pow 2 64
  xs : s.xs.shape = [2 * m, m]
  zs : s.zs.shape = [2 * m, m]
  signs : s.rs.size = 2 * m
  scratchX : s.scratch.x.size = m
  scratchZ : s.scratch.z.size = m

theorem Tableau.sized_storage (t : Tableau n) : t.storage.Sized n where
  numQubits := rfl
  positive := t.addressable.1
  addresses := t.addressable.2
  xs := rfl
  zs := rfl
  signs := Array.size_ofFn
  scratchX := t.scratch.x.size_toArray
  scratchZ := t.scratch.z.size_toArray

/-- The containers that come of building a tableau on `m` qubits, from words or from a record, and of
calls on it, with any coins.  Also what a call leaves that fails. -/
inductive Reachable (m : Nat) : Storage → Prop
  | basis {n state : UInt64} {s : Storage} (size : n.toNat = m)
      (built : (Storage.new n state).run () = .returned s ()) : Reachable m s
  | record {r : Record} {s : Storage} (size : r.n = m)
      (built : (Storage.ofRecord r).run () = .returned s ()) : Reachable m s
  | call {s after : Storage} {coins coins' : Coins} (before : Reachable m s) (call : Call)
      (left : (call.program.run (s, coins)).state? = some (after, coins')) : Reachable m after

namespace Reachable

variable {m : Nat} {s : Storage}

/-- Reachable containers hold a tableau on the number of qubits that they were built with. -/
theorem exists_tableau (h : Reachable m s) : ∃ t : Tableau m, s = t.storage := by
  induction h with
  | basis size built =>
    subst size
    exact Storage.exists_of_ofResult ((Storage.run_new _ _).symm.trans built)
  | record size built =>
    subst size
    exact Storage.exists_of_ofResult ((Storage.run_ofRecord _).symm.trans built)
  | @call s after coins coins' before call left ih =>
    obtain ⟨t, rfl⟩ := ih
    rw [call.run_program] at left
    cases called : call.onTableau t coins with
    | error e =>
      rw [called] at left
      cases left
      exact ⟨t, rfl⟩
    | ok r =>
      rw [called] at left
      cases left
      exact ⟨r.2.1, rfl⟩

/-- **Calls are checked.**  Containers keep the number of qubits that they were built with, and all of them
have the size that belongs to it.  Every call with arguments as they should be returns, and every other
fails with its first fault and leaves containers and coins as they were; none is broken off. -/
theorem calls_checked (h : Reachable m s) :
    s.Sized m ∧ ∀ (coins : Coins) (call : Call),
      match call.error? m with
      | some error => call.program.run (s, coins) = .failed error (s, coins)
      | none => ∃ reply after, call.program.run (s, coins) = .returned reply after := by
  obtain ⟨t, rfl⟩ := h.exists_tableau
  refine ⟨t.sized_storage, fun coins call => ?_⟩
  rw [call.run_program]
  obtain ⟨e, fault, failed⟩ | ⟨r, fault, done⟩ := (call.checked_onTableau t coins).cases
  · rw [fault, failed]
    rfl
  · rw [fault, done]
    exact ⟨_, _, rfl⟩

/-- Two qubits after a measurement.  A source row is out of range, and so is the target row, which is
reported. -/
theorem calls_checked_two_qubits :
    let coins := Coins.fresh fun _ => 0x80000000
    let call := Call.rowsum 18446744073709551615 4
    ∃ s, Reachable 2 s ∧ call.program.run (s, coins) =
      .failed (.rowOutOfBounds 18446744073709551615 4) (s, coins) := by
  intro coins call
  have built : (Storage.new 2 1).run () = .returned (Tableau.basis 2 1 (by decide)).storage () :=
    Storage.new_of_fits (n := 2) (by decide) (by decide) (by decide)
  have start : Reachable 2 (Tableau.basis 2 1 (by decide)).storage := .basis (n := 2) rfl built
  have measures : ∃ reply after, (Call.measure 1).program.run (_, coins) = .returned reply after :=
    start.calls_checked.2 coins (.measure 1)
  obtain ⟨reply, after, measured⟩ := measures
  have measured : Reachable 2 after.1 := .call start (.measure 1) (congrArg Ending.state? measured)
  exact ⟨after.1, measured, measured.calls_checked.2 coins call⟩

end Reachable

end Stabilizer
