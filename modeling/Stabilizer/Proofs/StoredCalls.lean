import Stabilizer.Machine.Call
import Stabilizer.Proofs.Run
import Stabilizer.Proofs.StoredGates
import Stabilizer.Proofs.StoredMeasurement
import Stabilizer.Proofs.StoredValidation
/-!
# Calls in containers

Every call does to the containers what it does to the rows, and answers the same; a call that fails leaves
the containers and the coins as they were (`Call.run_program`).  So do the updates of a simulation, one by
one (`Simulation.run_program`) and one after the other (`Simulation.runAll_stored`).
-/

namespace Stabilizer

variable {n : Nat}

/-! ## Calls -/

namespace Call

/-- A reply, with the tableau and the coins that it leaves. -/
abbrev Replied (n : Nat) := Reply × Tableau n × Coins

/-- The reply, with the tableau in containers. -/
def stored (r : Replied n) : Ending (Storage × Coins) Reply := .returned r.1 (r.2.1.storage, r.2.2)

/-- The call as an operation on rows. -/
def onTableau (t : Tableau n) (coins : Coins) : Call → Except Error (Replied n)
  | rowsum target source => return (.done, ← t.rowsum target source, coins)
  | copyRow source target => return (.done, ← t.copyRow source target, coins)
  | swapRows a b => return (.done, ← t.swapRows a b, coins)
  | setSign row minus => return (.done, ← t.setSign row minus, coins)
  | flipSign row => return (.done, ← t.flipSign row, coins)
  | setRow row p => return (.done, ← t.setRow row p, coins)
  | setMatrix half m => return (.done, ← t.setHalf half m, coins)
  | setSigns bits => return (.done, ← t.setSigns bits, coins)
  | measure q => do
    let (outcome, after) ← t.measure q coins
    return (.outcome outcome after.2.drawn, after)
  | isDeterministic q => return (.flag (← t.isDeterministic q), t, coins)
  | readRow row => return (.pauli (← t.readRow row), t, coins)
  | stabilizers => return (.texts (t.stabilizers.map (·.render .plain)), t, coins)
  | destabilizers => return (.texts (t.destabilizers.map (·.render .plain)), t, coins)
  | validate => return (.flag t.isSymplectic, t, coins)
  | toRecord => return (.record t.toRecord, t, coins)

end Call

namespace Machine

open Program

variable {t : Tableau n} {coins : Coins}

/-- An operation that changes the tableau alone. -/
theorem run_change {p : Program Storage Unit} {result : Except Error (Tableau n)}
    (ran : p.run t.storage = .check t.storage result fun u => .returned () u.storage) :
    (change p).run (t.storage, coins) =
      .check (t.storage, coins) (do return (.done, ← result, coins)) Call.stored := by
  rw [change, run_bind, run_onFirst, ran]
  cases result <;> rfl

/-- An operation that only reads. -/
theorem run_query {α : Type} {p : Program Storage α} {result : Except Error α}
    (ran : p.run t.storage = .check t.storage result fun a => .returned a t.storage) (f : α → Reply) :
    (do return f (← p.onFirst) : Machine Reply).run (t.storage, coins) =
      .check (t.storage, coins) (do return (f (← result), t, coins)) Call.stored := by
  rw [run_bind, run_onFirst, ran]
  cases result <;> rfl

/-- An operation that reads and cannot fail. -/
theorem run_reading {α : Type} {p : Program Storage α} {a : α}
    (ran : p.run t.storage = .returned a t.storage) (f : α → Reply) :
    (do return f (← p.onFirst) : Machine Reply).run (t.storage, coins) =
      Call.stored (f a, t, coins) := by
  rw [run_bind, run_onFirst, ran]
  rfl

end Machine

open Machine in
/-- **A call in containers is the call on rows.** -/
theorem Call.run_program (t : Tableau n) (coins : Coins) (call : Call) :
    call.program.run (t.storage, coins) =
      .check (t.storage, coins) (call.onTableau t coins) Call.stored := by
  cases call with
  | rowsum target source => exact run_change (Storage.run_rowsum t target source)
  | copyRow source target => exact run_change (Storage.run_copyRow t source target)
  | swapRows a b => exact run_change (Storage.run_swapRows t a b)
  | setSign row minus => exact run_change (Storage.run_setSign t row minus)
  | flipSign row => exact run_change (Storage.run_flipSign t row)
  | setRow row p => exact run_change (Storage.run_setRow t row p)
  | setMatrix half m => exact run_change (Storage.run_setMatrix t half m)
  | setSigns bits => exact run_change (Storage.run_setSigns t bits)
  | measure q =>
    show ((Machine.measure q).run (t.storage, coins)).andThen _ = _
    rw [run_measure, onTableau]
    cases t.measure q coins <;> rfl
  | isDeterministic q => exact run_query (Storage.run_isDeterministic t q) .flag
  | readRow row => exact run_query (Storage.run_readRow t row) .pauli
  | stabilizers => exact run_reading (Storage.run_stabilizers t) _
  | destabilizers => exact run_reading (Storage.run_destabilizers t) _
  | validate => exact run_reading (Storage.run_validate t) _
  | toRecord => exact run_reading (Storage.run_toRecord t) _

/-! ## Updates -/

namespace Simulation

open Program

/-- The simulation with its tableau in containers. -/
def stored (s : Simulation n) : Storage × Coins := (s.tableau.storage, s.coins)

/-- How a step ends in containers.  Where it is refused for a position that there is not, it is broken
off; where a tableau refuses it, nothing is changed. -/
def ended (s : Simulation n) : Except Refusal (StepResult n) → Ending (Storage × Coins) Reply
  | .ok result => .returned result.reply result.after.stored
  | .error (.invalid error) => .failed error s.stored
  | .error .unknown => .aborted .outOfRange

theorem ended_settle (s : Simulation n) (result : Except Error (Tableau n)) :
    s.ended (s.settle result) =
      .check s.stored (do return (.done, ← result, s.coins)) Call.stored := by
  cases result <;> rfl

/-- **An update in containers is the update of the simulation.** -/
theorem run_program (s : Simulation n) (u : Update) :
    u.program.run s.stored = s.ended (s.attempt u) := by
  have call (c : Call) := c.run_program s.tableau s.coins
  cases u with
  | rowsum target source => exact (call (.rowsum target source)).trans (s.ended_settle _).symm
  | copyRow source target => exact (call (.copyRow source target)).trans (s.ended_settle _).symm
  | swapRows a b => exact (call (.swapRows a b)).trans (s.ended_settle _).symm
  | setSign row minus => exact (call (.setSign row minus)).trans (s.ended_settle _).symm
  | flipSign row => exact (call (.flipSign row)).trans (s.ended_settle _).symm
  | setRow row text =>
    rw [Update.program, run_bind, attempt]
    cases PauliString.parse text with
    | error e => rfl
    | ok p => exact (call (.setRow row p)).trans (s.ended_settle _).symm
  | setXParts m => exact (call (.setMatrix .x m)).trans (s.ended_settle _).symm
  | setZParts m => exact (call (.setMatrix .z m)).trans (s.ended_settle _).symm
  | setSigns bits => exact (call (.setSigns bits)).trans (s.ended_settle _).symm
  | gate g =>
    rw [attempt]
    cases located : g.locate? n with
    | none =>
      rw [Update.program, stored, Machine.change, run_bind, run_onFirst, Storage.run_gate_of_none _ located]
      rfl
    | some u =>
      rw [Update.program, stored, Machine.change, run_bind, run_onFirst, Storage.run_gate _ located]
      rfl
  | measure q =>
    refine (call (.measure q)).trans ?_
    rw [attempt, Call.onTableau]
    cases s.tableau.measure q s.coins <;> rfl

theorem settle_ne_unknown (s : Simulation n) (result : Except Error (Tableau n)) :
    s.settle result ≠ .error .unknown := by
  cases result <;> simp [settle]

/-- Only gates are given positions that are not checked. -/
theorem exists_gate_of_unknown {s : Simulation n} {u : Update} (h : s.attempt u = .error .unknown) :
    ∃ g, u = .gate g ∧ g.locate? n = none := by
  cases u with
  | gate g =>
    rw [attempt] at h
    cases located : g.locate? n with
    | none => exact ⟨g, rfl, located⟩
    | some u =>
      rw [located] at h
      exact absurd h (s.settle_ne_unknown _)
  | measure q =>
    rw [attempt] at h
    cases measured : s.tableau.measure q s.coins <;> rw [measured] at h <;> cases h
  | _ => exact absurd h (s.settle_ne_unknown _)

/-- The positions of all gates are in range. -/
def InRange (n : Nat) (us : List Update) : Prop := ∀ g, .gate g ∈ us → (g.locate? n).isSome

/-- **A run in containers is the run of the simulation**: if no gate is out of range, the containers and the
coins are at any time those of the simulation, past all updates that were refused. -/
theorem runAll_stored (s : Simulation n) {us : List Update} (inRange : InRange n us) :
    us.foldlM (fun state u => (u.program.run state).state?) s.stored = some (s.runAll us).stored := by
  induction us generalizing s with
  | nil => rfl
  | cons u us ih =>
    have step : (u.program.run s.stored).state? = some (s.run u).2.stored := by
      rw [run_program, run]
      cases attempted : s.attempt u with
      | ok result => rfl
      | error refusal =>
        cases refusal with
        | invalid e => rfl
        | unknown =>
          obtain ⟨g, rfl, outside⟩ := exists_gate_of_unknown attempted
          have inside := inRange g List.mem_cons_self
          rw [outside] at inside
          cases inside
    rw [List.foldlM_cons, step]
    exact ih (s.run u).2 fun g hg => inRange g (List.mem_cons_of_mem u hg)

end Simulation

end Stabilizer
