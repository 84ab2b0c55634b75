import Stabilizer.Proofs.Conjugation
import Stabilizer.Proofs.Measurement
import Stabilizer.Simulation.Session
/-!
# Runs

A simulation runs updates one after the other; one that is refused changes nothing.  A circuit is made
of gates on different qubits and of measurements.
-/

namespace Stabilizer

variable {n : Nat}

/-- The gate at other positions. -/
def Gate.map {ι κ : Type} (f : ι → κ) : Gate ι → Gate κ
  | .h k => .h (f k)
  | .s k => .s (f k)
  | .x k => .x (f k)
  | .cnot control target => .cnot (f control) (f target)

@[simp] theorem Gate.locate?_map_val (u : Gate (Fin n)) : (u.map Fin.val).locate? n = some u := by
  cases u <;> simp [Gate.map, Gate.locate?]

namespace Simulation

/-- Runs an update. -/
def run (s : Simulation n) (u : Update) : Except Refusal Reply × Simulation n :=
  match s.attempt u with
  | .ok result => (.ok result.reply, result.after)
  | .error refusal => (.error refusal, s)

/-- The simulation after some updates. -/
def runAll (s : Simulation n) (us : List Update) : Simulation n :=
  us.foldl (fun s u => (s.run u).2) s

@[simp] theorem runAll_nil (s : Simulation n) : s.runAll [] = s := rfl

@[simp] theorem runAll_cons (s : Simulation n) (u : Update) (us : List Update) :
    s.runAll (u :: us) = (s.run u).2.runAll us := rfl

theorem runAll_append (s : Simulation n) (us vs : List Update) :
    s.runAll (us ++ vs) = (s.runAll us).runAll vs := List.foldl_append

/-- What some updates answer, one after the other. -/
def replies (s : Simulation n) : List Update → List (Except Refusal Reply)
  | [] => []
  | u :: us => (s.run u).1 :: (s.run u).2.replies us

/-- What an update logs. -/
def events (s : Simulation n) (u : Update) : List Event :=
  match s.attempt u with
  | .ok result => result.events
  | .error _ => []

/-- An update of the tableau alone. -/
theorem run_of_settle {s : Simulation n} {u : Update} {result : Except Error (Tableau n)}
    (h : s.attempt u = s.settle result) :
    (s.run u).2 = { s with tableau := result.toOption.getD s.tableau } := by
  rw [run, h]
  cases result <;> rfl

theorem run_gate (s : Simulation n) (u : Gate (Fin n)) :
    s.run (.gate (u.map Fin.val)) = (.ok .done, { s with tableau := s.tableau.apply u }) := by
  simp [run, attempt, settle]

theorem run_measure_of_ok {s : Simulation n} {q : Nat} {outcome : Outcome} {t : Tableau n}
    {coins : Coins} (h : s.tableau.measure q s.coins = .ok (outcome, t, coins)) :
    s.run (.measure q) = (.ok (.outcome outcome coins.drawn), ⟨t, coins⟩) := by
  rw [run, attempt, h]

theorem run_measure_of_none {s : Simulation n} {q : Fin n} (h : s.tableau.pivot? q = none) :
    s.run (.measure q) =
      (.ok (.outcome (.deterministic (s.tableau.determined q).minus) s.coins.drawn),
        { s with tableau := { s.tableau with scratch := s.tableau.determined q } }) :=
  run_measure_of_ok (Tableau.measure_of_none h _)

theorem run_measure_of_some {s : Simulation n} {q p : Fin n} (h : s.tableau.pivot? q = some p) :
    s.run (.measure q) =
      (.ok (.outcome (.random s.coins.next) s.coins.advance.drawn),
        ⟨s.tableau.collapse q p s.coins.next, s.coins.advance⟩) :=
  run_measure_of_ok (Tableau.measure_of_some h _)

theorem run_measure_of_le {s : Simulation n} {q : Nat} (h : n ≤ q) :
    s.run (.measure q) = (.error (.invalid (.qubitOutOfBounds q n)), s) := by
  rw [run, attempt, Tableau.measure_of_le h]

end Simulation

namespace Session

/-- A session runs an update on its simulation, and beside that only its log changes. -/
theorem run_update (s : Session) (u : Update) :
    s.run (.update u) =
      ((s.simulation.run u).1,
        { s with
          simulation := (s.simulation.run u).2
          log := s.log ++ (s.simulation.events u).toArray }) := by
  rw [run, attempt, Simulation.run, Simulation.events]
  rcases s.simulation.attempt u with refusal | result
  · simp
  · rfl

/-- The session after some commands. -/
def runAll (s : Session) (commands : List Command) : Session :=
  commands.foldl (fun s c => (s.run c).2) s

@[simp] theorem runAll_cons (s : Session) (c : Command) (commands : List Command) :
    s.runAll (c :: commands) = (s.run c).2.runAll commands := rfl

/-- What some commands answer, one after the other. -/
def replies (s : Session) : List Command → List (Except Refusal Reply)
  | [] => []
  | c :: commands => (s.run c).1 :: (s.run c).2.replies commands

end Session

/-- A step of a circuit. -/
inductive CircuitStep (n : Nat) where
  | gate (u : Gate (Fin n)) (distinct : u.Distinct)
  | measure (qubit : Nat)

/-- The update that a step of a circuit is. -/
def CircuitStep.update : CircuitStep n → Update
  | .gate u _ => .gate (u.map Fin.val)
  | .measure q => .measure q

end Stabilizer
