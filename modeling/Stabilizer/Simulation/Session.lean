import Stabilizer.Simulation.Query
import Stabilizer.Simulation.Update
import Stabilizer.Tableau.Construction
/-!
# Sessions

A session runs commands on one simulation at a time, keeps copies of tableaus to return to, and logs
what happened.  The coins belong to the session: whichever tableau is current draws the next ones.
-/

namespace Stabilizer

abbrev AnyTableau := (n : Nat) × Tableau n

inductive Start where
  | basis (n state : UInt64)
  | record (r : Record)
  | json (text : List Char)

inductive StartError where
  | invalid (error : Error)
  /-- Building was broken off. -/
  | aborted (crash : Crash)
  | json (error : Record.JsonError)

inductive Command where
  | update (u : Update)
  | query (q : Query)
  /-- Whether the tableau comes back from its record and from its JSON text. -/
  | roundTrip
  | load (r : Record)
  | save
  | restore (copy : Nat)
  /-- Compares the tableau with a copy: whether they are equal, and whether they differ. -/
  | compare (copy : Nat)

/-- The simulation under way, the copies kept, and the log so far. -/
structure Session where
  n : Nat
  simulation : Simulation n
  copies : Array AnyTableau
  log : Array Event

namespace Session

/-- The events of reading a record. -/
def recordEvents (n : Nat) : List Event := [.prepared n 0, .rebuilt n]

def ofTableau (tape : Tape) (events : List Event) (t : AnyTableau) : Session :=
  ⟨t.1, ⟨t.2, Coins.fresh tape⟩, #[], events.toArray⟩

def start (tape : Tape) : Start → Except StartError Session
  | .basis n state =>
    match Tableau.build n state with
    | .returned t _ => .ok (ofTableau tape [.prepared n.toNat state.toNat] ⟨n.toNat, t⟩)
    | .failed error _ => .error (.invalid error)
    | .aborted crash => .error (.aborted crash)
  | .record r =>
    match Tableau.ofRecord r with
    | .error error => .error (.invalid error)
    | .ok t => .ok (ofTableau tape (recordEvents r.n) ⟨r.n, t⟩)
  | .json text =>
    match Tableau.ofJson text with
    | .error error => .error (.json error)
    | .ok t => .ok (ofTableau tape (recordEvents t.1) t)

def record (s : Session) (events : List Event) : Session :=
  { s with log := s.log ++ events.toArray }

/-- The session with another tableau, the coins as before. -/
def replace (s : Session) (t : AnyTableau) : Session :=
  { s with n := t.1, simulation := ⟨t.2, s.simulation.coins⟩ }

def current (s : Session) : AnyTableau := ⟨s.n, s.simulation.tableau⟩

/-- Whether a tableau is equal to one read back. -/
def sameAs {ε : Type} (t : AnyTableau) : Except ε AnyTableau → Bool
  | .ok u => t.2.same u.2
  | .error _ => false

/-- Whether the tableau comes back from its record and from its JSON text. -/
def roundTrip (t : AnyTableau) : List Bool :=
  [sameAs t ((Tableau.ofRecord t.2.toRecord).map fun u => ⟨t.1, u⟩),
    sameAs t (Tableau.ofJson t.2.toJson)]

def attempt (s : Session) : Command → Except Refusal (Reply × Session)
  | .update u =>
    match s.simulation.attempt u with
    | .error refusal => .error refusal
    | .ok result => .ok (result.reply, { s with simulation := result.after }.record result.events)
  | .query q =>
    match s.simulation.tableau.answer q with
    | .error error => .error (.invalid error)
    | .ok reply => .ok (reply, s)
  | .roundTrip =>
    .ok (.flags (roundTrip s.current), s.record (recordEvents s.n ++ recordEvents s.n))
  | .load r =>
    match Tableau.ofRecord r with
    | .error error => .error (.invalid error)
    | .ok t => .ok (.done, (s.replace ⟨r.n, t⟩).record (recordEvents r.n))
  | .save => .ok (.count s.copies.size, { s with copies := s.copies.push s.current })
  | .restore copy =>
    match s.copies[copy]? with
    | some t => .ok (.done, s.replace t)
    | none => .error .unknown
  | .compare copy =>
    match s.copies[copy]? with
    | some t => .ok (.flags [s.current.2.same t.2, !t.2.same s.current.2], s)
    | none => .error .unknown

/-- Runs a command.  A refused command leaves the session as it was. -/
def run (s : Session) (c : Command) : Except Refusal Reply × Session :=
  match s.attempt c with
  | .ok (reply, after) => (.ok reply, after)
  | .error refusal => (.error refusal, s)

end Session

end Stabilizer
