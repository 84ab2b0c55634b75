import Stabilizer.Simulation.Reply
import Stabilizer.Tableau.Listing
import Stabilizer.Tableau.RecordJson
import Stabilizer.Tableau.Symplectic
/-!
# Queries

What can be read off a tableau.  A query changes nothing.
-/

namespace Stabilizer

inductive Query where
  | isDeterministic (qubit : Nat)
  | row (i : Nat)
  | commutes (i j : Nat)
  /-- Whether the symplectic condition holds. -/
  | isSymplectic
  | numQubits
  | xParts
  | zParts
  | signs
  | stabilizers
  | destabilizers
  | paired (style : Style)
  | listing
  | table
  | dump
  | indentedDump
  | record
  | recordDump
  | json

namespace Tableau

variable {n : Nat}

def answer (t : Tableau n) : Query → Except Error Reply
  | .isDeterministic q => return .flag (← t.isDeterministic q)
  | .row i => return .pauli (← t.readRow i)
  | .commutes i j => do
    let a ← t.readRow i
    let b ← t.readRow j
    return .flag (a.commutesWith b)
  | .isSymplectic => return .flag t.isSymplectic
  | .numQubits => return .count n
  | .xParts => return .matrix t.xParts
  | .zParts => return .matrix t.zParts
  | .signs => return .bits t.signs
  | .stabilizers => return .texts (t.stabilizers.map (·.render .plain))
  | .destabilizers => return .texts (t.destabilizers.map (·.render .plain))
  | .paired style => return .text (t.paired style)
  | .listing => return .text t.listing
  | .table => return .text t.table
  | .dump => return .text t.dump.compact.toList
  | .indentedDump => return .text (t.dump.indented 0).toList
  | .record => return .record t.toRecord
  | .recordDump => return .text t.toRecord.dump.compact.toList
  | .json => return .text t.toJson

end Tableau

end Stabilizer
