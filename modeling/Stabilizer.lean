import Stabilizer.Machine.Call
import Stabilizer.Machine.Circuit
import Stabilizer.Machine.Construction
import Stabilizer.Machine.Operation
import Stabilizer.Machine.Program
import Stabilizer.Machine.Storage
import Stabilizer.Machine.Validation
import Stabilizer.Machine.Word
import Stabilizer.Pauli.Generators
import Stabilizer.Pauli.Text
import Stabilizer.Proofs.Accumulation
import Stabilizer.Proofs.BasisState
import Stabilizer.Proofs.CheckedCalls
import Stabilizer.Proofs.Circuits
import Stabilizer.Proofs.CoinDependence
import Stabilizer.Proofs.Commutation
import Stabilizer.Proofs.Determined
import Stabilizer.Proofs.EqualTableaus
import Stabilizer.Proofs.GateMatrix
import Stabilizer.Proofs.GateMeasurement
import Stabilizer.Proofs.GeneratorTable
import Stabilizer.Proofs.GroupMeasurement
import Stabilizer.Proofs.Listings
import Stabilizer.Proofs.Lockstep
import Stabilizer.Proofs.MeasuredRows
import Stabilizer.Proofs.MeasurementOrder
import Stabilizer.Proofs.ParityLaw
import Stabilizer.Proofs.PauliLanguage
import Stabilizer.Proofs.PhaseSum
import Stabilizer.Proofs.RecordSpelling
import Stabilizer.Proofs.Records
import Stabilizer.Proofs.RowBasis
import Stabilizer.Proofs.RowWrites
import Stabilizer.Proofs.Rowsum
import Stabilizer.Proofs.SameGroup
import Stabilizer.Proofs.ScratchRow
import Stabilizer.Proofs.StateVector
import Stabilizer.Proofs.StickyOutcome
import Stabilizer.Proofs.StoredCalls
import Stabilizer.Proofs.StoredConstruction
import Stabilizer.Proofs.StoredGates
import Stabilizer.Proofs.StoredMeasurement
import Stabilizer.Proofs.StoredRows
import Stabilizer.Proofs.StoredTableau
import Stabilizer.Proofs.StoredValidation
import Stabilizer.Proofs.SymplecticRun
import Stabilizer.Proofs.TableColumns
import Stabilizer.Proofs.TokenReading
import Stabilizer.Proofs.TokenText
import Stabilizer.Proofs.XRank
import Stabilizer.Simulation.Query
import Stabilizer.Simulation.Session
import Stabilizer.Simulation.Update
import Stabilizer.Tableau.Basic
import Stabilizer.Tableau.Construction
import Stabilizer.Tableau.Gate
import Stabilizer.Tableau.Listing
import Stabilizer.Tableau.Measure
import Stabilizer.Tableau.Record
import Stabilizer.Tableau.RecordJson
import Stabilizer.Tableau.Symplectic
