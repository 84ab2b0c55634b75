import Stabilizer.BitMatrix
import Stabilizer.Machine.Program
/-!
# Stored tableaus

A tableau is stored in containers whose dimensions are data: two matrices of bits, a vector of sign bits,
and the vectors of the scratch row.  Nothing in them says that they fit together.

Programs reach the containers by index.  Where there is no entry a program is broken off; `checkRow`,
`checkQubit` and `checkShape` are there to fail before that.
-/

namespace Stabilizer

/-- The two halves of a row. -/
inductive Half where
  | x
  | z
  deriving DecidableEq, Repr

def Half.part : Half → Part
  | .x => .xParts
  | .z => .zParts

/-- The scratch row (`Scratch`, tableau 98-102). -/
structure Scratch where
  x : Array Bool
  z : Array Bool
  minus : Bool
  deriving DecidableEq

/-- A row of identities (`Scratch::new`, tableau 105-111). -/
def Scratch.zero (n : Nat) : Scratch := ⟨Array.replicate n false, Array.replicate n false, false⟩

/-- A tableau in its containers (`Tableau`, tableau 127-133). -/
structure Storage where
  n : Nat
  xs : BitMatrix
  zs : BitMatrix
  rs : Array Bool
  scratch : Scratch
  deriving DecidableEq

namespace Storage

open Program

def matrix (s : Storage) : Half → BitMatrix
  | .x => s.xs
  | .z => s.zs

def withMatrix (s : Storage) : Half → BitMatrix → Storage
  | .x, m => { s with xs := m }
  | .z, m => { s with zs := m }

/-! ### Entries -/

/-- The number of qubits (`num_qubits`, tableau 191). -/
def numQubits : Program Storage Nat := do return (← state).n

def readBit (half : Half) (i k : Nat) : Program Storage Bool := do
  access (((← state).matrix half).get? i k)

def writeBit (half : Half) (i k : Nat) (bit : Bool) : Program Storage Unit := do
  let s ← state
  setState (s.withMatrix half (← access ((s.matrix half).set? i k bit)))

/-- Adds a bit to an entry. -/
def addBit (half : Half) (i k : Nat) (bit : Bool) : Program Storage Unit := do
  writeBit half i k ((← readBit half i k) ^^ bit)

/-- The entries of a row in one of the matrices. -/
def readLine (half : Half) (i : Nat) : Program Storage (List Bool) := do
  access (((← state).matrix half).line? i)

def readSign (i : Nat) : Program Storage Bool := do access (← state).rs[i]?

def writeSign (i : Nat) (minus : Bool) : Program Storage Unit := do
  let s ← state
  if h : i < s.rs.size then setState { s with rs := s.rs.set i minus h } else abort .outOfRange

/-- Runs a program on every column that both matrices have (`rowsum_unchecked`, tableau 270-273). -/
def eachColumn (body : Nat → Program Storage Unit) : Program Storage Unit := do
  let s ← state
  (List.range (min s.xs.columns s.zs.columns)).forM body

/-- Runs a program on every column of one of the matrices. -/
def eachColumnOf (half : Half) (body : Nat → Program Storage Unit) : Program Storage Unit := do
  (List.range ((← state).matrix half).columns).forM body

/-! ### Checks -/

/-- Fails if there is no such row (`check_row`, tableau 223-229). -/
def checkRow (i : Nat) : Program Storage Unit := do
  let n ← numQubits
  if i < 2 * n then return () else fail (.rowOutOfBounds i (2 * n))

/-- Fails if there is no such qubit (`check_qubit`, tableau 231-237). -/
def checkQubit (q : Nat) : Program Storage Unit := do
  let n ← numQubits
  if q < n then return () else fail (.qubitOutOfBounds q n)

/-- Fails if dimensions are not as expected (`check_shape`, tableau 83-95). -/
def checkShape (part : Part) (expected found : List Nat) : Program Storage Unit :=
  if expected = found then return () else fail (.shapeMismatch part expected found)

end Storage

end Stabilizer
