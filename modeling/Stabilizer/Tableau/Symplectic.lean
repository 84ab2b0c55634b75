import Stabilizer.Tableau.Basic
/-!
# The symplectic condition

Read as a square matrix `T` of bits, with the X parts in the first `n` columns and the Z parts in
the last `n`, the rows of a sound tableau satisfy `Tᵀ J T = J` modulo 2, where `J` exchanges the two
halves.  `isSymplectic` checks this equation column against column.
-/

namespace Stabilizer.Tableau

variable {n : Nat}

/-- The same position in the other half: row `i` and row `i + n`, or the X column and the Z column
of a qubit. -/
def partner (i : Fin (2 * n)) : Fin (2 * n) :=
  ⟨(i + n) % (2 * n), Nat.mod_lt _ (by have := i.isLt; omega)⟩

/-- The entry of the square matrix in row `i` and column `a` (`validate`, tableau 407-414). -/
def entry (t : Tableau n) (i a : Fin (2 * n)) : Bool :=
  if h : a.val < n then (t.row i).x.get ⟨a, h⟩ else (t.row i).z.get (upperIndex a h)

/-- Column `a` of the square matrix `T`. -/
def column (t : Tableau n) (a : Fin (2 * n)) : Vector Bool (2 * n) :=
  Vector.ofFn fun i => t.entry i a

/-- Column `b` of the matrix `J T`, whose halves are exchanged. -/
def partnerColumn (t : Tableau n) (b : Fin (2 * n)) : Vector Bool (2 * n) :=
  Vector.ofFn fun i => t.entry (partner i) b

/-- The inner product of two vectors of bits, modulo 2. -/
def dot {m : Nat} (u v : Vector Bool m) : Bool :=
  Fin.foldr m (fun i sum => (u.get i && v.get i) ^^ sum) false

/-- The square matrix satisfies `Tᵀ J T = J` modulo 2 (`validate`, tableau 405-422, with sums of bits for
sums of words; `Storage.validate` has the words). -/
def isSymplectic (t : Tableau n) : Bool :=
  let indices := List.finRange (2 * n)
  let columns := Vector.ofFn t.column
  let partnerColumns := Vector.ofFn t.partnerColumn
  indices.all fun a => indices.all fun b =>
    dot (columns.get a) (partnerColumns.get b) == (b == partner a)

end Stabilizer.Tableau
