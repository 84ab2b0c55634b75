import Stabilizer.Proofs.Measurement
import Stabilizer.Proofs.RowProduct
import Stabilizer.Tableau.Gate
/-!
# Coupled tableaus

Tableaus side by side, one for each of several runs.  They are coupled when every row has the same
letters in all of them, and when its signs, which make a family of bits with one bit for each run, lie
in a given space of families.

Of the space it is only asked that it holds the constant families and the sum of any two.  That is
enough for all operations, because signs enter nothing but signs, and these only as summands: the sign
of a product is the sum of the signs of its factors and of a bit that the letters give, if the factors
commute, and set in any case, if they do not.
-/

namespace Stabilizer

open PauliOperator

variable {n : Nat} {ι : Type}

/-! ## Families of bits -/

/-- A space of families of bits, one bit for each run: the constant families are in it, and the sum of
any two. -/
structure BitSpace (ι : Type) where
  families : Set (ι → Bool)
  const_mem : ∀ b, (fun _ => b) ∈ families
  xor_mem : ∀ {f g : ι → Bool}, f ∈ families → g ∈ families → (fun k => f k ^^ g k) ∈ families

/-! ## Rows -/

/-- The row with a plus. -/
def Row.unsigned (a : Row n) : Row n := { a with minus := false }

/-- A gate adds to the sign the one that it would give to the letters alone. -/
theorem Gate.onRow_unsigned (g : Gate (Fin n)) (a : Row n) :
    g.onRow a =
      { g.onRow a.unsigned with minus := a.minus ^^ (g.onRow a.unsigned).minus } := by
  cases g <;>
    simp only [onRow, Row.unsigned, Row.hadamard, Row.phase, Row.bitFlip, Row.cnot, Bool.false_xor]

/-- Rows with the same letters, and with signs in the space. -/
structure Row.Coupled (L : BitSpace ι) (a : ι → Row n) : Prop where
  x : ∀ k l, (a k).x = (a l).x
  z : ∀ k l, (a k).z = (a l).z
  minus : (fun k => (a k).minus) ∈ L.families

namespace Row.Coupled

variable {L : BitSpace ι} {a b : ι → Row n}

theorem const (L : BitSpace ι) (a : Row n) : Coupled L fun _ => a :=
  ⟨fun _ _ => rfl, fun _ _ => rfl, L.const_mem a.minus⟩

theorem singleZ {bit : ι → Bool} (hbit : bit ∈ L.families) (q : Fin n) :
    Coupled L fun k => Row.singleZ n (bit k) q :=
  ⟨fun _ _ => rfl, fun _ _ => rfl, hbit⟩

/-- A choice that all runs make alike. -/
theorem ite [Nonempty ι] {c : ι → Bool} (same : ∀ k l, c k = c l) (ha : Coupled L a)
    (hb : Coupled L b) : Coupled L fun k => if c k then a k else b k := by
  obtain ⟨o⟩ := ‹Nonempty ι›
  cases ho : c o
  · have others (k : ι) : c k = false := (same k o).trans ho
    simpa only [others, Bool.false_eq_true, if_false] using hb
  · have others (k : ι) : c k = true := (same k o).trans ho
    simpa only [others, if_true] using ha

theorem letter (ha : Coupled L a) (k l : ι) : (a k).letter = (a l).letter := by
  funext j
  rw [Row.letter, Row.letter, ha.x k l, ha.z k l]

/-- **Products of coupled rows are coupled.** -/
theorem mul [Nonempty ι] (ha : Coupled L a) (hb : Coupled L b) :
    Coupled L fun k => (a k).mul (b k) := by
  refine ⟨fun k l => ?_, fun k l => ?_, ?_⟩
  · simp only [Row.mul, ha.x k l, hb.x k l]
  · simp only [Row.mul, ha.z k l, hb.z k l]
  · obtain ⟨o⟩ := ‹Nonempty ι›
    have form (k : ι) : (a k).exact.form (b k).exact = (a o).exact.form (b o).exact := by
      simp only [PauliOperator.form, letters_exact, ha.letter k o, hb.letter k o]
    have exponent (k : ι) :
        (b k).exact.exponent (a k).exact = (b o).exact.exponent (a o).exact := by
      simp only [PauliOperator.exponent, letters_exact, ha.letter k o, hb.letter k o]
    -- All runs agree whether the factors commute.
    rcases zmod2_cases ((a o).exact.form (b o).exact) with comm | anti
    · have signs (k : ι) : ((a k).mul (b k)).minus =
          ((a k).minus ^^ (b k).minus ^^ decide ((b o).exact.exponent (a o).exact ≠ 0)) := by
        rw [minus_mul_of_commute ((form k).trans comm), exponent k]
      simp only [signs]
      exact L.xor_mem (L.xor_mem ha.minus hb.minus) (L.const_mem _)
    · have signs (k : ι) : ((a k).mul (b k)).minus = true :=
        minus_mul_of_anticommute ((form k).trans anti)
      simp only [signs]
      exact L.const_mem true

theorem cleared [Nonempty ι] (ha : Coupled L a) (hb : Coupled L b) (q : Fin n) :
    Coupled L fun k => (a k).cleared q (b k) :=
  ite (fun k l => by rw [ha.x k l]) (ha.mul hb) ha

theorem unsigned (ha : Coupled L a) (k l : ι) : (a k).unsigned = (a l).unsigned := by
  rw [Row.unsigned, Row.unsigned, ha.x k l, ha.z k l]

/-- All runs add the same bit to the sign. -/
theorem onRow [Nonempty ι] (ha : Coupled L a) (g : Gate (Fin n)) :
    Coupled L fun k => g.onRow (a k) := by
  obtain ⟨o⟩ := ‹Nonempty ι›
  have gate (k : ι) : g.onRow (a k) =
      { g.onRow (a o).unsigned with minus := (a k).minus ^^ (g.onRow (a o).unsigned).minus } := by
    rw [Gate.onRow_unsigned, ha.unsigned k o]
  simp only [gate]
  exact ⟨fun _ _ => rfl, fun _ _ => rfl, L.xor_mem ha.minus (L.const_mem _)⟩

end Row.Coupled

/-! ## Tableaus -/

/-- Tableaus whose rows are coupled. -/
def Tableau.Coupled (L : BitSpace ι) (t : ι → Tableau n) : Prop :=
  ∀ i, Row.Coupled L fun k => (t k).row i

namespace Tableau.Coupled

variable {L : BitSpace ι} {t : ι → Tableau n}

theorem const (L : BitSpace ι) (t : Tableau n) : Coupled L fun _ => t :=
  fun i => Row.Coupled.const L (t.row i)

theorem destabilizer (ht : Coupled L t) (i : Fin n) :
    Row.Coupled L fun k => (t k).destabilizer i := ht (destabIndex i)

theorem stabilizer (ht : Coupled L t) (i : Fin n) :
    Row.Coupled L fun k => (t k).stabilizer i := ht (stabIndex i)

theorem put (ht : Coupled L t) (i : Fin (2 * n)) {a : ι → Row n} (ha : Row.Coupled L a) :
    Coupled L fun k => (t k).put i (a k) := by
  intro j
  simp only [row_put]
  by_cases hj : j = i
  · simpa only [if_pos hj] using ha
  · simpa only [if_neg hj] using ht j

/-- All rows made new. -/
theorem ofFn {a : ι → Fin (2 * n) → Row n} (ha : ∀ i, Row.Coupled L fun k => a k i) :
    Coupled L fun k => ({ t k with rows := Vector.ofFn (a k) } : Tableau n) := by
  intro i
  simp only [row_ofFn]
  exact ha i

theorem multiply [Nonempty ι] (ht : Coupled L t) (target source : Fin (2 * n)) :
    Coupled L fun k => (t k).multiply target source :=
  ht.put target ((ht target).mul (ht source))

theorem copy (ht : Coupled L t) (source target : Fin (2 * n)) :
    Coupled L fun k => (t k).copy source target := ht.put target (ht source)

theorem exchange (ht : Coupled L t) (a b : Fin (2 * n)) :
    Coupled L fun k => (t k).exchange a b := (ht.put a (ht b)).put b (ht a)

theorem putSign (ht : Coupled L t) (i : Fin (2 * n)) {bit : ι → Bool} (hbit : bit ∈ L.families) :
    Coupled L fun k => (t k).putSign i (bit k) := ht.put i ⟨(ht i).x, (ht i).z, hbit⟩

theorem negate (ht : Coupled L t) (i : Fin (2 * n)) : Coupled L fun k => (t k).negate i := by
  refine ht.putSign i ?_
  simpa only [Bool.xor_true] using L.xor_mem (ht i).minus (L.const_mem true)

theorem apply [Nonempty ι] (ht : Coupled L t) (g : Gate (Fin n)) :
    Coupled L fun k => (t k).apply g := by
  intro i
  simp only [row_apply]
  exact (ht i).onRow g

/-! ### Measurements -/

/-- All runs find the same pivot. -/
theorem pivot? (ht : Coupled L t) (q : Fin n) (k l : ι) : (t k).pivot? q = (t l).pivot? q := by
  simp only [Tableau.pivot?, (ht.stabilizer _).x k l]

/-- All runs multiply the same stabilizers. -/
theorem determined [Nonempty ι] (ht : Coupled L t) (q : Fin n) :
    Row.Coupled L fun k => (t k).determined q := by
  -- Induction over the stabilizers; the product so far is coupled.
  have fold (l : List (Fin n)) (a : ι → Row n) (ha : Row.Coupled L a) :
      Row.Coupled L fun k => l.foldl
        (fun product i =>
          if ((t k).destabilizer i).x.get q then product.mul ((t k).stabilizer i) else product)
        (a k) := by
    induction l generalizing a with
    | nil => exact ha
    | cons i l ih =>
      refine ih _ (Row.Coupled.ite (fun j k => ?_) (ha.mul (ht.stabilizer i)) ha)
      rw [(ht.destabilizer i).x j k]
  exact fold _ _ (Row.Coupled.const L (Row.one n))

theorem collapse [Nonempty ι] (ht : Coupled L t) (q p : Fin n) {bit : ι → Bool}
    (hbit : bit ∈ L.families) : Coupled L fun k => (t k).collapse q p (bit k) := by
  intro i
  obtain ⟨j, rfl⟩ | ⟨j, rfl⟩ := index_cases i
  · simp only [row_destabIndex, destabilizer_collapse]
    by_cases hj : j = p
    · simpa only [if_pos hj] using ht.stabilizer p
    · simpa only [if_neg hj] using (ht.destabilizer j).cleared (ht.stabilizer p) q
  · simp only [row_stabIndex, stabilizer_collapse]
    by_cases hj : j = p
    · simpa only [if_pos hj] using Row.Coupled.singleZ hbit q
    · simpa only [if_neg hj] using (ht.stabilizer j).cleared (ht.stabilizer p) q

end Tableau.Coupled

/-! ## Checked operations -/

/-- What an operation makes of coupled tableaus: all runs refuse it for the same cause, or none does
and the tableaus after it are coupled. -/
inductive CoupledResults (L : BitSpace ι) : (ι → Except Error (Tableau n)) → Prop
  | refused (error : Error) : CoupledResults L fun _ => .error error
  | done {t : ι → Tableau n} (coupled : Tableau.Coupled L t) : CoupledResults L fun k => .ok (t k)

namespace CoupledResults

variable {L : BitSpace ι} {t : ι → Tableau n}

/-- Arguments are checked without regard to the tableau. -/
theorem bind {α : Type} (checked : Except Error α) {f : α → ι → Except Error (Tableau n)}
    (h : ∀ a, CoupledResults L (f a)) : CoupledResults L fun k => checked >>= fun a => f a k := by
  cases checked with
  | error error => exact .refused error
  | ok a => exact h a

theorem rowsum [Nonempty ι] (ht : Tableau.Coupled L t) (target source : Nat) :
    CoupledResults L fun k => (t k).rowsum target source :=
  bind (Tableau.rowIndex n target) fun i => bind (Tableau.rowIndex n source) fun j =>
    .done (ht.multiply i j)

theorem copyRow (ht : Tableau.Coupled L t) (source target : Nat) :
    CoupledResults L fun k => (t k).copyRow source target :=
  bind (Tableau.rowIndex n source) fun i => bind (Tableau.rowIndex n target) fun j =>
    .done (ht.copy i j)

theorem swapRows (ht : Tableau.Coupled L t) (a b : Nat) :
    CoupledResults L fun k => (t k).swapRows a b :=
  bind (Tableau.rowIndex n a) fun i => bind (Tableau.rowIndex n b) fun j => .done (ht.exchange i j)

theorem setSign (ht : Tableau.Coupled L t) (row : Nat) (minus : Bool) :
    CoupledResults L fun k => (t k).setSign row minus :=
  bind (Tableau.rowIndex n row) fun i => .done (ht.putSign i (L.const_mem minus))

theorem flipSign (ht : Tableau.Coupled L t) (row : Nat) :
    CoupledResults L fun k => (t k).flipSign row :=
  bind (Tableau.rowIndex n row) fun i => .done (ht.negate i)

theorem setRow (ht : Tableau.Coupled L t) (row : Nat) (p : PauliString) :
    CoupledResults L fun k => (t k).setRow row p := by
  refine bind (Tableau.rowIndex n row) fun i => ?_
  by_cases h : p.letters.length = n
  · simp only [dif_pos h]
    exact .done (ht.put i (Row.Coupled.const L _))
  · simp only [dif_neg h]
    exact .refused _

theorem setXParts (ht : Tableau.Coupled L t) (m : BitMatrix) :
    CoupledResults L fun k => (t k).setXParts m := by
  unfold Tableau.setXParts
  by_cases h : m.shape = [2 * n, n]
  · simp only [dif_pos h]
    exact .done (.ofFn fun i => ⟨fun _ _ => rfl, (ht i).z, (ht i).minus⟩)
  · simp only [dif_neg h]
    exact .refused _

theorem setZParts (ht : Tableau.Coupled L t) (m : BitMatrix) :
    CoupledResults L fun k => (t k).setZParts m := by
  unfold Tableau.setZParts
  by_cases h : m.shape = [2 * n, n]
  · simp only [dif_pos h]
    exact .done (.ofFn fun i => ⟨(ht i).x, fun _ _ => rfl, (ht i).minus⟩)
  · simp only [dif_neg h]
    exact .refused _

theorem setSigns (ht : Tableau.Coupled L t) (bits : Array Bool) :
    CoupledResults L fun k => (t k).setSigns bits := by
  unfold Tableau.setSigns
  by_cases h : bits.size = 2 * n
  · simp only [dif_pos h]
    refine .done (.ofFn fun i => ?_)
    have bound : i.val < bits.size := by omega
    exact ⟨(ht i).x, (ht i).z, L.const_mem bits[i.val]⟩
  · simp only [dif_neg h]
    exact .refused _

end CoupledResults

end Stabilizer
