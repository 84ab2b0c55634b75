import Stabilizer.Proofs.MeasuredRows
/-!
# Basis states

The tableau of a basis state is built for every number of qubits that is neither 0 nor too large to
address, and for every number that fits in them; what stands in the way otherwise is told apart
(`BasisRefused`).

Destabilizer `i` is the only one with an X part at qubit `i`, and no stabilizer has one anywhere.  So
every measurement is determined, its product has one factor, and the bits that are measured are those of
the number, with qubit 0 first.  No measurement changes a row, so they may be repeated in any order.
-/

namespace Stabilizer

open PauliOperator

variable {n : Nat}

/-- A letter on one qubit, and identities on the others. -/
def PauliString.single (n : Nat) (sign : Sign) (letter : Pauli) (k : Fin n) : PauliString :=
  ⟨sign, List.ofFn fun j => if j = k then letter else .I⟩

theorem Row.toPauli_singleX (k : Fin n) : (singleX n k).toPauli = PauliString.single n .plus .X k := by
  rw [toPauli, funext (letter_singleX k)]
  rfl

theorem Row.toPauli_singleZ (minus : Bool) (k : Fin n) :
    (singleZ n minus k).toPauli = PauliString.single n (.ofBit minus) .Z k := by
  have letters : (singleZ n minus k).letter = (signedZ minus k).letters := by
    rw [← letters_exact, exact_singleZ]
  rw [toPauli, letters]
  rfl

namespace Tableau

/-! ## Building -/

/-- Why there is no tableau of a basis state.  The state counts only if the number of qubits is one that
a tableau can have. -/
inductive BasisRefused (n state : Nat) : Error → Prop
  | noQubits (none : n = 0) : BasisRefused n state .noQubits
  | tooManyQubits (some : n ≠ 0) (many : Nat.pow 2 64 ≤ 2 * n * n) :
      BasisRefused n state (.tooManyQubits n)
  | invalidInitialState (addressable : Addressable n) (wide : Nat.pow 2 n ≤ state) :
      BasisRefused n state (.invalidInitialState state n)

theorem shiftRight_eq_zero_iff {state n : Nat} : state >>> n = 0 ↔ state < Nat.pow 2 n := by
  rw [Nat.shiftRight_eq_div_pow]
  exact Nat.div_eq_zero_iff_lt (Nat.two_pow_pos n)

theorem ofBasisState_of_refused {state : Nat} {error : Error} (h : BasisRefused n state error) :
    ofBasisState n state = .error error := by
  cases h with
  | noQubits none => exact dif_pos none
  | tooManyQubits some many => rw [ofBasisState, dif_neg some, dif_neg (Nat.not_lt.2 many)]
  | invalidInitialState addressable wide =>
    have lost : state >>> n ≠ 0 := mt shiftRight_eq_zero_iff.1 (Nat.not_lt.2 wide)
    rw [ofBasisState, dif_neg (Nat.ne_of_gt addressable.1), dif_pos addressable.2, if_neg lost]

theorem ofBasisState_of_fits {state : Nat} (addressable : Addressable n) (fits : state < Nat.pow 2 n) :
    ofBasisState n state = .ok (basis n state addressable) := by
  rw [ofBasisState, dif_neg (Nat.ne_of_gt addressable.1), dif_pos addressable.2,
    if_pos (shiftRight_eq_zero_iff.2 fits)]

theorem fits_or_refused (n state : Nat) :
    Addressable n ∧ state < Nat.pow 2 n ∨ ∃ error, BasisRefused n state error := by
  by_cases some : n = 0
  · exact .inr ⟨_, .noQubits some⟩
  by_cases few : 2 * n * n < Nat.pow 2 64
  · have addressable : Addressable n := ⟨Nat.pos_of_ne_zero some, few⟩
    by_cases fits : state < Nat.pow 2 n
    · exact .inl ⟨addressable, fits⟩
    · exact .inr ⟨_, .invalidInitialState addressable (Nat.le_of_not_lt fits)⟩
  · exact .inr ⟨_, .tooManyQubits some (Nat.le_of_not_lt few)⟩

theorem ofBasisState_eq_error_iff {state : Nat} {error : Error} :
    ofBasisState n state = .error error ↔ BasisRefused n state error := by
  refine ⟨fun failed => ?_, ofBasisState_of_refused⟩
  obtain ⟨addressable, fits⟩ | ⟨error', refused⟩ := fits_or_refused n state
  · cases (ofBasisState_of_fits addressable fits).symm.trans failed
  · cases (ofBasisState_of_refused refused).symm.trans failed
    exact refused

/-! ## Measuring -/

variable {state : Nat} {addressable : Addressable n}

theorem pivot?_basis (q : Fin n) : (basis n state addressable).pivot? q = none := by
  rw [pivot?_eq_none]
  intro i
  rw [stabilizer_basis]
  simp [Row.singleZ]

theorem determined_basis (q : Fin n) :
    (basis n state addressable).determined q = Row.singleZ n (state.testBit (n - 1 - q)) q := by
  have single (i : Fin n) :
      ((basis n state addressable).destabilizer i).x.get q = decide (i = q) := by
    rw [destabilizer_basis]
    simp [Row.singleX, Bool.beq_eq_decide_eq, eq_comm]
  rw [determined_of_single single, stabilizer_basis]

/-- Where every qubit is determined, measurements report the same whenever they are made. -/
theorem exists_measureEach_of_none {t : Tableau n} (empty : ∀ q, t.pivot? q = none) (coins : Coins)
    (qubits : List (Fin n)) :
    ∃ after, t.measureEach coins qubits =
        .ok (qubits.map fun q => .deterministic (t.determined q).minus, after, coins) ∧
      (after == t) = true := by
  induction qubits generalizing t with
  | nil => exact ⟨t, rfl, beq_iff_rows_eq.2 rfl⟩
  | cons q qubits ih =>
    -- the tableau between the two differs in the scratch row, which no measurement reads
    obtain ⟨after, others, same⟩ := ih (t := { t with scratch := t.determined q }) empty
    exact ⟨after, measureEach_cons (measure_of_none (empty q) coins) others, same⟩

/-- The tableau is that of a basis state in which the qubits have the given bits, the digits of a number
with the most significant first.  Measuring reads them, in any order and as often as one likes. -/
structure Encodes (t : Tableau n) (state : Nat) (bit : Fin n → Bool) : Prop where
  number : Nat.ofBits (fun k => bit k.rev) = state
  /-- Of a number of 64 bits no higher qubit has a digit. -/
  high : state < Nat.pow 2 64 → ∀ q : Fin n, 64 ≤ n - 1 - q → bit q = false
  destabilizers : t.destabilizers = List.ofFn (PauliString.single n .plus .X)
  stabilizers : t.stabilizers = List.ofFn fun i => PauliString.single n (.ofBit (bit i)) .Z i
  symplectic : t.isSymplectic = true
  measured : ∀ coins qubits, ∃ after,
    t.measureEach coins qubits = .ok (qubits.map fun q => .deterministic (bit q), after, coins) ∧
      (after == t) = true

/-- The digits of a number that fits, read from the most significant one. -/
theorem ofBits_testBit_rev (fits : state < Nat.pow 2 n) :
    Nat.ofBits (fun k : Fin n => state.testBit (n - 1 - k.rev)) = state := by
  have digit (k : Fin n) : n - 1 - k.rev = k.val := by
    rw [Fin.val_rev]
    omega
  simp only [digit, Nat.ofBits_testBit]
  exact Nat.mod_eq_of_lt fits

theorem encodes_basis (fits : state < Nat.pow 2 n) :
    (basis n state addressable).Encodes state fun q => state.testBit (n - 1 - q) where
  number := ofBits_testBit_rev fits
  high few q high := Nat.testBit_lt_two_pow (few.trans_le (Nat.pow_le_pow_right (by decide) high))
  destabilizers := by simp only [Tableau.destabilizers, destabilizer_basis, Row.toPauli_singleX]
  stabilizers := by simp only [Tableau.stabilizers, stabilizer_basis, Row.toPauli_singleZ]
  symplectic := (isSymplectic_iff _).2 (symplectic_basis state addressable)
  measured coins qubits := by
    have empty (q : Fin n) : (basis n state addressable).pivot? q = none := pivot?_basis q
    obtain ⟨after, measured, same⟩ := exists_measureEach_of_none empty coins qubits
    simp only [determined_basis] at measured
    exact ⟨after, measured, same⟩

end Tableau

end Stabilizer
