import Mathlib.Algebra.BigOperators.Fin
import Stabilizer.Proofs.PauliGroup
import Stabilizer.Tableau.Basic
/-!
# Rows as exact Pauli operators

A row stands for a Pauli operator with a real phase.  The letters of `mul` are always those of the
product; its sign bit is the sign of the product whenever that is real, that is, whenever the two
rows commute.  The stabilizers of a tableau generate its group.
-/

namespace Stabilizer

open PauliOperator

/-! ## Strings -/

/-- The operator on `n` qubits that a signed Pauli string stands for; past its end stand
identities. -/
def PauliString.exact (n : Nat) (p : PauliString) : PauliOperator n :=
  ⟨signPhase p.sign.toBit, fun k => p.letters.getD k .I⟩

/-- Letters at the same places of two lists, and identities past the end of either: those that anticommute,
counted modulo 2. -/
theorem natCast_countP_zip {a b : List Pauli} {m : Nat} (fits : min a.length b.length ≤ m) :
    (((a.zip b).countP fun pair => !pair.1.commutesWith pair.2 : Nat) : ZMod 2) =
      ∑ k : Fin m, (a.getD k .I).form (b.getD k .I) := by
  -- where one list has ended the other meets identities, and they add nothing to the sum
  induction a generalizing b m with
  | nil => simp
  | cons p a ih =>
    cases b with
    | nil => simp [Pauli.form_comm _ .I]
    | cons q b =>
      cases m with
      | zero => simp at fits
      | succ m =>
        have rest : min a.length b.length ≤ m := by
          simp only [List.length_cons] at fits
          omega
        rw [List.zip_cons_cons, List.countP_cons, Nat.cast_add, ih rest, Fin.sum_univ_succ, add_comm]
        congr 1
        simp only [Fin.val_zero, List.getD_cons_zero, Pauli.form_eq_mod2]
        cases p.commutesWith q <;> rfl

/-- Whether two strings commute is a matter of the letters up to the end of the shorter one. -/
theorem PauliString.commutesWith_iff_form {p q : PauliString} {m : Nat}
    (fits : min p.length q.length ≤ m) :
    p.commutesWith q = true ↔ (p.exact m).form (q.exact m) = 0 := by
  have count : ((p.anticommutations q : Nat) : ZMod 2) = (p.exact m).form (q.exact m) :=
    natCast_countP_zip fits
  rw [← count, commutesWith, beq_iff_eq, ZMod.natCast_eq_zero_iff_even, Nat.even_iff]

namespace Row

variable {n : Nat}

/-! ## Rows -/

/-- The operator that a row stands for. -/
def exact (a : Row n) : PauliOperator n := ⟨signPhase a.minus, a.letter⟩

@[simp] theorem exact_toPauli (a : Row n) : a.toPauli.exact n = a.exact := by
  ext k
  · simp [PauliString.exact, toPauli, exact]
  · simp [PauliString.exact, toPauli, exact]

@[simp] theorem phase_exact (a : Row n) : a.exact.phase = signPhase a.minus := rfl

@[simp] theorem letters_exact (a : Row n) : a.exact.letters = a.letter := rfl

@[simp] theorem xBit_letter (a : Row n) (k : Fin n) : (a.letter k).xBit = a.x.get k := by
  simp [letter]

@[simp] theorem zBit_letter (a : Row n) (k : Fin n) : (a.letter k).zBit = a.z.get k := by
  simp [letter]

/-- Different rows stand for different operators. -/
theorem exact_injective : Function.Injective (exact : Row n → PauliOperator n) := by
  intro a b h
  have minus : a.minus = b.minus := signPhase_injective (congrArg phase h)
  have letters (k : Fin n) : a.letter k = b.letter k := congrFun (congrArg letters h) k
  have x (k : Fin n) : a.x.get k = b.x.get k := by rw [← xBit_letter, letters, xBit_letter]
  have z (k : Fin n) : a.z.get k = b.z.get k := by rw [← zBit_letter, letters, zBit_letter]
  ext k hk
  · rw [minus]
  · exact x ⟨k, hk⟩
  · exact z ⟨k, hk⟩

@[simp] theorem exact_one : (one n).exact = 1 := by
  ext k <;> simp [exact, one, letter, signPhase, Pauli.ofBits]

@[simp] theorem exact_singleZ (minus : Bool) (q : Fin n) :
    (singleZ n minus q).exact = signedZ minus q := by
  ext k
  · rfl
  · by_cases hk : k = q
    · simp [exact, singleZ, signedZ, letter, hk, Pauli.ofBits]
    · have apart : (k == q) = false := beq_false_of_ne hk
      simp [exact, singleZ, signedZ, letter, hk, apart, Pauli.ofBits]

theorem letter_one (k : Fin n) : (one n).letter k = .I := by
  simp [letter, one, Pauli.ofBits]

theorem letter_singleX (k j : Fin n) : (singleX n k).letter j = if j = k then .X else .I := by
  by_cases hj : j = k
  · simp [singleX, letter, hj, Pauli.ofBits]
  · have apart : (j == k) = false := beq_false_of_ne hj
    simp [singleX, letter, hj, apart, Pauli.ofBits]

theorem letter_singleZ (minus : Bool) (k j : Fin n) :
    (singleZ n minus k).letter j = if j = k then .Z else .I := by
  by_cases hj : j = k
  · simp [singleZ, letter, hj, Pauli.ofBits]
  · have apart : (j == k) = false := beq_false_of_ne hj
    simp [singleZ, letter, hj, apart, Pauli.ofBits]

/-- A row is its own inverse. -/
@[simp] theorem exact_mul_self (a : Row n) : a.exact * a.exact = 1 := by
  ext k
  · rw [phase_mul, exponent_self, phase_exact, phase_one]
    cases a.minus <;> decide
  · simp

/-- A row commutes with a string exactly when their operators do, however long the string is. -/
theorem toPauli_commutesWith (a : Row n) (p : PauliString) :
    a.toPauli.commutesWith p = true ↔ a.exact.form (p.exact n) = 0 := by
  have fits : min a.toPauli.length p.length ≤ n :=
    (min_le_left _ _).trans_eq a.length_letters_toPauli
  rw [PauliString.commutesWith_iff_form fits, exact_toPauli]

/-- Rows commute as strings exactly when their operators do. -/
theorem commutesWith_toPauli (a b : Row n) :
    a.toPauli.commutesWith b.toPauli = true ↔ a.exact.form b.exact = 0 := by
  rw [toPauli_commutesWith, exact_toPauli]

theorem commutesWith_toPauli_eq_false (a b : Row n) :
    a.toPauli.commutesWith b.toPauli = false ↔ a.exact.form b.exact = 1 := by
  rw [← Bool.not_eq_true, commutesWith_toPauli]
  exact zmod2_ne_zero

/-! ## Products -/

theorem letter_mul (target source : Row n) (k : Fin n) :
    (target.mul source).letter k = (source.letter k).times (target.letter k) := by
  apply Pauli.ext_bits
  · simp [Bool.xor_comm]
  · simp [Bool.xor_comm]

/-- Every product has the letters of the exact product. -/
theorem letters_exact_mul (target source : Row n) :
    (target.mul source).exact.letters = (source.exact * target.exact).letters :=
  funext fun k => letter_mul target source k

@[simp] theorem mul_exact_form (target source : Row n) (g : PauliOperator n) :
    (target.mul source).exact.form g = target.exact.form g + source.exact.form g := by
  rw [form_congr_left g (letters_exact_mul target source), mul_form, add_comm]

@[simp] theorem form_mul_exact (g : PauliOperator n) (target source : Row n) :
    g.form (target.mul source).exact = g.form target.exact + g.form source.exact := by
  rw [form_comm, mul_exact_form, form_comm g, form_comm g]

theorem natCast_phase (a b : Pauli) : ((a.phase b : Nat) : ZMod 4) = a.exponent b := by
  cases a <;> cases b <;> rfl

/-- The running total is the sum of the phases, reduced on the way. -/
theorem natCast_foldl_addPhase (sites : List Site) (total : Nat) :
    ((sites.foldl addPhase total : Nat) : ZMod 4) =
      total + (sites.map fun s => (s.phase : ZMod 4)).sum := by
  induction sites generalizing total with
  | nil => simp
  | cons s sites ih =>
    rw [List.foldl_cons, ih, addPhase, ZMod.natCast_mod, Nat.cast_add, List.map_cons,
      List.sum_cons, add_assoc]

/-- The phase that is accumulated along two rows is that of their product. -/
theorem natCast_productPhase (target source : Row n) :
    ((productPhase target.minus source.minus (sites source target) : Nat) : ZMod 4) =
      (source.exact * target.exact).phase := by
  have start (r s : Bool) :
      ((2 * r.toNat + 2 * s.toNat : Nat) : ZMod 4) = signPhase s + signPhase r := by
    cases r <;> cases s <;> decide
  rw [productPhase, ZMod.natCast_mod, runningPhase, natCast_foldl_addPhase, start, phase_mul,
    phase_exact, phase_exact, sites, List.map_ofFn, List.sum_ofFn, exponent]
  simp only [Function.comp_apply, Site.phase, natCast_phase]
  rfl

/-- The sign bit of a product is set unless the exact phase is 1. -/
theorem minus_mul (target source : Row n) :
    (target.mul source).minus = true ↔ (source.exact * target.exact).phase ≠ 0 := by
  have lt : productPhase target.minus source.minus (sites source target) < 4 :=
    Nat.mod_lt _ (by decide)
  have zero : productPhase target.minus source.minus (sites source target) = 0 ↔
      (source.exact * target.exact).phase = 0 := by
    rw [← natCast_productPhase, ZMod.natCast_eq_zero_iff]
    exact ⟨fun h => h ▸ dvd_zero 4, fun h => Nat.eq_zero_of_dvd_of_lt h lt⟩
  simp only [mul, productSign, bne_iff_ne, ne_eq, zero]

/-- The product of two rows that commute is exact. -/
theorem exact_mul {target source : Row n} (comm : target.exact.form source.exact = 0) :
    (target.mul source).exact = source.exact * target.exact := by
  ext k
  · have even : phaseParity (source.exact * target.exact).phase = 0 := by
      rw [phase_mul, map_add, map_add, PauliOperator.phaseParity_exponent, form_comm, comm,
        phase_exact, phase_exact, phaseParity_signPhase, phaseParity_signPhase, add_zero, add_zero]
    exact signPhase_of_even even (minus_mul target source)
  · exact letter_mul target source k

/-- Multiplying into the identity gives the source. -/
protected theorem one_mul (a : Row n) : (one n).mul a = a := by
  have comm : (one n).exact.form a.exact = 0 := by rw [exact_one, one_form]
  apply exact_injective
  rw [exact_mul comm, exact_one, mul_one]

/-- The sign of a product of two rows that commute is the sum of their signs and of a bit that the
letters give. -/
theorem minus_mul_of_commute {target source : Row n}
    (comm : target.exact.form source.exact = 0) :
    (target.mul source).minus =
      (target.minus ^^ source.minus ^^ decide (source.exact.exponent target.exact ≠ 0)) := by
  have even : phaseParity (source.exact.exponent target.exact) = 0 := by
    rw [PauliOperator.phaseParity_exponent, form_comm, comm]
  have letters : signPhase (decide (source.exact.exponent target.exact ≠ 0)) =
      source.exact.exponent target.exact := signPhase_of_even even decide_eq_true_iff
  apply signPhase_injective
  calc signPhase (target.mul source).minus
      = (source.exact * target.exact).phase := congrArg phase (exact_mul comm)
    _ = signPhase target.minus + signPhase source.minus +
          source.exact.exponent target.exact := by
        rw [phase_mul, phase_exact, phase_exact, add_comm (signPhase source.minus)]
    _ = _ := by rw [signPhase_xor, signPhase_xor, letters]

/-- The product of two rows that anticommute is written with a minus sign, whatever their signs
are. -/
theorem minus_mul_of_anticommute {target source : Row n}
    (anti : target.exact.form source.exact = 1) : (target.mul source).minus = true := by
  rw [minus_mul]
  intro real
  have even := congrArg phaseParity real
  rw [phase_mul, map_add, map_add, PauliOperator.phaseParity_exponent, form_comm, anti,
    phase_exact, phase_exact, phaseParity_signPhase, phaseParity_signPhase, map_zero] at even
  exact absurd even (by decide)

end Row

namespace Tableau

variable {n : Nat}

/-! ## The group of a tableau -/

/-- All exact products of the stabilizers. -/
def group (t : Tableau n) : Subgroup (PauliOperator n) :=
  Subgroup.closure {g | ∃ p ∈ t.stabilizers, g = p.exact n}

theorem group_eq_closure (t : Tableau n) :
    t.group = Subgroup.closure (Set.range fun i => (t.stabilizer i).exact) := by
  have same : {g | ∃ p ∈ t.stabilizers, g = p.exact n} =
      Set.range fun i => (t.stabilizer i).exact := by
    ext g
    simp [stabilizers, List.mem_ofFn, eq_comm]
  rw [group, same]

theorem group_le_iff {t : Tableau n} {H : Subgroup (PauliOperator n)} :
    t.group ≤ H ↔ ∀ i, (t.stabilizer i).exact ∈ H := by
  rw [group_eq_closure, Subgroup.closure_le, Set.range_subset_iff]
  rfl

theorem stabilizer_mem_group (t : Tableau n) (i : Fin n) : (t.stabilizer i).exact ∈ t.group := by
  rw [group_eq_closure]
  exact Subgroup.subset_closure ⟨i, rfl⟩

end Tableau

end Stabilizer
