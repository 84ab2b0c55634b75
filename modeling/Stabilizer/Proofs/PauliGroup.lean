import Mathlib.Algebra.BigOperators.GroupWithZero.Action
import Mathlib.Algebra.Field.ZMod
import Mathlib.Algebra.Group.MinimalAxioms
import Mathlib.Algebra.Group.Subgroup.Lattice
import Mathlib.Data.ZMod.Basic
import Mathlib.Tactic.LinearCombination
import Stabilizer.Pauli.Basic
/-!
# The Pauli group

The Pauli operators on `n` qubits with all four phases, multiplied factor by factor.  The letters of
a product are those of its factors; the powers of `i` that the qubits give add up modulo 4.

Two operators either commute or anticommute.  `form` tells which, as a number modulo 2, and it is
additive in both arguments: that is what most arguments about tableaus need of a product.
-/

namespace Stabilizer

/-! ## Bits modulo 2 -/

/-- A bit as a number modulo 2. -/
def mod2 (b : Bool) : ZMod 2 := if b then 1 else 0

@[simp] theorem mod2_false : mod2 false = 0 := rfl

@[simp] theorem mod2_true : mod2 true = 1 := rfl

@[simp] theorem mod2_xor (a b : Bool) : mod2 (a ^^ b) = mod2 a + mod2 b := by
  cases a <;> cases b <;> decide

@[simp] theorem mod2_and (a b : Bool) : mod2 (a && b) = mod2 a * mod2 b := by
  cases a <;> cases b <;> decide

@[simp] theorem mod2_eq_zero {b : Bool} : mod2 b = 0 ↔ b = false := by cases b <;> decide

@[simp] theorem mod2_eq_one {b : Bool} : mod2 b = 1 ↔ b = true := by cases b <;> decide

theorem mod2_injective : Function.Injective mod2 := by
  intro a b h
  cases b
  · exact mod2_eq_zero.1 h
  · exact mod2_eq_one.1 h

/-- Modulo 2 there is 0 and 1. -/
theorem zmod2_cases (c : ZMod 2) : c = 0 ∨ c = 1 := by revert c; decide

theorem zmod2_ne_zero {c : ZMod 2} : c ≠ 0 ↔ c = 1 := by revert c; decide

/-! ## One qubit -/

namespace Pauli

/-- The letter of a product. -/
def times : Pauli → Pauli → Pauli
  | .I, b => b
  | a, .I => a
  | .X, .X | .Y, .Y | .Z, .Z => .I
  | .X, .Y | .Y, .X => .Z
  | .Y, .Z | .Z, .Y => .X
  | .Z, .X | .X, .Z => .Y

/-- The power of `i` in a product: `XY = iZ`, `YZ = iX` and `ZX = iY`, the opposite orders give
`-i`, and all other products are real. -/
def exponent : Pauli → Pauli → ZMod 4
  | .X, .Y | .Y, .Z | .Z, .X => 1
  | .Y, .X | .Z, .Y | .X, .Z => -1
  | _, _ => 0

/-- 1 for letters that anticommute, 0 for those that commute. -/
def form (a b : Pauli) : ZMod 2 := mod2 a.xBit * mod2 b.zBit + mod2 a.zBit * mod2 b.xBit

theorem ext_bits {a b : Pauli} (x : a.xBit = b.xBit) (z : a.zBit = b.zBit) : a = b := by
  rw [← ofBits_bits a, ← ofBits_bits b, x, z]

@[simp] theorem xBit_times (a b : Pauli) : (a.times b).xBit = (a.xBit ^^ b.xBit) := by
  cases a <;> cases b <;> rfl

@[simp] theorem zBit_times (a b : Pauli) : (a.times b).zBit = (a.zBit ^^ b.zBit) := by
  cases a <;> cases b <;> rfl

@[simp] theorem I_times (a : Pauli) : Pauli.I.times a = a := rfl

@[simp] theorem times_self (a : Pauli) : a.times a = .I := by cases a <;> rfl

theorem times_comm (a b : Pauli) : a.times b = b.times a := by cases a <;> cases b <;> rfl

theorem times_assoc (a b c : Pauli) : (a.times b).times c = a.times (b.times c) := by
  cases a <;> cases b <;> cases c <;> rfl

@[simp] theorem I_exponent (a : Pauli) : Pauli.I.exponent a = 0 := rfl

@[simp] theorem exponent_self (a : Pauli) : a.exponent a = 0 := by cases a <;> rfl

theorem exponent_comm (a b : Pauli) : b.exponent a = -a.exponent b := by
  cases a <;> cases b <;> decide

theorem exponent_assoc (a b c : Pauli) :
    a.exponent b + (a.times b).exponent c = b.exponent c + a.exponent (b.times c) := by
  cases a <;> cases b <;> cases c <;> decide

theorem form_eq_mod2 (a b : Pauli) : a.form b = mod2 (!a.commutesWith b) := by
  cases a <;> cases b <;> rfl

theorem form_comm (a b : Pauli) : a.form b = b.form a := by simp only [form]; ring

@[simp] theorem form_self (a : Pauli) : a.form a = 0 := by cases a <;> rfl

@[simp] theorem I_form (a : Pauli) : Pauli.I.form a = 0 := by cases a <;> rfl

theorem times_form (a b c : Pauli) : (a.times b).form c = a.form c + b.form c := by
  simp only [form, xBit_times, zBit_times, mod2_xor]
  ring

end Pauli

theorem four_eq_zero : (4 : ZMod 4) = 0 := by decide

/-- A phase is real or not according to its parity. -/
def phaseParity : ZMod 4 →+* ZMod 2 := ZMod.castHom (by decide : 2 ∣ 4) (ZMod 2)

/-- The product of two letters has a real phase exactly when they commute. -/
theorem phaseParity_exponent (a b : Pauli) : phaseParity (a.exponent b) = a.form b := by
  cases a <;> cases b <;> decide

theorem phaseParity_eq_zero {e : ZMod 4} : phaseParity e = 0 ↔ -e = e := by revert e; decide

theorem phaseParity_eq_one {e : ZMod 4} : phaseParity e = 1 ↔ -e = e + 2 := by revert e; decide

/-! ## Operators -/

/-- A Pauli operator on `n` qubits: a power of `i` times one letter per qubit. -/
@[ext] structure PauliOperator (n : Nat) where
  phase : ZMod 4
  letters : Fin n → Pauli

namespace PauliOperator

variable {n : Nat}

/-- The power of `i` that the letters of a product give. -/
def exponent (g h : PauliOperator n) : ZMod 4 := ∑ k, (g.letters k).exponent (h.letters k)

instance : Mul (PauliOperator n) :=
  ⟨fun g h => ⟨g.phase + h.phase + g.exponent h, fun k => (g.letters k).times (h.letters k)⟩⟩

instance : One (PauliOperator n) := ⟨⟨0, fun _ => .I⟩⟩

instance : Inv (PauliOperator n) := ⟨fun g => ⟨-g.phase, g.letters⟩⟩

instance : Neg (PauliOperator n) := ⟨fun g => ⟨g.phase + 2, g.letters⟩⟩

@[simp] theorem phase_mul (g h : PauliOperator n) :
    (g * h).phase = g.phase + h.phase + g.exponent h := rfl

@[simp] theorem letters_mul (g h : PauliOperator n) (k : Fin n) :
    (g * h).letters k = (g.letters k).times (h.letters k) := rfl

@[simp] theorem phase_one : (1 : PauliOperator n).phase = 0 := rfl

@[simp] theorem letters_one (k : Fin n) : (1 : PauliOperator n).letters k = .I := rfl

@[simp] theorem phase_inv (g : PauliOperator n) : g⁻¹.phase = -g.phase := rfl

@[simp] theorem letters_inv (g : PauliOperator n) : g⁻¹.letters = g.letters := rfl

@[simp] theorem phase_neg (g : PauliOperator n) : (-g).phase = g.phase + 2 := rfl

@[simp] theorem letters_neg (g : PauliOperator n) : (-g).letters = g.letters := rfl

@[simp] theorem one_exponent (g : PauliOperator n) : (1 : PauliOperator n).exponent g = 0 := by
  simp [exponent]

@[simp] theorem exponent_self (g : PauliOperator n) : g.exponent g = 0 := by simp [exponent]

theorem exponent_comm (g h : PauliOperator n) : h.exponent g = -g.exponent h := by
  simp only [exponent, ← Finset.sum_neg_distrib, ← Pauli.exponent_comm]

theorem exponent_assoc (f g h : PauliOperator n) :
    f.exponent g + (f * g).exponent h = g.exponent h + f.exponent (g * h) := by
  simp only [exponent, letters_mul, ← Finset.sum_add_distrib, Pauli.exponent_assoc]

protected theorem mul_assoc (f g h : PauliOperator n) : f * g * h = f * (g * h) := by
  ext k
  · simp only [phase_mul]
    linear_combination exponent_assoc f g h
  · exact Pauli.times_assoc _ _ _

instance : Group (PauliOperator n) :=
  Group.ofLeftAxioms PauliOperator.mul_assoc
    (fun g => by ext <;> simp)
    (fun g => by ext <;> simp [exponent])

@[simp] theorem neg_mul (g h : PauliOperator n) : -g * h = -(g * h) := by
  ext k
  · simp only [phase_mul, phase_neg, exponent, letters_neg]
    ring
  · rfl

theorem mul_neg (g h : PauliOperator n) : g * -h = -(g * h) := by
  ext k
  · simp only [phase_mul, phase_neg, exponent, letters_neg]
    ring
  · rfl

theorem neg_ne_self (g : PauliOperator n) : -g ≠ g := by
  intro h
  have phases : g.phase + 2 = g.phase := congrArg phase h
  exact absurd (left_eq_add.1 phases.symm) (by decide)

/-! ### Commutation -/

/-- 1 for operators that anticommute, 0 for those that commute. -/
def form (g h : PauliOperator n) : ZMod 2 := ∑ k, (g.letters k).form (h.letters k)

theorem form_congr_left {g g' : PauliOperator n} (h : PauliOperator n)
    (same : g.letters = g'.letters) : g.form h = g'.form h := by
  simp only [form, same]

theorem form_comm (g h : PauliOperator n) : g.form h = h.form g :=
  Finset.sum_congr rfl fun _ _ => Pauli.form_comm _ _

@[simp] theorem form_self (g : PauliOperator n) : g.form g = 0 := by simp [form]

@[simp] theorem one_form (g : PauliOperator n) : (1 : PauliOperator n).form g = 0 := by simp [form]

@[simp] theorem mul_form (f g h : PauliOperator n) : (f * g).form h = f.form h + g.form h := by
  simp only [form, letters_mul, Pauli.times_form, Finset.sum_add_distrib]

@[simp] theorem inv_form (g h : PauliOperator n) : g⁻¹.form h = g.form h := rfl

/-- The letters of a product give a real phase exactly when the factors commute. -/
theorem phaseParity_exponent (g h : PauliOperator n) : phaseParity (g.exponent h) = g.form h := by
  simp only [exponent, form, map_sum, Stabilizer.phaseParity_exponent]

theorem commute_iff_form_eq_zero {g h : PauliOperator n} : Commute g h ↔ g.form h = 0 := by
  rw [← phaseParity_exponent, phaseParity_eq_zero, ← exponent_comm]
  constructor
  · intro comm
    have phases : g.phase + h.phase + g.exponent h = h.phase + g.phase + h.exponent g :=
      congrArg phase comm.eq
    linear_combination -phases
  · intro exponents
    ext k
    · simp only [phase_mul]
      linear_combination -exponents
    · exact Pauli.times_comm _ _

theorem mul_eq_neg_mul_of_form {g h : PauliOperator n} (anti : g.form h = 1) :
    g * h = -(h * g) := by
  rw [← phaseParity_exponent, phaseParity_eq_one, ← exponent_comm] at anti
  ext k
  · simp only [phase_mul, phase_neg]
    linear_combination -four_eq_zero - anti
  · exact Pauli.times_comm _ _

/-! ### Signs -/

/-- The phase of a sign bit. -/
def signPhase (minus : Bool) : ZMod 4 := if minus then 2 else 0

theorem signPhase_injective : Function.Injective signPhase := by
  intro a b h
  cases a <;> cases b <;> first | rfl | exact absurd h (by decide)

theorem signPhase_xor (a b : Bool) : signPhase (a ^^ b) = signPhase a + signPhase b := by
  cases a <;> cases b <;> decide

theorem phaseParity_signPhase (minus : Bool) : phaseParity (signPhase minus) = 0 := by
  cases minus <;> decide

/-- A phase of even parity is a sign. -/
theorem signPhase_of_even {e : ZMod 4} (even : phaseParity e = 0) {minus : Bool}
    (nonzero : minus = true ↔ e ≠ 0) : signPhase minus = e := by
  revert e minus
  decide

/-- The letter `Z` on one qubit, with a sign bit. -/
def signedZ (minus : Bool) (q : Fin n) : PauliOperator n :=
  ⟨signPhase minus, fun k => if k = q then .Z else .I⟩

theorem signedZ_not (minus : Bool) (q : Fin n) : signedZ (!minus) q = -signedZ minus q := by
  ext k
  · show signPhase (!minus) = signPhase minus + signPhase true
    rw [← signPhase_xor, Bool.xor_true]
  · rfl

/-- An operator commutes with `Z` on a qubit unless it has an X part there. -/
theorem form_signedZ (g : PauliOperator n) (minus : Bool) (q : Fin n) :
    g.form (signedZ minus q) = mod2 (g.letters q).xBit := by
  rw [form, Finset.sum_eq_single q]
  · simp [signedZ, Pauli.form, Pauli.zBit, Pauli.xBit]
  · intro k _ hk
    simp [signedZ, hk, Pauli.form, Pauli.zBit, Pauli.xBit]
  · simp

@[simp] theorem xBit_signedZ (minus : Bool) (q k : Fin n) :
    ((signedZ minus q).letters k).xBit = false := by
  simp only [signedZ]
  split <;> rfl

theorem commute_signedZ_iff {g : PauliOperator n} (minus : Bool) {q : Fin n} :
    Commute g (signedZ minus q) ↔ (g.letters q).xBit = false := by
  rw [commute_iff_form_eq_zero, form_signedZ, mod2_eq_zero]

theorem commute_signedZ_signedZ (a b : Bool) (q r : Fin n) :
    Commute (signedZ a q) (signedZ b r) :=
  (commute_signedZ_iff b).2 (xBit_signedZ a q r)

@[simp] theorem signedZ_mul_self (minus : Bool) (q : Fin n) :
    signedZ minus q * signedZ minus q = 1 := by
  ext k
  · show signPhase minus + signPhase minus + (signedZ minus q).exponent (signedZ minus q) = 0
    rw [exponent_self, ← signPhase_xor, Bool.xor_self]
    rfl
  · simp

theorem signedZ_mul_cancel (minus : Bool) (q : Fin n) (g : PauliOperator n) :
    signedZ minus q * (signedZ minus q * g) = g := by
  rw [← mul_assoc, signedZ_mul_self, one_mul]

/-- The sign may stand at either factor. -/
theorem signedZ_mul_signedZ_not (a b : Bool) (q r : Fin n) :
    signedZ a q * signedZ (!b) r = signedZ b r * signedZ (!a) q := by
  rw [signedZ_not, signedZ_not, mul_neg, mul_neg, (commute_signedZ_signedZ a b q r).eq]

/-! ### Generated groups -/

/-- What commutes with the generators commutes with all they generate. -/
theorem form_eq_zero_of_mem_closure {s : Set (PauliOperator n)} {h : PauliOperator n}
    (comm : ∀ g ∈ s, g.form h = 0) {g : PauliOperator n} (hg : g ∈ Subgroup.closure s) :
    g.form h = 0 := by
  induction hg using Subgroup.closure_induction with
  | mem g hg => exact comm g hg
  | one => exact one_form h
  | mul f g _ _ hf hg => rw [mul_form, hf, hg, add_zero]
  | inv g _ hg => rw [inv_form, hg]

/-- A generator that is its own inverse and commutes with the others is a factor once or not at
all. -/
theorem mem_closure_insert {s : Set (PauliOperator n)} {a : PauliOperator n} (square : a * a = 1)
    (comm : ∀ g ∈ s, g.form a = 0) {g : PauliOperator n} :
    g ∈ Subgroup.closure (insert a s) ↔ g ∈ Subgroup.closure s ∨ a * g ∈ Subgroup.closure s := by
  have central {f : PauliOperator n} (hf : f ∈ Subgroup.closure s) : a * f = f * a :=
    (commute_iff_form_eq_zero.2 (form_eq_zero_of_mem_closure comm hf)).eq.symm
  have cancel (f : PauliOperator n) : a * (a * f) = f := by rw [← mul_assoc, square, one_mul]
  constructor
  · intro hg
    induction hg using Subgroup.closure_induction with
    | mem g hg =>
      rcases hg with rfl | hg
      · exact .inr (square ▸ one_mem _)
      · exact .inl (Subgroup.subset_closure hg)
    | one => exact .inl (one_mem _)
    | mul f g _ _ hf hg =>
      rcases hf with hf | hf <;> rcases hg with hg | hg
      · exact .inl (mul_mem hf hg)
      · right
        rw [← mul_assoc, central hf, mul_assoc]
        exact mul_mem hf hg
      · right
        rw [← mul_assoc]
        exact mul_mem hf hg
      · left
        have product := mul_mem hf hg
        rwa [← mul_assoc, ← central hf, cancel] at product
    | inv g _ hg =>
      rcases hg with hg | hg
      · exact .inl (inv_mem hg)
      · right
        have turned : g⁻¹ = a * (a * g)⁻¹ := by
          rw [central (inv_mem hg), mul_inv_rev, inv_mul_cancel_right]
        rw [turned, cancel]
        exact inv_mem hg
  · have grow : Subgroup.closure s ≤ Subgroup.closure (insert a s) :=
      Subgroup.closure_mono (Set.subset_insert a s)
    have ha : a ∈ Subgroup.closure (insert a s) := Subgroup.subset_closure (Set.mem_insert a s)
    rintro (hg | hg)
    · exact grow hg
    · rw [← cancel g]
      exact mul_mem ha (grow hg)

end PauliOperator

end Stabilizer
