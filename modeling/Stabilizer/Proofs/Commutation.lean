import Stabilizer.Proofs.Rowsum
/-!
# When strings commute

Two strings commute when the places at which their letters anticommute are even in number.  The strings
may have different lengths: past the end of the shorter one stand identities, which commute with
everything.  Padded to a common length the strings are operators, and the parity is that of the phase
which the two products differ by, so the count decides whether the products are equal
(`commutesWith_exact`).

The parity is additive.  A row into which another is multiplied commutes with a string exactly when both
rows did, or neither.
-/

namespace Stabilizer

open PauliOperator

variable {n : Nat}

namespace PauliOperator

/-- Operators that do not commute anticommute. -/
theorem mul_eq_neg_mul_iff {g h : PauliOperator n} : g * h = -(h * g) ↔ g.form h = 1 := by
  constructor
  · intro anti
    rw [← zmod2_ne_zero, ne_eq, ← commute_iff_form_eq_zero]
    intro comm
    rw [comm.eq] at anti
    exact neg_ne_self _ anti.symm
  · exact mul_eq_neg_mul_of_form

end PauliOperator

namespace PauliString

theorem commutesWith_comm (p q : PauliString) : q.commutesWith p = p.commutesWith q := by
  rw [Bool.eq_iff_iff, commutesWith_iff_form (min_le_left q.length p.length),
    commutesWith_iff_form (min_le_right p.length q.length), form_comm]

/-- The products in both orders, of strings that are padded to a common length. -/
theorem commutesWith_iff_mul_eq {p q : PauliString} {m : Nat} (hp : p.length ≤ m) :
    (p.commutesWith q = true ↔ p.exact m * q.exact m = q.exact m * p.exact m) ∧
      (p.commutesWith q = false ↔ p.exact m * q.exact m = -(q.exact m * p.exact m)) := by
  have form := commutesWith_iff_form (q := q) (min_le_of_left_le hp)
  constructor
  · rw [form, ← commute_iff_form_eq_zero]
    rfl
  · rw [← Bool.not_eq_true, form, mul_eq_neg_mul_iff, ← ne_eq, zmod2_ne_zero]

end PauliString

/-- A product commutes with a string if both factors do, or neither. -/
theorem Row.toPauli_mul_commutesWith (target source : Row n) (p : PauliString) :
    (target.mul source).toPauli.commutesWith p = true ↔
      target.toPauli.commutesWith p = source.toPauli.commutesWith p := by
  rw [toPauli_commutesWith, mul_exact_form, Bool.eq_iff_iff, toPauli_commutesWith,
    toPauli_commutesWith]
  generalize target.exact.form (p.exact n) = a
  generalize source.exact.form (p.exact n) = b
  revert a b
  decide

/-- **Commuting is what the products say, and it is additive.**  Strings of any lengths commute exactly
when their products in the two orders are equal, and else these differ in the sign.  The order of the
strings and their signs do not matter.  After one row was multiplied into another the product commutes
with a string exactly when the two rows both did or both did not. -/
theorem commutesWith_exact :
    (∀ (p q : PauliString) (m : Nat), p.length ≤ m → q.length ≤ m →
      (p.commutesWith q = true ↔ p.exact m * q.exact m = q.exact m * p.exact m) ∧
        (p.commutesWith q = false ↔ p.exact m * q.exact m = -(q.exact m * p.exact m))) ∧
    (∀ p q : PauliString, q.commutesWith p = p.commutesWith q ∧
      ∀ s s', ({ p with sign := s }).commutesWith { q with sign := s' } = p.commutesWith q) ∧
    ∀ (t : Tableau n) (i j : Fin (2 * n)) (p : PauliString),
      ∃ u a b c, t.rowsum i j = .ok u ∧ t.readRow i = .ok a ∧ t.readRow j = .ok b ∧
        u.readRow i = .ok c ∧
        (c.commutesWith p = true ↔ a.commutesWith p = b.commutesWith p) := by
  refine ⟨fun p q m hp _ => PauliString.commutesWith_iff_mul_eq hp,
    fun p q => ⟨p.commutesWith_comm q, fun _ _ => rfl⟩, fun t i j p => ?_⟩
  refine ⟨_, _, _, _, t.rowsum_val i j, t.readRow_val i, t.readRow_val j, Tableau.readRow_val _ i, ?_⟩
  rw [Tableau.row_multiply, if_pos rfl, Row.toPauli_mul_commutesWith]

/-- Strings of two and three letters, padded to four: `XY` and `-ZXZ` anticommute at two places. -/
theorem commutesWith_exact_ragged :
    let p : PauliString := ⟨.plus, [.X, .Y]⟩
    let q : PauliString := ⟨.minus, [.Z, .X, .Z]⟩
    p.length ≤ 4 ∧ q.length ≤ 4 ∧ p.commutesWith q = true ∧
      p.exact 4 * q.exact 4 = q.exact 4 * p.exact 4 := by
  intro p q
  have hp : p.length ≤ 4 := by decide
  have hq : q.length ≤ 4 := by decide
  have comm : p.commutesWith q = true := by decide
  exact ⟨hp, hq, comm, ((commutesWith_exact (n := 1)).1 p q 4 hp hq).1.1 comm⟩

end Stabilizer
