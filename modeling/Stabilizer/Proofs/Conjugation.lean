import Stabilizer.Proofs.RowProduct
import Stabilizer.Tableau.Gate
/-!
# Gates as conjugations

On exact operators a gate acts as an automorphism of the Pauli group.  The gates on one qubit map the
letter there and may change the sign; the controlled NOT does so with two letters.  Whether such a
map is multiplicative is a matter of single letters, or of pairs of them.

Automorphisms keep what commutes, so a gate applied to every row of a tableau keeps how the rows are
paired.
-/

namespace Stabilizer

open PauliOperator

variable {n : Nat}

/-- The positions of the gate are different. -/
def Gate.Distinct {ι : Type} : Gate ι → Prop
  | .cnot control target => control ≠ target
  | _ => True

instance {ι : Type} [DecidableEq ι] : (u : Gate ι) → Decidable u.Distinct
  | .h _ => inferInstanceAs (Decidable True)
  | .s _ => inferInstanceAs (Decidable True)
  | .x _ => inferInstanceAs (Decidable True)
  | .cnot control target => inferInstanceAs (Decidable (control ≠ target))

/-! ## Letters -/

/-- What a gate on one qubit makes of a letter, and the letters that change the sign. -/
structure LetterMap where
  letter : Pauli → Pauli
  flips : Pauli → Bool

namespace LetterMap

/-- The map takes products of letters to products, with the same phases. -/
structure Multiplicative (m : LetterMap) : Prop where
  letter_times : ∀ a b, m.letter (a.times b) = (m.letter a).times (m.letter b)
  exponent : ∀ a b, a.exponent b + signPhase (m.flips (a.times b)) =
    signPhase (m.flips a) + signPhase (m.flips b) + (m.letter a).exponent (m.letter b)

def hadamard : LetterMap := ⟨fun a => .ofBits a.zBit a.xBit, fun a => a.xBit && a.zBit⟩

def phase : LetterMap := ⟨fun a => .ofBits a.xBit (a.zBit ^^ a.xBit), fun a => a.xBit && a.zBit⟩

def bitFlip : LetterMap := ⟨id, Pauli.zBit⟩

theorem hadamard_multiplicative : hadamard.Multiplicative := by
  refine ⟨fun a b => ?_, fun a b => ?_⟩ <;> cases a <;> cases b <;> decide

theorem phase_multiplicative : phase.Multiplicative := by
  refine ⟨fun a b => ?_, fun a b => ?_⟩ <;> cases a <;> cases b <;> decide

theorem bitFlip_multiplicative : bitFlip.Multiplicative := by
  refine ⟨fun a b => ?_, fun a b => ?_⟩ <;> cases a <;> cases b <;> decide

end LetterMap

namespace Pauli

/-- The letter on the control after a controlled NOT. -/
def cnotControl (c t : Pauli) : Pauli := .ofBits c.xBit (c.zBit ^^ t.zBit)

/-- The letter on the target after a controlled NOT. -/
def cnotTarget (c t : Pauli) : Pauli := .ofBits (t.xBit ^^ c.xBit) t.zBit

/-- The pairs of letters whose sign a controlled NOT changes. -/
def cnotFlips (c t : Pauli) : Bool := c.xBit && t.zBit && (t.xBit == c.zBit)

theorem cnotControl_times (c c' t t' : Pauli) :
    (c.times c').cnotControl (t.times t') = (c.cnotControl t).times (c'.cnotControl t') := by
  apply ext_bits <;> simp [cnotControl, Bool.xor_left_comm]

theorem cnotTarget_times (c c' t t' : Pauli) :
    (c.times c').cnotTarget (t.times t') = (c.cnotTarget t).times (c'.cnotTarget t') := by
  apply ext_bits <;> simp [cnotTarget, Bool.xor_left_comm]

theorem exponent_cnot (c c' t t' : Pauli) :
    c.exponent c' + t.exponent t' + signPhase ((c.times c').cnotFlips (t.times t')) =
      signPhase (c.cnotFlips t) + signPhase (c'.cnotFlips t') +
        ((c.cnotControl t).exponent (c'.cnotControl t') +
          (c.cnotTarget t).exponent (c'.cnotTarget t')) := by
  cases c <;> cases c' <;> cases t <;> cases t' <;> decide

end Pauli

/-! ## Operators -/

namespace PauliOperator

/-- Maps the letter on one qubit. -/
def mapAt (m : LetterMap) (k : Fin n) (g : PauliOperator n) : PauliOperator n :=
  ⟨g.phase + signPhase (m.flips (g.letters k)),
    Function.update g.letters k (m.letter (g.letters k))⟩

/-- Maps the letters on a control and a target. -/
def cnot (control target : Fin n) (g : PauliOperator n) : PauliOperator n :=
  ⟨g.phase + signPhase ((g.letters control).cnotFlips (g.letters target)),
    Function.update
      (Function.update g.letters control ((g.letters control).cnotControl (g.letters target)))
      target ((g.letters control).cnotTarget (g.letters target))⟩

theorem mapAt_mul {m : LetterMap} (hm : m.Multiplicative) (k : Fin n) (g h : PauliOperator n) :
    mapAt m k (g * h) = mapAt m k g * mapAt m k h := by
  ext j
  · have rest : ∑ j ∈ {k}ᶜ, ((mapAt m k g).letters j).exponent ((mapAt m k h).letters j) =
        ∑ j ∈ {k}ᶜ, (g.letters j).exponent (h.letters j) := by
      refine Finset.sum_congr rfl fun j hj => ?_
      have apart : j ≠ k := by simpa using hj
      simp only [mapAt, Function.update_of_ne apart]
    have here : ((mapAt m k g).letters k).exponent ((mapAt m k h).letters k) =
        (m.letter (g.letters k)).exponent (m.letter (h.letters k)) := by
      simp only [mapAt, Function.update_self]
    rw [phase_mul, exponent, Fintype.sum_eq_add_sum_compl k, rest, here]
    simp only [mapAt, phase_mul, letters_mul, exponent]
    rw [Fintype.sum_eq_add_sum_compl k]
    linear_combination hm.exponent (g.letters k) (h.letters k)
  · by_cases hj : j = k
    · subst hj
      simp [mapAt, hm.letter_times]
    · simp [mapAt, hj]

theorem cnot_mul {control target : Fin n} (apart : control ≠ target) (g h : PauliOperator n) :
    cnot control target (g * h) = cnot control target g * cnot control target h := by
  ext j
  · have rest : ∑ j ∈ {control, target}ᶜ,
          ((cnot control target g).letters j).exponent ((cnot control target h).letters j) =
        ∑ j ∈ {control, target}ᶜ, (g.letters j).exponent (h.letters j) := by
      refine Finset.sum_congr rfl fun j hj => ?_
      simp only [Finset.mem_compl, Finset.mem_insert, Finset.mem_singleton, not_or] at hj
      simp only [cnot, Function.update_of_ne hj.1, Function.update_of_ne hj.2]
    rw [phase_mul, exponent, ← Finset.sum_add_sum_compl {control, target}, Finset.sum_pair apart,
      rest]
    simp only [cnot, phase_mul, letters_mul, exponent, Function.update_self,
      Function.update_of_ne apart]
    rw [← Finset.sum_add_sum_compl {control, target}, Finset.sum_pair apart]
    linear_combination Pauli.exponent_cnot (g.letters control) (h.letters control)
      (g.letters target) (h.letters target)
  · by_cases ht : j = target
    · subst ht
      simp [cnot, Pauli.cnotTarget_times]
    · by_cases hc : j = control
      · subst hc
        simp [cnot, ht, Pauli.cnotControl_times]
      · simp [cnot, ht, hc]

end PauliOperator

/-! ## Gates -/

namespace Gate

/-- What a gate makes of an operator. -/
def conj : Gate (Fin n) → PauliOperator n → PauliOperator n
  | .h k => mapAt .hadamard k
  | .s k => mapAt .phase k
  | .x k => mapAt .bitFlip k
  | .cnot control target => PauliOperator.cnot control target

theorem conj_mul {u : Gate (Fin n)} (hu : u.Distinct) (g h : PauliOperator n) :
    u.conj (g * h) = u.conj g * u.conj h := by
  cases u with
  | h k => exact mapAt_mul LetterMap.hadamard_multiplicative k g h
  | s k => exact mapAt_mul LetterMap.phase_multiplicative k g h
  | x k => exact mapAt_mul LetterMap.bitFlip_multiplicative k g h
  | cnot control target => exact cnot_mul hu g h

theorem conj_neg (u : Gate (Fin n)) (g : PauliOperator n) : u.conj (-g) = -u.conj g := by
  cases u <;> ext <;> simp [conj, mapAt, PauliOperator.cnot, add_right_comm]

/-- **A gate keeps what commutes.** -/
theorem form_conj {u : Gate (Fin n)} (hu : u.Distinct) (g h : PauliOperator n) :
    (u.conj g).form (u.conj h) = g.form h := by
  rcases zmod2_cases (g.form h) with comm | anti
  · rw [comm, ← commute_iff_form_eq_zero, Commute, SemiconjBy, ← conj_mul hu, ← conj_mul hu,
      (commute_iff_form_eq_zero.2 comm).eq]
  · rw [anti]
    rcases zmod2_cases ((u.conj g).form (u.conj h)) with comm | anti'
    · have swapped := (commute_iff_form_eq_zero.2 comm).eq
      rw [← conj_mul hu, ← conj_mul hu, mul_eq_neg_mul_of_form anti, conj_neg] at swapped
      exact absurd swapped (neg_ne_self _)
    · exact anti'

/-- A row with one letter mapped. -/
theorem exact_eq_mapAt {m : LetterMap} {k : Fin n} {a b : Row n}
    (minus : b.minus = (a.minus ^^ m.flips (a.letter k)))
    (here : b.letter k = m.letter (a.letter k)) (away : ∀ j, j ≠ k → b.letter j = a.letter j) :
    b.exact = mapAt m k a.exact := by
  ext j
  · show signPhase b.minus = signPhase a.minus + signPhase (m.flips (a.letter k))
    rw [minus, signPhase_xor]
  · show b.letter j = Function.update a.letter k (m.letter (a.letter k)) j
    by_cases hj : j = k
    · rw [hj, Function.update_self, here]
    · rw [Function.update_of_ne hj, away j hj]

/-- A row with the letters on a control and a target mapped. -/
theorem exact_cnot {control target : Fin n} (apart : control ≠ target) (a : Row n) :
    (a.cnot control target).exact = PauliOperator.cnot control target a.exact := by
  have control_ne : control.val ≠ target.val := fun h => apart (Fin.ext h)
  ext j
  · simp [Row.cnot, PauliOperator.cnot, Pauli.cnotFlips, signPhase_xor]
  · show (a.cnot control target).letter j = _
    by_cases ht : j = target
    · subst ht
      simp [Row.cnot, PauliOperator.cnot, Pauli.cnotTarget, Row.letter, control_ne]
    · have target_ne : target.val ≠ j.val := fun h => ht (Fin.ext h.symm)
      by_cases hc : j = control
      · subst hc
        simp [Row.cnot, PauliOperator.cnot, Pauli.cnotControl, Row.letter, ht, target_ne]
      · have control_ne' : control.val ≠ j.val := fun h => hc (Fin.ext h.symm)
        simp [Row.cnot, PauliOperator.cnot, Row.letter, ht, hc, target_ne, control_ne']

/-- **The action of a gate on a row is exact.** -/
theorem exact_onRow {u : Gate (Fin n)} (hu : u.Distinct) (a : Row n) :
    (u.onRow a).exact = u.conj a.exact := by
  have away {k j : Fin n} (hj : j ≠ k) : k.val ≠ j.val := fun h => hj (Fin.ext h.symm)
  cases u with
  | h k =>
    refine exact_eq_mapAt ?_ ?_ fun j hj => ?_
    · simp [onRow, Row.hadamard, LetterMap.hadamard]
    · simp [onRow, Row.hadamard, LetterMap.hadamard, Row.letter]
    · simp [onRow, Row.hadamard, Row.letter, away hj]
  | s k =>
    refine exact_eq_mapAt ?_ ?_ fun j hj => ?_
    · simp [onRow, Row.phase, LetterMap.phase]
    · simp [onRow, Row.phase, LetterMap.phase, Row.letter]
    · simp [onRow, Row.phase, Row.letter, away hj]
  | x k =>
    refine exact_eq_mapAt ?_ ?_ fun j _ => ?_
    · simp [onRow, Row.bitFlip, LetterMap.bitFlip]
    · simp [onRow, Row.bitFlip, LetterMap.bitFlip, Row.letter]
    · simp [onRow, Row.bitFlip, Row.letter]
  | cnot control target => exact exact_cnot hu a

end Gate

/-- A gate keeps the rows of a tableau paired as they were. -/
theorem Tableau.form_apply {u : Gate (Fin n)} (hu : u.Distinct) (t : Tableau n)
    (i j : Fin (2 * n)) :
    ((t.apply u).row i).exact.form ((t.apply u).row j).exact =
      (t.row i).exact.form (t.row j).exact := by
  rw [row_apply, row_apply, Gate.exact_onRow hu, Gate.exact_onRow hu, Gate.form_conj hu]

end Stabilizer
