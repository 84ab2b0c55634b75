import Stabilizer.Proofs.Rowsum
import Stabilizer.Proofs.SameGroup
/-!
# Gates before and after a measurement

A gate that takes the `Z` on a qubit to itself may come before a measurement of the qubit or after it:
the outcome, the coins and all rows are the same.  A gate that negates this `Z`, as the bit flip on the
qubit does, turns the bit around.

Such a gate keeps the X part that every row has at the qubit, so both orders find the same pivot and
multiply it into the same rows.  `Gate.onRow_mul` lets the gate pass each of these products, for the
pivot commutes with every row but its own destabilizer, and that one is overwritten.
-/

namespace Stabilizer

open PauliOperator

variable {n : Nat}

/-! ## Gates that keep a `Z` -/

namespace PauliOperator

/-- A letter that is mapped to itself may change the sign, and nothing else. -/
theorem mapAt_of_letter_eq {m : LetterMap} {k : Fin n} {g : PauliOperator n}
    (letter : m.letter (g.letters k) = g.letters k) :
    mapAt m k g = ⟨g.phase + signPhase (m.flips (g.letters k)), g.letters⟩ := by
  rw [mapAt, letter, Function.update_eq_self]

theorem mapAt_signedZ_of_ne {m : LetterMap} {k q : Fin n} (hk : k ≠ q) (letter : m.letter .I = .I)
    (flips : m.flips .I = false) (minus : Bool) : mapAt m k (signedZ minus q) = signedZ minus q := by
  have away : (signedZ minus q).letters k = .I := if_neg hk
  rw [mapAt_of_letter_eq (by rw [away, letter]), away, flips]
  exact PauliOperator.ext (add_zero _) rfl

theorem mapAt_signedZ_self {m : LetterMap} (letter : m.letter .Z = .Z) (q : Fin n) (minus : Bool) :
    mapAt m q (signedZ minus q) = signedZ (minus ^^ m.flips .Z) q := by
  have here : (signedZ minus q).letters q = .Z := if_pos rfl
  rw [mapAt_of_letter_eq (by rw [here, letter]), here]
  exact PauliOperator.ext (signPhase_xor minus _).symm rfl

/-- On a control a `Z` passes through. -/
theorem cnot_signedZ {control target q : Fin n} (ht : target ≠ q) (minus : Bool) :
    cnot control target (signedZ minus q) = signedZ minus q := by
  have there : (signedZ minus q).letters target = .I := if_neg ht
  have here : (signedZ minus q).letters control = .I ∨ (signedZ minus q).letters control = .Z := by
    by_cases hc : control = q
    · exact .inr (if_pos hc)
    · exact .inl (if_neg hc)
  have control_eq : ((signedZ minus q).letters control).cnotControl .I =
      (signedZ minus q).letters control := by
    rcases here with here | here <;> rw [here] <;> rfl
  have target_eq : ((signedZ minus q).letters control).cnotTarget .I = .I := by
    rcases here with here | here <;> rw [here] <;> rfl
  ext j
  · simp [cnot, there, Pauli.cnotFlips, Pauli.zBit, signPhase]
  · rw [cnot]
    simp only [there, control_eq, target_eq, Function.update_eq_self]
    rw [← there, Function.update_eq_self]

end PauliOperator

namespace Gate

/-- The gate takes `Z` on the qubit to itself, or to `-Z` if it flips the sign. -/
structure Keeps (u : Gate (Fin n)) (q : Fin n) (flip : Bool) : Prop where
  distinct : u.Distinct
  conj : ∀ minus, u.conj (signedZ minus q) = signedZ (minus ^^ flip) q

/-- The gates that leave `Z` on the qubit alone: those that do not act on the qubit, the phase gate, and
the controlled NOT unless the qubit is its target. -/
def Fixes (q : Fin n) : Gate (Fin n) → Prop
  | .h k => k ≠ q
  | .s _ => True
  | .x k => k ≠ q
  | .cnot control target => control ≠ target ∧ target ≠ q

theorem Fixes.keeps {u : Gate (Fin n)} {q : Fin n} (h : u.Fixes q) : u.Keeps q false := by
  suffices fixed : u.Distinct ∧ ∀ minus, u.conj (signedZ minus q) = signedZ minus q from
    ⟨fixed.1, fun minus => by rw [fixed.2, Bool.xor_false]⟩
  cases u with
  | h k => exact ⟨trivial, mapAt_signedZ_of_ne h rfl rfl⟩
  | s k =>
    by_cases hk : k = q
    · subst hk
      refine ⟨trivial, fun minus => (mapAt_signedZ_self rfl k minus).trans ?_⟩
      exact congrArg (signedZ · k) (Bool.xor_false minus)
    · exact ⟨trivial, mapAt_signedZ_of_ne hk rfl rfl⟩
  | x k => exact ⟨trivial, mapAt_signedZ_of_ne h rfl rfl⟩
  | cnot control target => exact ⟨h.1, cnot_signedZ h.2⟩

theorem keeps_x (q : Fin n) : (Gate.x q).Keeps q true :=
  ⟨trivial, mapAt_signedZ_self rfl q⟩

namespace Keeps

variable {u : Gate (Fin n)} {q : Fin n} {flip : Bool}

theorem onRow_singleZ (h : u.Keeps q flip) (minus : Bool) :
    u.onRow (Row.singleZ n minus q) = Row.singleZ n (minus ^^ flip) q := by
  apply Row.exact_injective
  rw [exact_onRow h.distinct, Row.exact_singleZ, Row.exact_singleZ, h.conj]

/-- Commuting with the `Z` or not, a row has the same X part at the qubit before and after. -/
theorem x_onRow (h : u.Keeps q flip) (a : Row n) : (u.onRow a).x.get q = a.x.get q := by
  apply mod2_injective
  rw [← Row.xBit_letter, ← Row.xBit_letter, ← Row.letters_exact, ← Row.letters_exact,
    ← form_signedZ _ (false ^^ flip), ← form_signedZ _ false, exact_onRow h.distinct, ← h.conj,
    form_conj h.distinct]

theorem onRow_cleared (h : u.Keeps q flip) {a pivot : Row n} (comm : a.exact.form pivot.exact = 0) :
    u.onRow (a.cleared q pivot) = (u.onRow a).cleared q (u.onRow pivot) := by
  rw [Row.cleared, Row.cleared, h.x_onRow]
  split
  · exact onRow_mul h.distinct comm
  · rfl

end Keeps

end Gate

namespace Tableau

variable {t : Tableau n} {u : Gate (Fin n)} {q : Fin n} {flip : Bool}

theorem stabilizer_apply (t : Tableau n) (u : Gate (Fin n)) (i : Fin n) :
    (t.apply u).stabilizer i = u.onRow (t.stabilizer i) := t.row_apply u _

theorem destabilizer_apply (t : Tableau n) (u : Gate (Fin n)) (i : Fin n) :
    (t.apply u).destabilizer i = u.onRow (t.destabilizer i) := t.row_apply u _

theorem pivot?_apply (t : Tableau n) (hu : u.Keeps q flip) : (t.apply u).pivot? q = t.pivot? q := by
  simp only [pivot?, stabilizer_apply, hu.x_onRow]

/-- A random outcome is followed by the same rows in either order. -/
theorem collapse_apply (ht : t.Symplectic) (hu : u.Keeps q flip) (p : Fin n) (bit : Bool) :
    ((t.apply u).collapse q p (bit ^^ flip) == (t.collapse q p bit).apply u) = true := by
  rw [beq_iff_row_eq]
  intro k
  rw [row_apply]
  obtain ⟨i, rfl⟩ | ⟨i, rfl⟩ := index_cases k
  · rw [row_destabIndex, row_destabIndex, destabilizer_collapse, destabilizer_collapse]
    by_cases hi : i = p
    · rw [if_pos hi, if_pos hi, stabilizer_apply]
    · -- only the destabilizer of the pivot anticommutes with it, and that row is overwritten
      have comm : (t.destabilizer i).exact.form (t.stabilizer p).exact = 0 := by
        rw [ht.destab_stab, if_neg hi]
      rw [if_neg hi, if_neg hi, destabilizer_apply, stabilizer_apply, hu.onRow_cleared comm]
  · rw [row_stabIndex, row_stabIndex, stabilizer_collapse, stabilizer_collapse]
    by_cases hi : i = p
    · rw [if_pos hi, if_pos hi, hu.onRow_singleZ]
    · rw [if_neg hi, if_neg hi, stabilizer_apply, stabilizer_apply,
        hu.onRow_cleared (ht.stab_stab i p)]

/-- A determined bit is turned around when the gate flips the sign. -/
theorem determined_apply (ht : t.Symplectic) (hu : u.Keeps q flip) (hq : t.pivot? q = none) :
    ((t.apply u).determined q).minus = ((t.determined q).minus ^^ flip) := by
  have image : signedZ ((t.determined q).minus ^^ flip) q ∈ (t.apply u).group := by
    rw [group_apply hu.distinct, ← hu.conj]
    exact Subgroup.mem_map_of_mem (Gate.conjHom hu.distinct) (signedZ_mem_group ht hq)
  exact ((signedZ_mem_group_iff (ht.apply hu.distinct)).1 image).2.symm

/-- Measuring after the gate or before it, with a coin that allows for the sign that the gate flips. -/
theorem exists_measure_apply (ht : t.Symplectic) (hu : u.Keeps q flip) {coins coins' : Coins}
    (shown : coins'.next = (coins.next ^^ flip)) :
    ∃ outcome outcome' after after',
      t.measure q coins = .ok (outcome, after, coins.after outcome) ∧
      (t.apply u).measure q coins' = .ok (outcome', after', coins'.after outcome') ∧
      outcome'.isDeterministic = outcome.isDeterministic ∧ outcome'.bit = (outcome.bit ^^ flip) ∧
      (after' == after.apply u) = true := by
  cases hq : t.pivot? q with
  | none =>
    refine ⟨_, _, _, _, measure_of_none hq coins,
      measure_of_none ((t.pivot?_apply hu).trans hq) coins', rfl, determined_apply ht hu hq, ?_⟩
    -- both products are only left in the scratch rows
    exact beq_iff_rows_eq.2 rfl
  | some p =>
    refine ⟨_, _, _, _, measure_of_some hq coins,
      measure_of_some ((t.pivot?_apply hu).trans hq) coins', rfl, shown, ?_⟩
    rw [shown]
    exact collapse_apply ht hu p coins.next

/-- **Measurements commute with gates that keep the `Z`.**  A gate that fixes it may come before the
measurement or after it, with the same outcome, the same coins and the same rows.  With the bit flip on
the qubit the two orders take opposite coins, and report opposite bits of the same kind. -/
theorem measure_apply {t : Tableau n} (ht : t.isSymplectic = true) (q : Fin n) (coins : Coins) :
    (∀ u : Gate (Fin n), u.Fixes q →
      ∃ outcome after after', t.measure q coins = .ok (outcome, after, coins.after outcome) ∧
        (t.apply u).measure q coins = .ok (outcome, after', coins.after outcome) ∧
        (after' == after.apply u) = true) ∧
      ∀ coins' : Coins, coins'.next = !coins.next →
        ∃ outcome outcome' after after',
          t.measure q coins = .ok (outcome, after, coins.after outcome) ∧
          (t.apply (.x q)).measure q coins' = .ok (outcome', after', coins'.after outcome') ∧
          outcome'.isDeterministic = outcome.isDeterministic ∧ outcome'.bit = !outcome.bit ∧
          (after' == after.apply (.x q)) = true := by
  rw [isSymplectic_iff] at ht
  constructor
  · intro u fixes
    obtain ⟨outcome, outcome', after, after', before, behind, kind, bit, same⟩ :=
      exists_measure_apply ht fixes.keeps (Bool.xor_false coins.next).symm
    obtain rfl : outcome' = outcome := Outcome.ext_bit kind (by rw [bit, Bool.xor_false])
    exact ⟨outcome', after, after', before, behind, same⟩
  · intro coins' opposite
    have shown : coins'.next = (coins.next ^^ true) := by rw [opposite, Bool.xor_true]
    obtain ⟨outcome, outcome', after, after', before, behind, kind, bit, same⟩ :=
      exists_measure_apply ht (Gate.keeps_x q) shown
    exact ⟨outcome, outcome', after, after', before, behind, kind, by rw [bit, Bool.xor_true], same⟩

/-- Qubit 0 of an entangled pair: a controlled NOT that it controls, a Hadamard gate on the other qubit,
and the bit flip. -/
theorem measure_apply_bell :
    let t := ((basis 2 1 (by decide)).apply (.h 0)).apply (.cnot 0 1)
    let coins := Coins.fresh fun _ => 0x80000000
    let coins' := Coins.fresh fun _ => 0
    t.isSymplectic = true ∧ coins'.next = !coins.next ∧
      (∀ u ∈ [Gate.cnot 0 1, Gate.h 1], u.Fixes 0 ∧
        ∃ outcome after after',
          t.measure (0 : Fin 2) coins = .ok (outcome, after, coins.after outcome) ∧
          (t.apply u).measure (0 : Fin 2) coins = .ok (outcome, after', coins.after outcome) ∧
          (after' == after.apply u) = true) ∧
      ∃ outcome outcome' after after',
        t.measure (0 : Fin 2) coins = .ok (outcome, after, coins.after outcome) ∧
        (t.apply (.x 0)).measure (0 : Fin 2) coins' = .ok (outcome', after', coins'.after outcome') ∧
        outcome'.isDeterministic = outcome.isDeterministic ∧ outcome'.bit = !outcome.bit ∧
        (after' == after.apply (.x 0)) = true := by
  intro t coins coins'
  have sound : t.isSymplectic = true := by decide
  have opposite : coins'.next = !coins.next := by decide
  have fixes : ∀ u ∈ [Gate.cnot 0 1, Gate.h 1], u.Fixes (0 : Fin 2) := by simp [Gate.Fixes]
  obtain ⟨fixing, flipping⟩ := measure_apply sound 0 coins
  exact ⟨sound, opposite, fun u hu => ⟨fixes u hu, fixing u (fixes u hu)⟩, flipping coins' opposite⟩

end Tableau

end Stabilizer
