import Stabilizer.Proofs.GroupMeasurement
/-!
# The order of two measurements

Two measurements may be done in either order.  Whatever the two bits are, the other order can give the
same bits, takes as many coins, and leaves the same group.  Which of the two outcomes is random may
change with the order, as for a correlated pair, where it is always the first.
-/

namespace Stabilizer

open PauliOperator

variable {n : Nat}

/-- A tape whose words show the given coins. -/
def Tape.ofCoins (coins : Nat → Bool) : Tape := fun j => if coins j then 0x80000000 else 0

@[simp] theorem Coins.next_ofCoins (coins : Nat → Bool) (drawn : Nat) :
    (Coins.mk (Tape.ofCoins coins) drawn).next = coins drawn := by
  cases h : coins drawn <;> simp [Coins.next, Tape.ofCoins, h] <;> decide

/-- Of `Z` on two qubits and their product, a group holds none, one or all.  So as many of the two
outcomes are random in either order. -/
theorem draws_comm {G : Subgroup (PauliOperator n)} {q r : Fin n} {a b a' b' : Outcome}
    (ha : a.isDeterministic = true ↔ signedZ a.bit q ∈ G)
    (hb : b.isDeterministic = true ↔ signedZ b.bit r ∈ projected G q a.bit)
    (hb' : b'.isDeterministic = true ↔ signedZ b.bit r ∈ G)
    (ha' : a'.isDeterministic = true ↔ signedZ a.bit q ∈ projected G r b.bit) :
    draws [b', a'] = draws [a, b] := by
  have second : signedZ a.bit q ∈ G → signedZ a.bit q * signedZ b.bit r ∈ G →
      signedZ b.bit r ∈ G := fun hZ => (mul_mem_cancel_left hZ).1
  have first : signedZ b.bit r ∈ G → signedZ a.bit q * signedZ b.bit r ∈ G →
      signedZ a.bit q ∈ G := by
    rw [(commute_signedZ_signedZ a.bit b.bit q r).eq]
    exact fun hZ => (mul_mem_cancel_left hZ).1
  rw [mem_projected, and_iff_right (xBit_signedZ _ _ _)] at hb ha'
  rw [(commute_signedZ_signedZ b.bit a.bit r q).eq] at ha'
  simp only [draws, List.countP_cons, List.countP_nil, Bool.not_eq_true', ← Bool.not_eq_true,
    ha, hb, hb', ha']
  by_cases hq : signedZ a.bit q ∈ G <;> by_cases hr : signedZ b.bit r ∈ G <;>
    by_cases both : signedZ a.bit q * signedZ b.bit r ∈ G <;> simp_all

namespace Tableau

/-- **Measurements commute**: the bits of two measurements are possible in the other order too, with
as many coins drawn and with the same group afterwards. -/
theorem measureEach_comm {t : Tableau n} (ht : t.isSymplectic = true) (q r : Fin n)
    (coins : Coins) :
    ∃ a b after rest, t.measureEach coins [q, r] = .ok ([a, b], after, rest) ∧
      ∃ tape b' a' after',
        t.measureEach ⟨tape, coins.drawn⟩ [r, q] = .ok ([b', a'], after', ⟨tape, rest.drawn⟩) ∧
        b'.bit = b.bit ∧ a'.bit = a.bit ∧ after'.group = after.group := by
  classical
  rw [isSymplectic_iff] at ht
  obtain ⟨a, t₁, first, ht₁, reports_a, group₁⟩ := exists_measure ht q coins
  obtain ⟨b, t₂, second, -, reports_b, group₂⟩ := exists_measure ht₁ r (coins.after a)
  rw [group₁] at reports_b group₂
  have possible_b : signedZ (!b.bit) r ∉ t.group := fun certain =>
    reports_b.possible (mem_projected_of_mem certain (xBit_signedZ _ _ _))
  have possible_a : signedZ (!a.bit) q ∉ projected t.group r b.bit :=
    signedZ_notMem_projected reports_a.possible reports_b.possible
  -- The coin for `r` comes first, unless the outcome for `r` is determined now.
  let tape := Tape.ofCoins fun j =>
    if j = coins.drawn ∧ signedZ b.bit r ∉ t.group then b.bit else a.bit
  obtain ⟨b', u₁, first', hu₁, bit_b, certain_b, group₁'⟩ :=
    exists_measure_bit ht possible_b ⟨tape, coins.drawn⟩ fun uncertain => by simp [tape, uncertain]
  have shown_a : (Coins.after ⟨tape, coins.drawn⟩ b').next = a.bit := by
    rw [Coins.after_eq, Coins.next_ofCoins]
    refine if_neg ?_
    rintro ⟨undrawn, uncertain⟩
    rw [← certain_b] at uncertain
    simp [draws, uncertain] at undrawn
  obtain ⟨a', u₂, second', -, bit_a, certain_a, group₂'⟩ :=
    exists_measure_bit hu₁ (group₁' ▸ possible_a) _ fun _ => shown_a
  rw [group₁'] at certain_a group₂'
  refine ⟨a, b, t₂, _, measureEach_cons first (measureEach_cons second rfl),
    tape, b', a', u₂, ?_, bit_b, bit_a, ?_⟩
  · have same := draws_comm reports_a.determined reports_b.determined certain_b certain_a
    rw [draws_cons b', draws_cons a] at same
    rw [measureEach_cons first' (measureEach_cons second' rfl)]
    simp only [Coins.after_eq, Nat.add_assoc, same]
  · rw [group₂, group₂', projected_comm]

/-- A correlated pair. -/
theorem measureEach_comm_bell :
    let t := ((basis 2 0 (by decide)).apply (.h 0)).apply (.cnot 0 1)
    let coins := Coins.fresh fun _ => 0x80000000
    t.isSymplectic = true ∧
    ∃ a b after rest, t.measureEach coins [0, 1] = .ok ([a, b], after, rest) ∧
      ∃ tape b' a' after',
        t.measureEach ⟨tape, coins.drawn⟩ [1, 0] = .ok ([b', a'], after', ⟨tape, rest.drawn⟩) ∧
        b'.bit = b.bit ∧ a'.bit = a.bit ∧ after'.group = after.group :=
  ⟨by decide, measureEach_comm (by decide) 0 1 _⟩

end Tableau

end Stabilizer
