/-!
# Words of 64 bits

Numbers of qubits and basis states come as words of 64 bits.  Products that do not fit are noticed, and so
are shifts by 64 or more, which a word has no bits for.
-/

namespace Stabilizer

/-- The product, if it fits. -/
def checkedMul (a b : UInt64) : Option UInt64 :=
  if a.toNat * b.toNat < Nat.pow 2 64 then some (a * b) else none

/-- The word as one of 32 bits, if it fits. -/
def toUInt32? (a : UInt64) : Option UInt32 := if a.toNat < Nat.pow 2 32 then some a.toUInt32 else none

/-- The word shifted to the right, if by fewer places than it has bits. -/
def checkedShr (a : UInt64) (places : UInt32) : Option UInt64 :=
  if places < 64 then some (a >>> places.toUInt64) else none

/-- Bit `i` of an `n`-bit number, the most significant one first (`big_endian_bit`, tableau 77-81). -/
def bigEndianBit (state n i : UInt64) : Bool :=
  ((toUInt32? (n - 1 - i)).bind (checkedShr state)).any fun shifted => shifted &&& 1 == 1

/-- Twice the number, if that fits and so do as many rows of the number itself (`new`,
tableau 168-169). -/
def rowCount? (n : UInt64) : Option UInt64 :=
  (checkedMul n 2).filter fun rows => (checkedMul rows n).isSome

/-! ### In terms of numbers -/

theorem toNat_of_checkedMul {a b c : UInt64} (h : checkedMul a b = some c) :
    c.toNat = a.toNat * b.toNat := by
  unfold checkedMul at h
  split at h
  · next fits =>
    cases h
    rw [UInt64.toNat_mul]
    exact Nat.mod_eq_of_lt fits
  · cases h

theorem isSome_checkedMul {a b : UInt64} :
    (checkedMul a b).isSome = true ↔ a.toNat * b.toNat < Nat.pow 2 64 := by
  unfold checkedMul
  split <;> simp_all

/-- There is a number of rows if all their entries can be counted. -/
theorem exists_rowCount? {n : UInt64} (positive : 0 < n.toNat)
    (fits : 2 * n.toNat * n.toNat < Nat.pow 2 64) :
    ∃ rows, rowCount? n = some rows ∧ rows.toNat = 2 * n.toNat := by
  have twice : n.toNat * (2 : UInt64).toNat = 2 * n.toNat := Nat.mul_comm _ _
  have le : 2 * n.toNat ≤ 2 * n.toNat * n.toNat := Nat.le_mul_of_pos_right _ positive
  have rows : checkedMul n 2 = some (n * 2) := if_pos (twice ▸ Nat.lt_of_le_of_lt le fits)
  have count : (n * 2).toNat = 2 * n.toNat := (toNat_of_checkedMul rows).trans twice
  refine ⟨n * 2, ?_, count⟩
  rw [rowCount?, rows, Option.filter_some, isSome_checkedMul.2 (count ▸ fits), if_pos rfl]

/-- There is none otherwise, whichever of the two products does not fit. -/
theorem rowCount?_eq_none {n : UInt64} (many : Nat.pow 2 64 ≤ 2 * n.toNat * n.toNat) :
    rowCount? n = none := by
  rw [rowCount?, Option.filter_eq_none_iff]
  intro rows doubled entries
  have count : rows.toNat = 2 * n.toNat := (toNat_of_checkedMul doubled).trans (Nat.mul_comm _ _)
  rw [isSome_checkedMul, count] at entries
  exact Nat.not_lt.2 many entries

theorem any_checkedShr (a : UInt64) (places : UInt32) :
    ((checkedShr a places).any fun shifted => shifted &&& 1 == 1) = a.toNat.testBit places.toNat := by
  unfold checkedShr
  split
  · next few =>
    have few : places.toNat < 64 := few
    have shifted : (a >>> places.toUInt64).toNat = a.toNat >>> places.toNat := by
      rw [UInt64.toNat_shiftRight, UInt32.toNat_toUInt64, Nat.mod_eq_of_lt few]
    rw [Option.any_some, Nat.testBit, ← shifted, Bool.eq_iff_iff, beq_iff_eq, ← UInt64.toNat_inj,
      UInt64.toNat_and]
    simp [Nat.and_comm]
  · next many =>
    have many : 64 ≤ places.toNat := Nat.le_of_not_lt many
    symm
    exact Nat.testBit_lt_two_pow (Nat.lt_of_lt_of_le a.toNat_lt (Nat.pow_le_pow_right (by decide) many))

/-- The bit is that of the number, for which no shift is too wide. -/
theorem bigEndianBit_eq {state n i : UInt64} (h : i.toNat < n.toNat) :
    bigEndianBit state n i = state.toNat.testBit (n.toNat - 1 - i.toNat) := by
  have places : (n - 1 - i).toNat = n.toNat - 1 - i.toNat := by
    have one : (1 : UInt64) ≤ n := UInt64.le_iff_toNat_le.2 (Nat.lt_of_le_of_lt (Nat.zero_le _) h)
    have rest : i ≤ n - 1 := UInt64.le_iff_toNat_le.2 (by
      rw [UInt64.toNat_sub_of_le _ _ one]
      exact Nat.le_sub_one_of_lt h)
    rw [UInt64.toNat_sub_of_le _ _ rest, UInt64.toNat_sub_of_le _ _ one]
    rfl
  unfold bigEndianBit toUInt32?
  split
  · next few =>
    rw [Option.bind_some, any_checkedShr, ← places, UInt64.toNat_toUInt32, Nat.mod_eq_of_lt few]
  · next many =>
    have wide : 64 ≤ (n - 1 - i).toNat :=
      Nat.le_trans (by decide) (Nat.le_of_not_lt many)
    rw [← places, Option.bind_none, Option.any_none]
    symm
    exact Nat.testBit_lt_two_pow (Nat.lt_of_lt_of_le state.toNat_lt (Nat.pow_le_pow_right (by decide) wide))

theorem bigEndianBit_ofNat {state n : UInt64} {i : Nat} (h : i < n.toNat) :
    bigEndianBit state n (UInt64.ofNat i) = state.toNat.testBit (n.toNat - 1 - i) := by
  have word : (UInt64.ofNat i).toNat = i := UInt64.toNat_ofNat_of_lt' (Nat.lt_trans h n.toNat_lt)
  rw [bigEndianBit_eq (word.symm ▸ h), word]

end Stabilizer
