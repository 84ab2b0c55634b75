import Stabilizer.Machine.Program
import Stabilizer.Machine.Word
import Stabilizer.Tableau.Basic
/-!
# Building a tableau

A tableau is built from two words, the number of qubits and the number of a basis state.  What cannot be
built is refused with an error.  But a word can count more entries than a container can have: where the
words are accepted and the matrices are too large, building is broken off.
-/

namespace Stabilizer

/-- Checks the words in turn, and counts the rows (`new`, tableau 167-174). -/
def checkBasis (n state : UInt64) : Except Error UInt64 :=
  if n = 0 then .error .noQubits
  else
    match rowCount? n with
    | none => .error (.tooManyQubits n.toNat)
    | some rows =>
      if n < 64 && state >>> n != 0 then .error (.invalidInitialState state.toNat n.toNat)
      else .ok rows

/-- A container can have so many entries, whose bytes are counted by a signed word (`from_element`, called at
tableau 175-177). -/
def FitsContainer (entries : Nat) : Prop := entries < Nat.pow 2 63

instance (entries : Nat) : Decidable (FitsContainer entries) := inferInstanceAs (Decidable (_ < _))

theorem addressable_of_checkBasis {n state rows : UInt64} (h : checkBasis n state = .ok rows) :
    Addressable n.toNat := by
  unfold checkBasis at h
  split at h
  · cases h
  · next nonzero =>
    have positive : 0 < n.toNat :=
      Nat.pos_of_ne_zero fun zero => nonzero (UInt64.toNat_inj.1 zero)
    refine ⟨positive, Nat.lt_of_not_le fun many => ?_⟩
    rw [rowCount?_eq_none many] at h
    cases h

namespace Tableau

/-- The tableau of a basis state, in words: the signs are the bits of the word (`new`,
tableau 178-184). -/
def basisOfWord (n state : UInt64) (h : Addressable n.toNat) : Tableau n.toNat where
  rows := Vector.ofFn fun i : Fin (2 * n.toNat) =>
    if hi : i.val < n.toNat then Row.singleX n.toNat ⟨i, hi⟩
    else
      Row.singleZ n.toNat (bigEndianBit state n (UInt64.ofNat (i.val - n.toNat))) (upperIndex i hi)
  scratch := Row.one n.toNat
  addressable := h

/-- Builds the tableau of a basis state (`new`, tableau 166-185). -/
def build (n state : UInt64) : Ending Unit (Tableau n.toNat) :=
  match h : checkBasis n state with
  | .error error => .failed error ()
  | .ok rows =>
    if FitsContainer (rows.toNat * n.toNat) then
      .returned (basisOfWord n state (addressable_of_checkBasis h)) ()
    else .aborted .capacityOverflow

end Tableau

end Stabilizer
