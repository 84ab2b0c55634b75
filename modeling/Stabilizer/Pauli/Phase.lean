import Stabilizer.Pauli.Basic
/-!
# Phases of products

The product of two letters is a letter times a power of `i`: `XY = iZ`, `YZ = iX`, `ZX = iY`, the
opposite orders give `-i`, and all other products are real.  Along a row these powers add up modulo
4, together with 2 for each minus sign; the product of two rows is written with a minus sign when
the residue is not 0.
-/

namespace Stabilizer

/-- The power of `i` in the product of two letters, left factor first (`PHASE_EXP`, tableau 35-44). -/
def Pauli.phase : Pauli → Pauli → Nat
  | .X, .Y | .Y, .Z | .Z, .X => 1
  | .Y, .X | .Z, .Y | .X, .Z => 3
  | _, _ => 0

theorem Pauli.phase_le (a b : Pauli) : a.phase b ≤ 3 := by cases a <;> cases b <;> decide

/-- The two letters that stand on one qubit of a source row and a target row, as bits. -/
structure Site where
  xSource : Bool
  zSource : Bool
  xTarget : Bool
  zTarget : Bool
  deriving DecidableEq, Repr

namespace Site

/-- The power of `i` that the qubit adds when the source is multiplied into the target (`phase_exp`,
tableau 53-57). -/
def phase (s : Site) : Nat :=
  (Pauli.ofBits s.xSource s.zSource).phase (Pauli.ofBits s.xTarget s.zTarget)

theorem phase_le (s : Site) : s.phase ≤ 3 := Pauli.phase_le _ _

def swap (s : Site) : Site := ⟨s.xTarget, s.zTarget, s.xSource, s.zSource⟩

end Site

/-- Adds the phase of a site to a running total, modulo 4 (`product_sign`, tableau 71). -/
def addPhase (total : Nat) (site : Site) : Nat := (total + site.phase) % 4

/-- The running total after some sites: it starts with 2 for each sign bit that is set, and is
reduced at every site, so no sum on the way passes 7 (`product_sign`, tableau 67-72). -/
def runningPhase (target source : Bool) (sites : List Site) : Nat :=
  sites.foldl addPhase (2 * target.toNat + 2 * source.toNat)

theorem runningPhase_le (target source : Bool) (sites : List Site) :
    runningPhase target source sites ≤ 4 := by
  rcases List.eq_nil_or_concat sites with rfl | ⟨front, last, rfl⟩
  · cases target <;> cases source <;> decide
  · simp only [runningPhase, List.concat_eq_append, List.foldl_append, List.foldl_cons,
      List.foldl_nil, addPhase]
    omega

/-- The power of `i` in the product of two rows, modulo 4, from their sign bits and their sites. -/
def productPhase (target source : Bool) (sites : List Site) : Nat :=
  runningPhase target source sites % 4

/-- The sign bit of the product of two rows: set unless the phase is exactly 1 (`product_sign`,
tableau 64-74). -/
def productSign (target source : Bool) (sites : List Site) : Bool :=
  productPhase target source sites != 0

example : productSign false false [⟨false, true, true, false⟩] = true := by decide

end Stabilizer
