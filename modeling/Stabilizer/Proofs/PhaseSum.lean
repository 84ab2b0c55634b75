import Stabilizer.Proofs.RowProduct
/-!
# The phase of a product as a sum

The sign of a product of rows comes from a total that is reduced modulo 4 at every site.  It never passes 7,
so a byte holds it, with additions that are checked (`phaseByte?_eq`), and what is left at the end is the
residue of a sum of integers: 2 for each minus sign, and for each site a number between -1 and 1 that its four
bits give (`productPhase_eq`).

Modulo 2 that number tells whether the two letters anticommute, so the residue is odd for rows that
anticommute.  When source and target change places, the numbers of all sites are negated.  That changes a
residue of 1 into 3 and one of 3 into 1, but keeps 0 and 2, and the sign bit asks only for 0
(`productSign_swap`).
-/

namespace Stabilizer

/-! ## Sites -/

namespace Site

def source (s : Site) : Pauli := .ofBits s.xSource s.zSource

def target (s : Site) : Pauli := .ofBits s.xTarget s.zTarget

/-- The two letters of the site anticommute. -/
def anticommutes (s : Site) : Bool := !s.source.commutesWith s.target

/-- The power of `i` that a site adds, as an integer between -1 and 1. -/
def power (s : Site) : Int :=
  match s.xSource, s.zSource with
  | false, false => 0
  | true, true => s.zTarget.toInt - s.xTarget.toInt
  | true, false => s.zTarget.toInt * (2 * s.xTarget.toInt - 1)
  | false, true => s.xTarget.toInt * (1 - 2 * s.zTarget.toInt)

theorem phase_eq (s : Site) : (s.phase : Int) = s.power % 4 := by
  obtain ⟨xs, zs, xt, zt⟩ := s
  revert xs zs xt zt
  decide

theorem power_swap (s : Site) : s.swap.power = -s.power := by
  obtain ⟨xs, zs, xt, zt⟩ := s
  revert xs zs xt zt
  decide

theorem power_emod_two (s : Site) : s.power % 2 = if s.anticommutes = true then 1 else 0 := by
  obtain ⟨xs, zs, xt, zt⟩ := s
  revert xs zs xt zt
  decide

end Site

/-! ## The sum -/

/-- The powers of `i` that minus signs and sites give, added up as integers. -/
def phaseSum (target source : Bool) (sites : List Site) : Int :=
  2 * target.toInt + 2 * source.toInt + (sites.map Site.power).sum

/-- The accumulated phase is the residue of the sum. -/
theorem productPhase_eq (target source : Bool) (sites : List Site) :
    (productPhase target source sites : Int) = phaseSum target source sites % 4 := by
  have start : ((2 * target.toNat + 2 * source.toNat : Nat) : ZMod 4) =
      ((2 * target.toInt + 2 * source.toInt : Int) : ZMod 4) := by
    cases target <;> cases source <;> rfl
  have site (s : Site) : (s.phase : ZMod 4) = (s.power : ZMod 4) := by
    rw [← Int.cast_natCast, s.phase_eq]
    exact ZMod.intCast_mod s.power 4
  have same : (((productPhase target source sites : Nat) : Int) : ZMod 4) =
      (phaseSum target source sites : ZMod 4) := by
    rw [phaseSum, Int.cast_add (2 * target.toInt + 2 * source.toInt), Int.cast_list_sum, List.map_map,
      Int.cast_natCast, productPhase, ZMod.natCast_mod, runningPhase, Row.natCast_foldl_addPhase, start]
    simp only [site]
    rfl
  have residue := (ZMod.intCast_eq_intCast_iff' _ _ 4).1 same
  have reduced : productPhase target source sites < 4 := Nat.mod_lt _ (by decide)
  omega

theorem sum_power_swap (sites : List Site) :
    ((sites.map Site.swap).map Site.power).sum = -(sites.map Site.power).sum := by
  induction sites with
  | nil => rfl
  | cons s sites ih =>
    simp only [List.map_cons, List.sum_cons, ih, s.power_swap]
    omega

theorem sum_power_emod_two (sites : List Site) :
    (sites.map Site.power).sum % 2 = (sites.countP Site.anticommutes : Int) % 2 := by
  induction sites with
  | nil => rfl
  | cons s sites ih =>
    have here := s.power_emod_two
    rw [List.map_cons, List.sum_cons, List.countP_cons]
    by_cases anti : s.anticommutes = true
    · rw [if_pos anti] at here ⊢
      omega
    · rw [if_neg anti] at here ⊢
      omega

/-- The phase is imaginary just when the rows anticommute. -/
theorem odd_productPhase_iff (target source : Bool) (sites : List Site) :
    Odd (productPhase target source sites) ↔ Odd (sites.countP Site.anticommutes) := by
  have residue := productPhase_eq target source sites
  have parity := sum_power_emod_two sites
  rw [phaseSum] at residue
  rw [Nat.odd_iff, Nat.odd_iff]
  omega

theorem productSign_eq_true_iff (target source : Bool) (sites : List Site) :
    productSign target source sites = true ↔ productPhase target source sites ≠ 0 := bne_iff_ne

/-- The sign of a product does not depend on which row is the source. -/
theorem productSign_swap (target source : Bool) (sites : List Site) :
    productSign source target (sites.map Site.swap) = productSign target source sites := by
  have residue := productPhase_eq target source sites
  have residue' := productPhase_eq source target (sites.map Site.swap)
  have negated := sum_power_swap sites
  rw [phaseSum] at residue residue'
  rw [Bool.eq_iff_iff, productSign_eq_true_iff, productSign_eq_true_iff]
  omega

/-- Rows are multiplied in either order with the same result. -/
protected theorem Row.mul_comm {n : Nat} (a b : Row n) : a.mul b = b.mul a := by
  have swapped : sites a b = (sites b a).map Site.swap := by
    rw [sites, sites, List.map_ofFn]
    rfl
  ext k hk
  · rw [mul, mul, swapped, productSign_swap]
  · rw [getElem_x_mul, getElem_x_mul, Bool.xor_comm]
  · rw [getElem_z_mul, getElem_z_mul, Bool.xor_comm]

/-! ## In a byte -/

/-- The sum of two bytes, unless it overflows. -/
def addByte? (a b : UInt8) : Option UInt8 :=
  if a.toBitVec.uaddOverflow b.toBitVec then none else some (a + b)

/-- Adds the phase of a site to a total in a byte, and keeps the two lowest bits. -/
def addPhaseByte? (total : UInt8) (site : Site) : Option UInt8 :=
  (addByte? total (.ofNat site.phase)).map (· &&& 3)

/-- The running total in a byte: twice the one sign bit and twice the other, then the sites. -/
def runningByte? (target source : Bool) (sites : List Site) : Option UInt8 :=
  sites.foldl (fun total site => total.bind (addPhaseByte? · site))
    (addByte? (2 * target.toUInt8) (2 * source.toUInt8))

/-- The phase of a product, accumulated in a byte. -/
def phaseByte? (target source : Bool) (sites : List Site) : Option UInt8 :=
  (runningByte? target source sites).map (· &&& 3)

theorem toNat_and_three (b : UInt8) : (b &&& 3).toNat = b.toNat % 4 := by
  rw [UInt8.toNat_and]
  exact Nat.and_two_pow_sub_one_eq_mod b.toNat 2

/-- Bytes whose sum is small are added exactly. -/
theorem addByte?_eq {a b : UInt8} (small : a.toNat + b.toNat < 256) :
    ∃ c, addByte? a b = some c ∧ c.toNat = a.toNat + b.toNat := by
  have fits : a.toBitVec.uaddOverflow b.toBitVec = false := by
    simpa [BitVec.uaddOverflow] using small
  refine ⟨a + b, by rw [addByte?, fits]; rfl, ?_⟩
  rw [UInt8.toNat_add, Nat.mod_eq_of_lt small]

/-- The next site is added without overflow to a total of at most 4. -/
theorem addPhaseByte?_eq {total : UInt8} (small : total.toNat ≤ 4) (site : Site) :
    ∃ next, addPhaseByte? total site = some next ∧ next.toNat = addPhase total.toNat site := by
  have le := site.phase_le
  have phase : (UInt8.ofNat site.phase).toNat = site.phase := by
    rw [UInt8.toNat_ofNat']
    omega
  obtain ⟨sum, added, exact⟩ := addByte?_eq (a := total) (b := .ofNat site.phase) (by omega)
  refine ⟨sum &&& 3, by rw [addPhaseByte?, added]; rfl, ?_⟩
  rw [toNat_and_three, exact, phase, addPhase]

theorem runningByte?_eq (target source : Bool) (sites : List Site) :
    ∃ total, runningByte? target source sites = some total ∧
      total.toNat = runningPhase target source sites := by
  -- from the last site back, since the bound is on the total of the sites before it
  induction sites using List.reverseRecOn with
  | nil => cases target <;> cases source <;> exact ⟨_, rfl, rfl⟩
  | append_singleton sites site ih =>
    obtain ⟨total, before, exact⟩ := ih
    have small : total.toNat ≤ 4 := exact ▸ runningPhase_le target source sites
    obtain ⟨next, added, exact'⟩ := addPhaseByte?_eq small site
    refine ⟨next, ?_, ?_⟩
    · rw [runningByte?, List.foldl_append, ← runningByte?, before]
      exact added
    · rw [exact', exact, runningPhase, runningPhase, List.foldl_append, List.foldl_cons, List.foldl_nil]

/-- No addition overflows, and the byte ends as the phase. -/
theorem phaseByte?_eq (target source : Bool) (sites : List Site) :
    ∃ residue, phaseByte? target source sites = some residue ∧
      residue.toNat = productPhase target source sites := by
  obtain ⟨total, running, exact⟩ := runningByte?_eq target source sites
  refine ⟨total &&& 3, by rw [phaseByte?, running]; rfl, ?_⟩
  rw [toNat_and_three, exact, productPhase]

/-- **The sign of a product.**  For any sign bits and any sites the byte in which the phase is accumulated
never overflows.  It ends as the residue modulo 4 of the sum over the integers, which is odd just when the
rows anticommute at an odd number of sites.  The sign bit is set just when the residue is not 0, and it is the
same when source and target, signs and letters, change places. -/
theorem productSign_exact (target source : Bool) (sites : List Site) :
    (∃ residue, phaseByte? target source sites = some residue ∧
        residue.toNat = productPhase target source sites) ∧
      (productPhase target source sites : Int) = phaseSum target source sites % 4 ∧
      (Odd (productPhase target source sites) ↔ Odd (sites.countP Site.anticommutes)) ∧
      (productSign target source sites = true ↔ productPhase target source sites ≠ 0) ∧
      productSign source target (sites.map Site.swap) = productSign target source sites :=
  ⟨phaseByte?_eq target source sites, productPhase_eq target source sites,
    odd_productPhase_iff target source sites, productSign_eq_true_iff target source sites,
    productSign_swap target source sites⟩

end Stabilizer
