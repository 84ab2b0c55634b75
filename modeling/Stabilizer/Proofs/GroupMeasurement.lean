import Stabilizer.Proofs.Collapse
import Stabilizer.Proofs.Determined
import Stabilizer.Proofs.MeasureEach
/-!
# Measurements of groups

What a measurement reports and the group that it leaves depend on the group before it and on the coin,
and on nothing else of the tableau.  Write `Z` for the `Z` on the qubit with the sign of the bit that
is reported.  The group did not hold `-Z`.  If it held `Z`, the outcome is determined, and else the bit
is the coin.  Afterwards the group is made of what commuted with `Z`, and of the products of this with
`Z`.

`exists_measure` says so of every measurement of a sound tableau, with a pivot or without.
-/

namespace Stabilizer

open PauliOperator

variable {n : Nat}

namespace PauliOperator

/-! ## Projections -/

/-- What a measurement of a qubit that gave a bit makes of a group: the elements that commute with
`Z` on the qubit are kept, and the `Z` with the sign of the bit is added. -/
def projected (G : Subgroup (PauliOperator n)) (q : Fin n) (bit : Bool) :
    Subgroup (PauliOperator n) :=
  Subgroup.closure (insert (signedZ bit q) (G ⊓ Subgroup.centralizer {signedZ bit q} : Subgroup _))

variable {G : Subgroup (PauliOperator n)} {q r : Fin n} {a b bit : Bool}

theorem mem_projected {g : PauliOperator n} :
    g ∈ projected G q bit ↔ (g.letters q).xBit = false ∧ (g ∈ G ∨ signedZ bit q * g ∈ G) := by
  have kept {h : PauliOperator n} : h ∈ G ⊓ Subgroup.centralizer {signedZ bit q} ↔
      h ∈ G ∧ (h.letters q).xBit = false := by
    rw [Subgroup.mem_inf, Subgroup.mem_centralizer_singleton_iff, ← commute_signedZ_iff bit]
    rfl
  have comm (h : PauliOperator n)
      (hh : h ∈ ((G ⊓ Subgroup.centralizer {signedZ bit q} : Subgroup _) : Set (PauliOperator n))) :
      h.form (signedZ bit q) = 0 := by
    rw [← commute_iff_form_eq_zero, commute_signedZ_iff]
    exact (kept.1 hh).2
  rw [projected, mem_closure_insert (signedZ_mul_self bit q) comm, Subgroup.closure_eq, kept, kept]
  simp only [letters_mul, Pauli.xBit_times, xBit_signedZ, Bool.false_xor]
  rw [← or_and_right, and_comm]

theorem signedZ_mem_projected : signedZ bit q ∈ projected G q bit := by
  rw [mem_projected, signedZ_mul_self]
  exact ⟨xBit_signedZ bit q q, .inr (one_mem G)⟩

/-- What commutes with the `Z` stays. -/
theorem mem_projected_of_mem {g : PauliOperator n} (hg : g ∈ G)
    (comm : (g.letters q).xBit = false) : g ∈ projected G q bit :=
  mem_projected.2 ⟨comm, .inl hg⟩

/-- A `Z` that is in the group already, and commutes with all of it, changes nothing. -/
theorem projected_eq_self (hZ : signedZ bit q ∈ G) (comm : ∀ g ∈ G, (g.letters q).xBit = false) :
    projected G q bit = G := by
  ext g
  rw [mem_projected]
  constructor
  · rintro ⟨-, hg | hg⟩
    · exact hg
    · exact (mul_mem_cancel_left hZ).1 hg
  · intro hg
    exact ⟨comm g hg, .inl hg⟩

/-- The elements that two projections leave, with no regard to their order. -/
theorem mem_projected_projected {g : PauliOperator n} :
    g ∈ projected (projected G q a) r b ↔
      ((g.letters q).xBit = false ∧ (g.letters r).xBit = false) ∧
        (g ∈ G ∨ signedZ a q * g ∈ G ∨ signedZ b r * g ∈ G ∨
          signedZ a q * signedZ b r * g ∈ G) := by
  rw [mem_projected, mem_projected, mem_projected]
  simp only [letters_mul, Pauli.xBit_times, xBit_signedZ, Bool.false_xor, mul_assoc]
  tauto

theorem projected_comm (G : Subgroup (PauliOperator n)) (q r : Fin n) (a b : Bool) :
    projected (projected G q a) r b = projected (projected G r b) q a := by
  ext g
  rw [mem_projected_projected, mem_projected_projected, (commute_signedZ_signedZ a b q r).eq]
  tauto

/-- Two bits that were both possible one after the other are possible in the other order: the first is
not excluded by the second. -/
theorem signedZ_notMem_projected (first : signedZ (!a) q ∉ G)
    (second : signedZ (!b) r ∉ projected G q a) : signedZ (!a) q ∉ projected G r b := by
  rw [mem_projected] at second ⊢
  rintro ⟨-, certain | certain⟩
  · exact first certain
  · rw [signedZ_mul_signedZ_not] at certain
    exact second ⟨xBit_signedZ _ _ _, .inr certain⟩

end PauliOperator

/-! ## Reports -/

/-- What a measurement reports, from the group of the tableau and the coin. -/
structure Reports (G : Subgroup (PauliOperator n)) (q : Fin n) (coin : Bool) (outcome : Outcome) :
    Prop where
  /-- The other bit is not certain. -/
  possible : signedZ (!outcome.bit) q ∉ G
  determined : outcome.isDeterministic = true ↔ signedZ outcome.bit q ∈ G
  drawn : outcome.isDeterministic = false → outcome.bit = coin

theorem Outcome.ext_bit {a b : Outcome} (kind : a.isDeterministic = b.isDeterministic)
    (bit : a.bit = b.bit) : a = b := by
  cases a <;> cases b <;> simp_all [Outcome.isDeterministic, Outcome.bit]

namespace Reports

variable {G : Subgroup (PauliOperator n)} {q : Fin n} {coin bit : Bool} {outcome other : Outcome}

theorem bit_eq_of_mem (h : Reports G q coin outcome) (certain : signedZ bit q ∈ G) :
    outcome.bit = bit := by
  by_contra apart
  exact h.possible (Bool.eq_not_of_ne (Ne.symm apart) ▸ certain)

theorem bit_eq_of_coin (h : Reports G q coin outcome) (possible : signedZ (!bit) q ∉ G)
    (shown : signedZ bit q ∉ G → coin = bit) : outcome.bit = bit := by
  by_cases certain : signedZ bit q ∈ G
  · exact h.bit_eq_of_mem certain
  · cases kind : outcome.isDeterministic
    · rw [h.drawn kind, shown certain]
    · by_contra apart
      have mem := h.determined.1 kind
      rw [Bool.eq_not_of_ne apart] at mem
      exact possible mem

/-- The group and the coin decide what is reported. -/
theorem unique (h : Reports G q coin outcome) (h' : Reports G q coin other) : outcome = other := by
  have bits : outcome.bit = other.bit := by
    refine h.bit_eq_of_coin h'.possible fun uncertain => ?_
    refine (h'.drawn ?_).symm
    rwa [← Bool.not_eq_true, h'.determined]
  refine Outcome.ext_bit ?_ bits
  rw [Bool.eq_iff_iff, h.determined, h'.determined, bits]

end Reports

/-! ## Measurements of tableaus -/

namespace Tableau

/-- Without a pivot, all of the group commutes with `Z` on the qubit. -/
theorem xBit_of_mem_group {t : Tableau n} {q : Fin n} (hq : t.pivot? q = none)
    {g : PauliOperator n} (hg : g ∈ t.group) : (g.letters q).xBit = false := by
  rw [← commute_signedZ_iff false, commute_iff_form_eq_zero]
  rw [group_eq_closure] at hg
  refine form_eq_zero_of_mem_closure ?_ hg
  rintro _ ⟨i, rfl⟩
  rw [form_signedZ, Row.letters_exact, Row.xBit_letter, pivot?_eq_none.1 hq i, mod2_false]

/-- Replacing the pivot projects the group. -/
theorem group_collapse {t : Tableau n} (ht : t.Symplectic) {q p : Fin n}
    (hp : (t.stabilizer p).x.get q = true) (bit : Bool) :
    (t.collapse q p bit).group = projected t.group q bit := by
  ext g
  rw [mem_group_collapse ht hp, mem_projected]
  simp only [form_signedZ, mod2_eq_zero]
  constructor
  · rintro ⟨h, hh, comm, rfl | rfl⟩
    · exact ⟨comm, .inl hh⟩
    · refine ⟨by simpa using comm, .inr ?_⟩
      rwa [signedZ_mul_cancel]
  · rintro ⟨comm, hg | hg⟩
    · exact ⟨g, hg, comm, .inl rfl⟩
    · exact ⟨_, hg, by simpa using comm, .inr (signedZ_mul_cancel bit q g).symm⟩

/-- **A measurement acts on the group**: it always succeeds, what it reports and the group that it
leaves are decided by the group and the coin, and a coin is spent only if the outcome was not
determined. -/
theorem exists_measure {t : Tableau n} (ht : t.Symplectic) (q : Fin n) (coins : Coins) :
    ∃ outcome after, t.measure q coins = .ok (outcome, after, coins.after outcome) ∧
      after.Symplectic ∧ Reports t.group q coins.next outcome ∧
      after.group = projected t.group q outcome.bit := by
  rcases hp : t.pivot? q with _ | p
  · have certain := signedZ_mem_group ht hp
    have opposite : signedZ (!(t.determined q).minus) q ∉ t.group := fun other =>
      Bool.not_ne_self _ ((signedZ_mem_group_iff ht).1 other).2
    refine ⟨_, _, measure_of_none hp coins, ?_, ⟨opposite, iff_of_true rfl certain, nofun⟩, ?_⟩
    · exact ⟨ht.destab_destab, ht.destab_stab, ht.stab_stab⟩
    · exact (projected_eq_self certain fun g hg => xBit_of_mem_group hp hg).symm
  · have uncertain (bit : Bool) : signedZ bit q ∉ t.group := by
      intro certain
      rw [pivot?_of_signedZ_mem ht certain] at hp
      cases hp
    exact ⟨_, _, measure_of_some hp coins, symplectic_collapse ht (x_of_pivot? hp) _,
      ⟨uncertain _, iff_of_false nofun (uncertain _), fun _ => rfl⟩,
      group_collapse ht (x_of_pivot? hp) _⟩

/-- A bit whose opposite is not certain is reported, if the coin shows it or is not needed. -/
theorem exists_measure_bit {t : Tableau n} (ht : t.Symplectic) {q : Fin n} {bit : Bool}
    (possible : signedZ (!bit) q ∉ t.group) (coins : Coins)
    (shown : signedZ bit q ∉ t.group → coins.next = bit) :
    ∃ outcome after, t.measure q coins = .ok (outcome, after, coins.after outcome) ∧
      after.Symplectic ∧ outcome.bit = bit ∧
      (outcome.isDeterministic = true ↔ signedZ bit q ∈ t.group) ∧
      after.group = projected t.group q bit := by
  obtain ⟨outcome, after, measured, sound, reports, group⟩ := exists_measure ht q coins
  obtain rfl := reports.bit_eq_of_coin possible shown
  exact ⟨outcome, after, measured, sound, rfl, reports.determined, group⟩

end Tableau

end Stabilizer
