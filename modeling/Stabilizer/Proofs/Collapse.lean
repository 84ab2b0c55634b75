import Stabilizer.Proofs.Measurement
import Stabilizer.Proofs.Symplectic
import Stabilizer.Tableau.Gate
/-!
# A random outcome as a projection

When a stabilizer anticommutes with `Z` on the measured qubit, the measurement keeps of the group of
the tableau what commutes with this `Z`, and adds the `Z` with the sign that was drawn.

The argument is about generators.  The group is generated by the pivot and the cleared rows, and the
new group by the signed `Z` and the same cleared rows.  An element is a product of cleared rows, with
the pivot as a factor once or not at all; it commutes with `Z` exactly when the pivot is not.
-/

namespace Stabilizer

open PauliOperator

variable {n : Nat}

/-! ## Cleared rows -/

namespace Row

theorem cleared_form (a pivot : Row n) (q : Fin n) (g : PauliOperator n) :
    (a.cleared q pivot).exact.form g =
      a.exact.form g + mod2 (a.x.get q) * pivot.exact.form g := by
  unfold cleared
  split <;> rename_i h
  · rw [mul_exact_form, h, mod2_true, one_mul]
  · rw [Bool.eq_false_of_not_eq_true h, mod2_false, zero_mul, add_zero]

theorem form_cleared (g : PauliOperator n) (a pivot : Row n) (q : Fin n) :
    g.form (a.cleared q pivot).exact =
      g.form a.exact + mod2 (a.x.get q) * g.form pivot.exact := by
  rw [form_comm, cleared_form, form_comm g, form_comm g]

/-- A row that commutes with the pivot and its cleared row differ by the pivot, or not at all. -/
theorem exact_cleared {a pivot : Row n} (comm : a.exact.form pivot.exact = 0) (q : Fin n) :
    (a.cleared q pivot).exact = a.exact ∨ (a.cleared q pivot).exact = pivot.exact * a.exact := by
  unfold cleared
  split
  · exact .inr (exact_mul comm)
  · exact .inl rfl

end Row

namespace Tableau

/-! ## The symplectic condition -/

/-- Replacing the pivot keeps the rows symplectic. -/
theorem symplectic_collapse {t : Tableau n} (ht : t.Symplectic) {q p : Fin n}
    (hp : (t.stabilizer p).x.get q = true) (bit : Bool) : (t.collapse q p bit).Symplectic := by
  have cleared_Z (a : Row n) : (a.cleared q (t.stabilizer p)).exact.form (signedZ bit q) = 0 := by
    rw [form_signedZ, Row.letters_exact, Row.xBit_letter]
    exact mod2_eq_zero.2 (Row.x_cleared hp)
  refine ⟨fun i j => ?_, fun i j => ?_, fun i j => ?_⟩
  · rw [destabilizer_collapse, destabilizer_collapse]
    by_cases hi : i = p <;> by_cases hj : j = p
    · rw [if_pos hi, if_pos hj, form_self]
    · rw [if_pos hi, if_neg hj, Row.form_cleared, ht.stab_destab, if_neg (Ne.symm hj), form_self,
        mul_zero, add_zero]
    · rw [if_neg hi, if_pos hj, Row.cleared_form, ht.destab_stab, if_neg hi, form_self, mul_zero,
        add_zero]
    · simp [hi, hj, Ne.symm hj, Row.cleared_form, Row.form_cleared, ht.destab_destab,
        ht.destab_stab, ht.stab_destab]
  · rw [destabilizer_collapse, stabilizer_collapse]
    by_cases hi : i = p <;> by_cases hj : j = p
    · rw [if_pos hi, if_pos hj, if_pos (hi.trans hj.symm), Row.exact_singleZ, form_signedZ,
        Row.letters_exact, Row.xBit_letter]
      exact mod2_eq_one.2 hp
    · rw [if_pos hi, if_neg hj, Row.form_cleared, ht.stab_stab, ht.stab_stab, mul_zero, add_zero,
        if_neg fun h => hj (h.symm.trans hi)]
    · rw [if_neg hi, if_pos hj, Row.exact_singleZ, cleared_Z, if_neg fun h => hi (h.trans hj)]
    · simp [hi, hj, Row.cleared_form, Row.form_cleared, ht.destab_stab, ht.stab_stab]
  · rw [stabilizer_collapse, stabilizer_collapse]
    by_cases hi : i = p <;> by_cases hj : j = p
    · rw [if_pos hi, if_pos hj, form_self]
    · rw [if_pos hi, if_neg hj, Row.exact_singleZ, form_comm, cleared_Z]
    · rw [if_neg hi, if_pos hj, Row.exact_singleZ, cleared_Z]
    · simp [hi, hj, Row.cleared_form, Row.form_cleared, ht.stab_stab]

/-! ## The group -/

/-- The stabilizers other than the pivot, cleared. -/
def clearedStabilizers (t : Tableau n) (q p : Fin n) : Set (PauliOperator n) :=
  {g | ∃ i, i ≠ p ∧ g = ((t.stabilizer i).cleared q (t.stabilizer p)).exact}

theorem form_clearedStabilizers {t : Tableau n} {q p : Fin n} (hp : (t.stabilizer p).x.get q = true)
    (bit : Bool) {g : PauliOperator n} (hg : g ∈ t.clearedStabilizers q p) :
    g.form (signedZ bit q) = 0 := by
  obtain ⟨i, -, rfl⟩ := hg
  rw [form_signedZ, Row.letters_exact, Row.xBit_letter]
  exact mod2_eq_zero.2 (Row.x_cleared hp)

theorem form_clearedStabilizers_pivot {t : Tableau n} (ht : t.Symplectic) {q p : Fin n}
    {g : PauliOperator n} (hg : g ∈ t.clearedStabilizers q p) :
    g.form (t.stabilizer p).exact = 0 := by
  obtain ⟨i, -, rfl⟩ := hg
  rw [Row.cleared_form, ht.stab_stab, ht.stab_stab, mul_zero, add_zero]

/-- The pivot and the cleared rows generate the group. -/
theorem group_eq_closure_cleared {t : Tableau n} (ht : t.Symplectic) (q p : Fin n) :
    t.group = Subgroup.closure (insert (t.stabilizer p).exact (t.clearedStabilizers q p)) := by
  have pivot := t.stabilizer_mem_group p
  apply le_antisymm
  · refine group_le_iff.2 fun i => ?_
    have ha : (t.stabilizer p).exact ∈
        Subgroup.closure (insert (t.stabilizer p).exact (t.clearedStabilizers q p)) :=
      Subgroup.subset_closure (Set.mem_insert _ _)
    by_cases hi : i = p
    · exact hi ▸ ha
    · have hc : ((t.stabilizer i).cleared q (t.stabilizer p)).exact ∈
          Subgroup.closure (insert (t.stabilizer p).exact (t.clearedStabilizers q p)) :=
        Subgroup.subset_closure (Set.mem_insert_of_mem _ ⟨i, hi, rfl⟩)
      rcases Row.exact_cleared (ht.stab_stab i p) q with same | product
      · exact same ▸ hc
      · have undone : (t.stabilizer i).exact =
            (t.stabilizer p).exact * ((t.stabilizer i).cleared q (t.stabilizer p)).exact := by
          rw [product, ← mul_assoc, Row.exact_mul_self, one_mul]
        exact undone ▸ mul_mem ha hc
  · rw [Subgroup.closure_le, Set.insert_subset_iff]
    refine ⟨pivot, ?_⟩
    rintro _ ⟨i, -, rfl⟩
    rcases Row.exact_cleared (ht.stab_stab i p) q with same | product
    · exact same ▸ t.stabilizer_mem_group i
    · exact product ▸ mul_mem pivot (t.stabilizer_mem_group i)

/-- The cleared rows generate what commutes with `Z` on the qubit. -/
theorem mem_closure_clearedStabilizers {t : Tableau n} (ht : t.Symplectic) {q p : Fin n}
    (hp : (t.stabilizer p).x.get q = true) (bit : Bool) {g : PauliOperator n} :
    g ∈ Subgroup.closure (t.clearedStabilizers q p) ↔ g ∈ t.group ∧ g.form (signedZ bit q) = 0 := by
  have split := mem_closure_insert (Row.exact_mul_self (t.stabilizer p))
    (fun f hf => form_clearedStabilizers_pivot (q := q) ht hf) (g := g)
  rw [← group_eq_closure_cleared ht] at split
  have commutes {f : PauliOperator n} (hf : f ∈ Subgroup.closure (t.clearedStabilizers q p)) :
      f.form (signedZ bit q) = 0 :=
    form_eq_zero_of_mem_closure (fun _ => form_clearedStabilizers hp bit) hf
  constructor
  · intro hg
    exact ⟨split.2 (.inl hg), commutes hg⟩
  · rintro ⟨hg, comm⟩
    rcases split.1 hg with hg | hg
    · exact hg
    · -- With the pivot as a factor, the element would anticommute.
      have anti := commutes hg
      rw [mul_form, comm, add_zero, form_signedZ, Row.letters_exact, Row.xBit_letter, hp] at anti
      exact absurd anti (by decide)

/-- The signed `Z` and the cleared rows generate the new group. -/
theorem group_collapse_eq_closure (t : Tableau n) (q p : Fin n) (bit : Bool) :
    (t.collapse q p bit).group =
      Subgroup.closure (insert (signedZ bit q) (t.clearedStabilizers q p)) := by
  have generators : (Set.range fun i => ((t.collapse q p bit).stabilizer i).exact) =
      insert (signedZ bit q) (t.clearedStabilizers q p) := by
    ext g
    simp only [Set.mem_range, Set.mem_insert_iff, stabilizer_collapse]
    constructor
    · rintro ⟨i, rfl⟩
      by_cases hi : i = p
      · exact .inl (by rw [if_pos hi, Row.exact_singleZ])
      · exact .inr ⟨i, hi, by rw [if_neg hi]⟩
    · rintro (rfl | ⟨i, hi, rfl⟩)
      · exact ⟨p, by rw [if_pos rfl, Row.exact_singleZ]⟩
      · exact ⟨i, by rw [if_neg hi]⟩
  rw [group_eq_closure, generators]

/-- **The new group**: what commutes with `Z` on the qubit, and its products with the signed `Z`. -/
theorem mem_group_collapse {t : Tableau n} (ht : t.Symplectic) {q p : Fin n}
    (hp : (t.stabilizer p).x.get q = true) (bit : Bool) (h : PauliOperator n) :
    h ∈ (t.collapse q p bit).group ↔
      ∃ g ∈ t.group, g.form (signedZ false q) = 0 ∧ (h = g ∨ h = signedZ bit q * g) := by
  rw [group_collapse_eq_closure,
    mem_closure_insert (signedZ_mul_self bit q) fun f hf => form_clearedStabilizers hp bit hf,
    mem_closure_clearedStabilizers ht hp false, mem_closure_clearedStabilizers ht hp false]
  constructor
  · rintro (⟨hg, comm⟩ | ⟨hg, comm⟩)
    · exact ⟨h, hg, comm, .inl rfl⟩
    · exact ⟨_, hg, comm, .inr (signedZ_mul_cancel bit q h).symm⟩
  · rintro ⟨g, hg, comm, rfl | rfl⟩
    · exact .inl ⟨hg, comm⟩
    · rw [signedZ_mul_cancel]
      exact .inr ⟨hg, comm⟩

/-- **A random outcome is a projection.**  After a measurement with a random outcome the group of
the tableau is made of the old elements that commute with `Z` on the qubit and of their products with
this `Z`, signed by the coin; and the tableau still satisfies the symplectic condition. -/
theorem group_measure_random {t : Tableau n} (ht : t.isSymplectic = true) {q : Fin n}
    (hq : t.isDeterministic q = .ok false) (coins : Coins) :
    ∃ after, t.measure q coins = .ok (.random coins.next, after, coins.advance) ∧
      (after.group : Set (PauliOperator n)) =
        {h | ∃ g ∈ t.group, Commute g (signedZ false q) ∧
          (h = g ∨ h = signedZ coins.next q * g)} ∧
      after.isSymplectic = true := by
  rw [isSymplectic_iff] at ht
  rw [isDeterministic_eq] at hq
  obtain ⟨p, hp⟩ : ∃ p, t.pivot? q = some p := by
    cases h : t.pivot? q with
    | none => simp [h] at hq
    | some p => exact ⟨p, rfl⟩
  refine ⟨_, measure_of_some hp coins, ?_, ?_⟩
  · ext h
    simp only [SetLike.mem_coe, Set.mem_ofPred_eq, commute_iff_form_eq_zero]
    exact mem_group_collapse ht (x_of_pivot? hp) coins.next h
  · rw [isSymplectic_iff]
    exact symplectic_collapse ht (x_of_pivot? hp) coins.next

/-- Half of an entangled pair. -/
theorem group_measure_random_bell :
    let t := ((basis 2 1 (by decide)).apply (.h 0)).apply (.cnot 0 1)
    t.isSymplectic = true ∧ t.isDeterministic (0 : Fin 2) = .ok false ∧
    ∃ after, t.measure (0 : Fin 2) (Coins.fresh fun _ => 0) =
        .ok (.random false, after, ⟨fun _ => 0, 1⟩) ∧
      (after.group : Set (PauliOperator 2)) =
        {h | ∃ g ∈ t.group, Commute g (signedZ false 0) ∧ (h = g ∨ h = signedZ false 0 * g)} ∧
      after.isSymplectic = true :=
  ⟨by decide, by decide, group_measure_random (by decide) (by decide) (Coins.fresh fun _ => 0)⟩

end Tableau

end Stabilizer
