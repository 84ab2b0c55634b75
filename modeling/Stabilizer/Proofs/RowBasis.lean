import Mathlib.Data.Finset.Dedup
import Stabilizer.Proofs.Determined
/-!
# The rows as a basis

Up to phases, every operator is the product of exactly one set of rows of a sound tableau.  Which rows
are in the set is read off the partners: a product of different rows anticommutes with the partner of
row `i` exactly when row `i` is a factor, and an operator is known, up to its phase, by the rows with
which it commutes.

Two special cases carry the measurements.  No product of different stabilizers is the identity with a
sign, and what commutes with all stabilizers is a product of stabilizers, again up to the sign.
-/

namespace Stabilizer

open PauliOperator

variable {n : Nat}

/-! ## Phases -/

/-- Operators with the same letters and real phases differ at most in the sign. -/
theorem PauliOperator.eq_or_eq_neg {g h : PauliOperator n} (same : g.letters = h.letters)
    (hg : phaseParity g.phase = 0) (hh : phaseParity h.phase = 0) : g = h ∨ g = -h := by
  have phases : ∀ d e : ZMod 4, phaseParity d = 0 → phaseParity e = 0 → d = e ∨ d = e + 2 := by
    decide
  rcases phases g.phase h.phase hg hh with plus | minus
  · exact .inl (PauliOperator.ext plus same)
  · exact .inr (PauliOperator.ext minus same)

namespace Tableau

/-! ## Products of rows -/

/-- The exact product of some rows, in the order of the list. -/
def product (t : Tableau n) (l : List (Fin (2 * n))) : PauliOperator n :=
  (l.map fun i => (t.row i).exact).prod

@[simp] theorem product_nil (t : Tableau n) : t.product [] = 1 := rfl

theorem product_cons (t : Tableau n) (i : Fin (2 * n)) (l : List (Fin (2 * n))) :
    t.product (i :: l) = (t.row i).exact * t.product l := List.prod_cons

theorem product_stabilizers_mem_group (t : Tableau n) (l : List (Fin n)) :
    t.product (l.map stabIndex) ∈ t.group := by
  refine Subgroup.list_prod_mem _ fun g hg => ?_
  rw [List.map_map, List.mem_map] at hg
  obtain ⟨i, -, rfl⟩ := hg
  exact t.stabilizer_mem_group i

namespace Symplectic

variable {t : Tableau n} {l : List (Fin (2 * n))}

theorem row_form (ht : t.Symplectic) (i j : Fin (2 * n)) :
    (t.row i).exact.form (t.row j).exact = if j = partner i then 1 else 0 := by
  rw [← isSymplectic_iff, isSymplectic_iff_form] at ht
  exact ht i j

/-- A product of different rows anticommutes with the partners of its factors. -/
theorem product_form_partner (ht : t.Symplectic) (distinct : l.Nodup) (i : Fin (2 * n)) :
    (t.product l).form (t.row (partner i)).exact = if i ∈ l then 1 else 0 := by
  induction l with
  | nil =>
    rw [product_nil, one_form, if_neg List.not_mem_nil]
  | cons j l ih =>
    obtain ⟨absent, distinct⟩ := List.nodup_cons.1 distinct
    rw [product_cons, mul_form, ht.row_form, ih distinct]
    simp only [partner_inj]
    by_cases hi : i = j
    · subst hi
      rw [if_pos rfl, if_neg absent, if_pos List.mem_cons_self, add_zero]
    · have mem : i ∈ j :: l ↔ i ∈ l := by rw [List.mem_cons, or_iff_right hi]
      rw [if_neg hi, zero_add]
      exact if_congr mem.symm rfl rfl

theorem letters_ext_partner (ht : t.Symplectic) {g h : PauliOperator n}
    (same : ∀ i, g.form (t.row (partner i)).exact = h.form (t.row (partner i)).exact) :
    g.letters = h.letters := by
  refine ht.letters_ext (fun k => ?_) fun k => ?_
  · have here := same (stabIndex k)
    rwa [partner_stabIndex] at here
  · have here := same (destabIndex k)
    rwa [partner_destabIndex] at here

/-- **The factors of an operator**: a product of different rows has its letters exactly when the
factors are the rows with whose partners the operator anticommutes. -/
theorem letters_product_iff (ht : t.Symplectic) (distinct : l.Nodup) (g : PauliOperator n) :
    (t.product l).letters = g.letters ↔ ∀ i, i ∈ l ↔ g.form (t.row (partner i)).exact = 1 := by
  constructor
  · intro same i
    rw [← form_congr_left _ same, ht.product_form_partner distinct]
    by_cases hi : i ∈ l
    · rw [if_pos hi, iff_true_right rfl]
      exact hi
    · rw [if_neg hi, iff_false_right zero_ne_one]
      exact hi
  · intro factors
    refine ht.letters_ext_partner fun i => ?_
    rw [ht.product_form_partner distinct]
    by_cases hi : i ∈ l
    · rw [if_pos hi, (factors i).1 hi]
    · have commutes := mt (factors i).2 hi
      rw [if_neg hi, eq_comm]
      rwa [← zmod2_ne_zero, not_ne_iff] at commutes

/-- One set of rows, and no other, has products with the letters of an operator. -/
theorem existsUnique_factors (ht : t.Symplectic) (g : PauliOperator n) :
    ∃! s : Finset (Fin (2 * n)), ∀ l : List (Fin (2 * n)), l.Nodup → l.toFinset = s →
      (t.product l).letters = g.letters := by
  refine ⟨Finset.univ.filter fun i => g.form (t.row (partner i)).exact = 1, ?_, ?_⟩
  · intro l distinct lists
    rw [ht.letters_product_iff distinct]
    intro i
    rw [← List.mem_toFinset, lists, Finset.mem_filter_univ]
  · intro s all
    have factors := (ht.letters_product_iff s.nodup_toList g).1
      (all s.toList s.nodup_toList s.toList_toFinset)
    ext i
    rw [← Finset.mem_toList, factors, Finset.mem_filter_univ]

/-! ## Products of stabilizers -/

/-- No product of different stabilizers has the letters of the identity. -/
theorem letters_product_stabilizers_ne_one (ht : t.Symplectic) {l : List (Fin n)}
    (distinct : l.Nodup) (nonempty : l ≠ []) :
    (t.product (l.map stabIndex)).letters ≠ (1 : PauliOperator n).letters := by
  obtain ⟨i, hi⟩ := List.exists_mem_of_ne_nil l nonempty
  have distinct' : (l.map stabIndex).Nodup := distinct.map fun _ _ => stabIndex_inj.1
  intro same
  have factor := ((ht.letters_product_iff distinct' 1).1 same (stabIndex i)).1
    (List.mem_map_of_mem hi)
  rw [one_form] at factor
  exact zero_ne_one factor

/-- The operators of the group commute. -/
theorem form_of_mem_group (ht : t.Symplectic) {g h : PauliOperator n} (hg : g ∈ t.group)
    (hh : h ∈ t.group) : g.form h = 0 := by
  rw [group_eq_closure] at hg hh
  refine form_eq_zero_of_mem_closure ?_ hg
  rintro _ ⟨i, rfl⟩
  rw [form_comm]
  refine form_eq_zero_of_mem_closure ?_ hh
  rintro _ ⟨j, rfl⟩
  exact ht.stab_stab j i

/-- The operators of the group have real phases. -/
theorem phaseParity_of_mem_group (ht : t.Symplectic) {g : PauliOperator n} (hg : g ∈ t.group) :
    phaseParity g.phase = 0 := by
  have comm := ht.form_of_mem_group hg hg
  rw [group_eq_closure] at hg
  induction hg using Subgroup.closure_induction with
  | mem g hg =>
    obtain ⟨i, rfl⟩ := hg
    exact phaseParity_signPhase _
  | one => exact map_zero phaseParity
  | mul f g hf hg ihf ihg =>
    rw [← group_eq_closure] at hf hg
    rw [phase_mul, map_add, map_add, ihf (form_self f), ihg (form_self g),
      PauliOperator.phaseParity_exponent, ht.form_of_mem_group hf hg, add_zero, add_zero]
  | inv g _ ih => rw [phase_inv, map_neg, ih (form_self g), neg_zero]

/-- What commutes with the stabilizers is a product of them, up to the sign. -/
theorem exists_product_stabilizers (ht : t.Symplectic) {g : PauliOperator n}
    (real : phaseParity g.phase = 0) (comm : ∀ i, g.form (t.stabilizer i).exact = 0) :
    ∃ l : List (Fin n), l.Nodup ∧
      (g = t.product (l.map stabIndex) ∨ g = -t.product (l.map stabIndex)) := by
  let l := (List.finRange n).filter fun i => g.form (t.destabilizer i).exact = 1
  have distinct : l.Nodup := (List.nodup_finRange n).filter _
  have mem (i : Fin n) : i ∈ l ↔ g.form (t.destabilizer i).exact = 1 := by simp [l]
  refine ⟨l, distinct, eq_or_eq_neg (Eq.symm ?_) real
    (ht.phaseParity_of_mem_group (t.product_stabilizers_mem_group l))⟩
  rw [ht.letters_product_iff (distinct.map fun _ _ => stabIndex_inj.1)]
  intro i
  obtain ⟨k, rfl⟩ | ⟨k, rfl⟩ := index_cases i
  · rw [partner_destabIndex, row_stabIndex, comm, iff_false_right zero_ne_one]
    simp
  · rw [partner_stabIndex, row_destabIndex, ← mem, List.mem_map_of_injective]
    exact fun _ _ => stabIndex_inj.1

end Symplectic

/-- **The rows are a basis.**  The letters of every string on all qubits are those of the products of
one set of rows and of no other.  A stabilizer is in this set exactly when the string anticommutes with
its destabilizer, and a destabilizer exactly when the string anticommutes with its stabilizer.  In
particular no product of different stabilizers is the identity with a sign, and a string that commutes
with all stabilizers is a product of some of them, up to its sign. -/
theorem rows_form_basis {t : Tableau n} (ht : t.isSymplectic = true) {p : PauliString}
    (hp : p.length = n) :
    (∃! s : Finset (Fin (2 * n)), ∀ l : List (Fin (2 * n)), l.Nodup → l.toFinset = s →
      (t.product l).letters = (p.exact n).letters) ∧
    (∀ l : List (Fin (2 * n)), l.Nodup → (t.product l).letters = (p.exact n).letters →
      ∀ i : Fin n,
        (stabIndex i ∈ l ↔ p.commutesWith (t.destabilizer i).toPauli = false) ∧
        (destabIndex i ∈ l ↔ p.commutesWith (t.stabilizer i).toPauli = false)) ∧
    (∀ l : List (Fin n), l.Nodup → l ≠ [] →
      t.product (l.map stabIndex) ≠ 1 ∧ t.product (l.map stabIndex) ≠ -1) ∧
    ((∀ i, p.commutesWith (t.stabilizer i).toPauli = true) →
      ∃ l : List (Fin n), l.Nodup ∧
        (p.exact n = t.product (l.map stabIndex) ∨ p.exact n = -t.product (l.map stabIndex))) := by
  rw [isSymplectic_iff] at ht
  obtain ⟨a, rfl⟩ : ∃ a : Row n, a.toPauli = p := ⟨Row.ofPauli p hp, Row.toPauli_ofPauli p hp⟩
  rw [Row.exact_toPauli]
  refine ⟨ht.existsUnique_factors a.exact, ?_, ?_, ?_⟩
  · intro l distinct same i
    have factors := (ht.letters_product_iff distinct a.exact).1 same
    rw [Row.commutesWith_toPauli_eq_false, Row.commutesWith_toPauli_eq_false, factors, factors,
      partner_stabIndex, partner_destabIndex]
    exact ⟨Iff.rfl, Iff.rfl⟩
  · intro l distinct nonempty
    have apart := ht.letters_product_stabilizers_ne_one distinct nonempty
    constructor
    · intro plus
      rw [plus] at apart
      exact apart rfl
    · intro minus
      rw [minus, letters_neg] at apart
      exact apart rfl
  · intro comm
    refine ht.exists_product_stabilizers (phaseParity_signPhase _) fun i => ?_
    rw [← Row.commutesWith_toPauli]
    exact comm i

/-- The string `-YX` over the rows of an entangled pair. -/
theorem rows_form_basis_bell :
    let t := ((basis 2 1 (by decide)).apply (.h 0)).apply (.cnot 0 1)
    let p : PauliString := ⟨.minus, [.Y, .X]⟩
    t.isSymplectic = true ∧ p.length = 2 ∧
    (∃! s : Finset (Fin (2 * 2)), ∀ l : List (Fin (2 * 2)), l.Nodup → l.toFinset = s →
      (t.product l).letters = (p.exact 2).letters) ∧
    (∀ l : List (Fin (2 * 2)), l.Nodup → (t.product l).letters = (p.exact 2).letters →
      ∀ i : Fin 2,
        (stabIndex i ∈ l ↔ p.commutesWith (t.destabilizer i).toPauli = false) ∧
        (destabIndex i ∈ l ↔ p.commutesWith (t.stabilizer i).toPauli = false)) ∧
    (∀ l : List (Fin 2), l.Nodup → l ≠ [] →
      t.product (l.map stabIndex) ≠ 1 ∧ t.product (l.map stabIndex) ≠ -1) ∧
    ((∀ i, p.commutesWith (t.stabilizer i).toPauli = true) →
      ∃ l : List (Fin 2), l.Nodup ∧
        (p.exact 2 = t.product (l.map stabIndex) ∨ p.exact 2 = -t.product (l.map stabIndex))) := by
  intro t p
  have ht : t.isSymplectic = true := by decide
  exact ⟨ht, rfl, rows_form_basis ht rfl⟩

end Tableau

end Stabilizer
