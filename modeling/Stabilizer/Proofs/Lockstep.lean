import Stabilizer.Proofs.Collapse
import Stabilizer.Proofs.Determined
import Stabilizer.Proofs.GateMatrix
import Stabilizer.Proofs.SymplecticRun
/-!
# Tableaus and state vectors in lockstep

A simulation runs along with the state vector that it stands for: a gate acts on the vector by its
matrix, and a measurement that reports a bit leaves the part of the vector with this bit.  The tableau
describes the vector throughout, because its group fixes it.  That decides what a measurement does.  If
a signed `Z` is in the group, the vector has no other part; if a stabilizer anticommutes with `Z`, it
exchanges the two parts of the vector, so they have the same norm.
-/

namespace Stabilizer

open Matrix PauliOperator Ket

variable {n : Nat}

/-! ## Tableaus that describe states -/

/-- A tableau describes a state if its group fixes it. -/
structure Tableau.Describes (t : Tableau n) (ψ : Ket n) : Prop where
  symplectic : t.Symplectic
  nonzero : ψ ≠ 0
  fixed : t.group ≤ fixing ψ

/-- A basis state: bit `n - 1 - i` of its number is that of qubit `i`. -/
def Ket.basis (n state : Nat) : Ket n := Pi.single (fun i => state.testBit (n - 1 - i)) 1

namespace Tableau

theorem describes_basis (state : Nat) (h : Addressable n) :
    (basis n state h).Describes (Ket.basis n state) := by
  refine ⟨symplectic_basis state h, ?_, group_le_iff.2 fun i => ?_⟩
  · intro zero
    have entry := congrFun zero fun i => state.testBit (n - 1 - i)
    rw [Ket.basis, Pi.single_eq_same] at entry
    exact one_ne_zero entry
  · rw [stabilizer_basis, Row.exact_singleZ, signedZ_mem_fixing]
    intro w hw
    refine Pi.single_eq_of_ne ?_ _
    rintro rfl
    exact hw rfl

namespace Describes

variable {t : Tableau n} {ψ : Ket n}

theorem of_row_eq (ht : t.Describes ψ) {u : Tableau n} (same : ∀ i, u.row i = t.row i) :
    u.Describes ψ := by
  refine ⟨ht.symplectic.of_letters_eq fun i => by rw [same], ht.nonzero,
    group_le_iff.2 fun i => ?_⟩
  rw [stabilizer, same]
  exact ht.fixed (t.stabilizer_mem_group i)

/-- A gate acts on the tableau as its matrix acts on the state. -/
theorem apply (ht : t.Describes ψ) {u : Gate (Fin n)} (hu : u.Distinct) :
    (t.apply u).Describes (u.matrix *ᵥ ψ) := by
  refine ⟨ht.symplectic.apply hu, Gate.mulVec_ne_zero hu ht.nonzero, group_le_iff.2 fun i => ?_⟩
  have before : (t.stabilizer i).exact.matrix *ᵥ ψ = ψ := ht.fixed (t.stabilizer_mem_group i)
  rw [stabilizer, row_apply, Gate.exact_onRow hu, mem_fixing, mulVec_mulVec,
    ← Gate.matrix_mul_matrix hu, ← mulVec_mulVec]
  exact congrArg _ before

/-! ### Measurements -/

variable {q : Fin n}

/-- With a determined outcome the state has no other part. -/
theorem project_of_none (ht : t.Describes ψ) (hq : t.pivot? q = none) :
    project q (t.determined q).minus ψ = ψ :=
  project_eq_self (ht.fixed (signedZ_mem_group ht.symplectic hq))

/-- The pivot exchanges the two parts of the state. -/
theorem pivot_mulVec_project (ht : t.Describes ψ) {p : Fin n} (hp : t.pivot? q = some p)
    (bit : Bool) : (t.stabilizer p).exact.matrix *ᵥ project q bit ψ = project q (!bit) ψ := by
  have anti : (t.stabilizer p).exact.form (signedZ bit q) = 1 := by
    rw [form_signedZ, Row.letters_exact, Row.xBit_letter, x_of_pivot? hp, mod2_true]
  rw [mulVec_project_not anti, mem_fixing.1 (ht.fixed (t.stabilizer_mem_group p))]

/-- With a random outcome both parts have the same norm. -/
theorem normSq_project_of_some (ht : t.Describes ψ) {p : Fin n} (hp : t.pivot? q = some p)
    (bit : Bool) : normSq (project q (!bit) ψ) = normSq (project q bit ψ) := by
  rw [← ht.pivot_mulVec_project hp bit, normSq_mulVec]

/-- With a random outcome neither part is missing. -/
theorem project_ne_zero_of_some (ht : t.Describes ψ) {p : Fin n} (hp : t.pivot? q = some p)
    (bit : Bool) : project q bit ψ ≠ 0 := by
  intro zero
  have other : project q (!bit) ψ = 0 := by
    rw [← ht.pivot_mulVec_project hp bit, zero, mulVec_zero]
  have parts := project_add_project_not q bit ψ
  rw [zero, other, add_zero] at parts
  exact ht.nonzero parts.symm

/-- A measurement with a random outcome acts on the tableau as the projection acts on the state. -/
theorem collapse (ht : t.Describes ψ) {p : Fin n} (hp : t.pivot? q = some p) (bit : Bool) :
    (t.collapse q p bit).Describes (project q bit ψ) := by
  refine ⟨symplectic_collapse ht.symplectic (x_of_pivot? hp) bit,
    ht.project_ne_zero_of_some hp bit, fun h hh => ?_⟩
  have sign : signedZ bit q ∈ fixing (project q bit ψ) :=
    signedZ_mem_fixing.2 fun w hw => if_neg hw
  obtain ⟨g, hg, comm, product⟩ := (mem_group_collapse ht.symplectic (x_of_pivot? hp) bit h).1 hh
  have old : g ∈ fixing (project q bit ψ) := by
    have comm' : g.form (signedZ bit q) = 0 := by rwa [form_signedZ] at comm ⊢
    rw [mem_fixing, mulVec_project comm', mem_fixing.1 (ht.fixed hg)]
  rcases product with rfl | rfl
  · exact old
  · exact mul_mem sign old

/-- An outcome is determined if the whole state has the bit that is built. -/
theorem determined_iff (ht : t.Describes ψ) (bit : Bool) :
    t.pivot? q = none ∧ bit = (t.determined q).minus ↔ ∀ w, w q ≠ bit → ψ w = 0 := by
  rw [← signedZ_mem_fixing]
  constructor
  · intro h
    exact ht.fixed ((signedZ_mem_group_iff ht.symplectic).2 h)
  · intro h
    have missing : project q (!bit) ψ = 0 := project_not_eq_zero h
    rcases hq : t.pivot? q with _ | p
    · refine ⟨rfl, ?_⟩
      by_contra apart
      rw [← Bool.eq_not_of_ne (Ne.symm apart), ht.project_of_none hq] at missing
      exact ht.nonzero missing
    · exact absurd missing (ht.project_ne_zero_of_some hq _)

/-- An outcome is random if both parts of the state have the same norm. -/
theorem random_iff (ht : t.Describes ψ) :
    (∃ p, t.pivot? q = some p) ↔ normSq (project q false ψ) = normSq (project q true ψ) ∧
      normSq (project q false ψ) ≠ 0 := by
  constructor
  · rintro ⟨p, hp⟩
    refine ⟨ht.normSq_project_of_some hp true, ?_⟩
    rw [Ne, normSq_eq_zero]
    exact ht.project_ne_zero_of_some hp false
  · rintro ⟨same, nonzero⟩
    rcases hq : t.pivot? q with _ | p
    · have missing : normSq (project q (!(t.determined q).minus) ψ) = 0 := by
        rw [normSq_eq_zero]
        exact project_not_eq_zero (ht.fixed (signedZ_mem_group ht.symplectic hq))
      have both : normSq (project q false ψ) = 0 := by
        cases h : (t.determined q).minus
        · rw [same]
          rwa [h] at missing
        · rwa [h] at missing
      exact absurd both nonzero
    · exact ⟨p, rfl⟩

end Describes

end Tableau

/-! ## Steps -/

/-- The state after a step to which a simulation gave a reply. -/
def Ket.after (ψ : Ket n) : CircuitStep n → Except Refusal Reply → Ket n
  | .gate u _, _ => u.matrix *ᵥ ψ
  | .measure q, .ok (.outcome outcome _) =>
    if hq : q < n then project ⟨q, hq⟩ outcome.bit ψ else ψ
  | .measure _, _ => ψ

/-- A simulation and the state vector that runs along with it. -/
structure Lockstep (n : Nat) where
  simulation : Simulation n
  state : Ket n

namespace Lockstep

/-- Takes a step of a circuit. -/
def step (l : Lockstep n) (c : CircuitStep n) : Lockstep n :=
  ⟨(l.simulation.run c.update).2, l.state.after c (l.simulation.run c.update).1⟩

/-- Runs a circuit. -/
def run (l : Lockstep n) (circuit : List (CircuitStep n)) : Lockstep n := circuit.foldl step l

theorem describes_step {l : Lockstep n} (hl : l.simulation.tableau.Describes l.state)
    (c : CircuitStep n) : (l.step c).simulation.tableau.Describes (l.step c).state := by
  cases c with
  | gate u distinct =>
    rw [step, CircuitStep.update, Simulation.run_gate]
    exact hl.apply distinct
  | measure q =>
    rw [step, CircuitStep.update]
    by_cases hq : q < n
    · obtain ⟨k, rfl⟩ : ∃ k : Fin n, k.val = q := ⟨⟨q, hq⟩, rfl⟩
      rcases hp : l.simulation.tableau.pivot? k with _ | p
      · rw [Simulation.run_measure_of_none hp, after, dif_pos hq]
        show Tableau.Describes _ (project k _ l.state)
        rw [Outcome.bit, hl.project_of_none hp]
        exact hl.of_row_eq fun _ => rfl
      · rw [Simulation.run_measure_of_some hp, after, dif_pos hq]
        exact hl.collapse hp _
    · rw [Simulation.run_measure_of_le (Nat.le_of_not_lt hq)]
      exact hl

theorem describes_run {l : Lockstep n} (hl : l.simulation.tableau.Describes l.state)
    (circuit : List (CircuitStep n)) :
    (l.run circuit).simulation.tableau.Describes (l.run circuit).state := by
  induction circuit generalizing l with
  | nil => exact hl
  | cons c circuit ih => exact ih (describes_step hl c)

/-- The simulation tells the truth about the state: its stabilizers fix the state, a measurement that it
finds determined has a certain outcome, and one that it finds random is as likely to give either bit. -/
structure Faithful (l : Lockstep n) : Prop where
  nonzero : l.state ≠ 0
  fixed : ∀ p ∈ l.simulation.tableau.stabilizers, (p.exact n).matrix *ᵥ l.state = l.state
  determined (q : Fin n) (bit : Bool) :
    (∃ drawn, (l.simulation.run (.measure q)).1 = .ok (.outcome (.deterministic bit) drawn)) ↔
      ∀ w, w q ≠ bit → l.state w = 0
  random (q : Fin n) :
    (∃ bit drawn, (l.simulation.run (.measure q)).1 = .ok (.outcome (.random bit) drawn)) ↔
      normSq (project q false l.state) = normSq (project q true l.state) ∧
        normSq (project q false l.state) ≠ 0

theorem faithful_of_describes {l : Lockstep n} (hl : l.simulation.tableau.Describes l.state) :
    l.Faithful := by
  refine ⟨hl.nonzero, fun p hp => ?_, fun q bit => ?_, fun q => ?_⟩
  · exact hl.fixed (Subgroup.subset_closure ⟨p, hp, rfl⟩)
  · rw [← hl.determined_iff]
    rcases hp : l.simulation.tableau.pivot? q with _ | p
    · rw [Simulation.run_measure_of_none hp]
      simp [eq_comm]
    · rw [Simulation.run_measure_of_some hp]
      simp
  · rw [← hl.random_iff]
    rcases hp : l.simulation.tableau.pivot? q with _ | p
    · rw [Simulation.run_measure_of_none hp]
      simp
    · rw [Simulation.run_measure_of_some hp]
      simp

/-- **The tableau simulates the state**: after every circuit from a basis state, whatever coins were
drawn, the simulation tells the truth about the state vector that ran along with it. -/
theorem faithful_run {state : Nat} {t : Tableau n} (ht : Tableau.ofBasisState n state = .ok t)
    (tape : Tape) (circuit : List (CircuitStep n)) :
    ((Lockstep.mk ⟨t, Coins.fresh tape⟩ (Ket.basis n state)).run circuit).Faithful := by
  obtain ⟨addressable, rfl⟩ := Tableau.ofBasisState_eq_ok ht
  exact faithful_of_describes (describes_run (Tableau.describes_basis state addressable) circuit)

/-- An entangled pair, half of it measured. -/
theorem faithful_run_bell :
    let circuit : List (CircuitStep 2) :=
      [.gate (.h 0) (by decide), .gate (.s 0) (by decide), .gate (.cnot 0 1) (by decide), .measure 1]
    let t := Tableau.basis 2 1 (by decide)
    Tableau.ofBasisState 2 1 = .ok t ∧
      ((Lockstep.mk ⟨t, Coins.fresh fun _ => 0x80000000⟩ (Ket.basis 2 1)).run circuit).Faithful :=
  have ht : Tableau.ofBasisState 2 1 = .ok (Tableau.basis 2 1 (by decide)) := rfl
  ⟨ht, faithful_run ht _ _⟩

end Lockstep

end Stabilizer
