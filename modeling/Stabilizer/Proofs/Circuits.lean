import Mathlib.Data.Fin.VecNotation
import Mathlib.Logic.Embedding.Basic
import Mathlib.Logic.Equiv.Basic
import Stabilizer.Proofs.Rowsum
import Stabilizer.Proofs.Run
/-!
# Circuits of gates

A gate reads and writes a row on its own qubits only, so a circuit that is placed on some of the qubits
acts there as it acts alone, and nowhere else.  Hence two circuits on one or two qubits that agree on the
few rows there are agree wherever they are placed (`onRowAll_place`).

So every gate is undone by gates of its kind, and a circuit by the gates that undo its own in reverse
order; and some circuits on two qubits are another gate, or an exchange of the qubits (`applyAll_undo`).
-/

namespace Stabilizer

variable {m n : Nat}

/-! ## Some of the qubits -/

namespace Row

/-- The letters on some of the qubits, with the sign of the whole row. -/
def restrict (f : Fin m → Fin n) (a : Row n) : Row m :=
  ⟨a.minus, Vector.ofFn fun k => a.x.get (f k), Vector.ofFn fun k => a.z.get (f k)⟩

/-- The rows have the same letters on all other qubits. -/
def SameApart (f : Fin m → Fin n) (a b : Row n) : Prop :=
  ∀ k, (∀ j, f j ≠ k) → a.x.get k = b.x.get k ∧ a.z.get k = b.z.get k

theorem SameApart.refl (f : Fin m → Fin n) (a : Row n) : SameApart f a a := fun _ _ => ⟨rfl, rfl⟩

theorem SameApart.symm {f : Fin m → Fin n} {a b : Row n} (h : SameApart f a b) : SameApart f b a :=
  fun k away => ⟨(h k away).1.symm, (h k away).2.symm⟩

theorem SameApart.trans {f : Fin m → Fin n} {a b c : Row n} (h : SameApart f a b)
    (h' : SameApart f b c) : SameApart f a c :=
  fun k away => ⟨(h k away).1.trans (h' k away).1, (h k away).2.trans (h' k away).2⟩

/-- A row is what it is on some of the qubits and on the others. -/
theorem ext_restrict {f : Fin m → Fin n} {a b : Row n} (here : a.restrict f = b.restrict f)
    (apart : SameApart f a b) : a = b := by
  have bits (k : Fin n) : a.x.get k = b.x.get k ∧ a.z.get k = b.z.get k := by
    by_cases h : ∃ j, f j = k
    · obtain ⟨j, rfl⟩ := h
      have x := congrArg (fun r : Row m => r.x.get j) here
      have z := congrArg (fun r : Row m => r.z.get j) here
      exact ⟨by simpa [restrict] using x, by simpa [restrict] using z⟩
    · exact apart k (not_exists.1 h)
  ext k hk
  · show (a.restrict f).minus = (b.restrict f).minus
    rw [here]
  · exact (bits ⟨k, hk⟩).1
  · exact (bits ⟨k, hk⟩).2

theorem restrict_restrict {l : Nat} (f : Fin m → Fin n) (g : Fin l → Fin m) (a : Row n) :
    (a.restrict f).restrict g = a.restrict (f ∘ g) := by
  simp [restrict]

theorem ofFn_get_set (f : Fin m ↪ Fin n) (v : Vector Bool n) (k : Fin m) (b : Bool) :
    (Vector.ofFn fun j => (v.set (f k) b (f k).isLt).get (f j)) =
      (Vector.ofFn fun j => v.get (f j)).set k b k.isLt := by
  ext j hj
  by_cases h : k.val = j
  · subst h
    simp
  · have away : (f k).val ≠ f ⟨j, hj⟩ := fun same =>
      h (congrArg Fin.val (f.injective (Fin.ext same)))
    simp [h, away]

end Row

/-! ## Placed circuits -/

namespace Gate

/-- What some gates make of a row, one after the other. -/
def onRowAll (circuit : List (Gate (Fin n))) (a : Row n) : Row n :=
  circuit.foldl (fun a u => u.onRow a) a

theorem onRowAll_append (c d : List (Gate (Fin n))) (a : Row n) :
    onRowAll (c ++ d) a = onRowAll d (onRowAll c a) := List.foldl_append

/-- The circuit on some of the qubits. -/
def place (f : Fin m ↪ Fin n) (circuit : List (Gate (Fin m))) : List (Gate (Fin n)) :=
  circuit.map (Gate.map f)

/-- There a gate acts as it acts alone. -/
theorem restrict_onRow (f : Fin m ↪ Fin n) (u : Gate (Fin m)) (a : Row n) :
    ((u.map f).onRow a).restrict f = u.onRow (a.restrict f) := by
  cases u <;>
    simp only [Gate.map, onRow, Row.hadamard, Row.phase, Row.bitFlip, Row.cnot, Row.restrict,
      Row.ofFn_get_set] <;>
    simp

/-- Elsewhere it does nothing. -/
theorem sameApart_onRow (f : Fin m → Fin n) (u : Gate (Fin m)) (a : Row n) :
    ((u.map f).onRow a).SameApart f a := by
  intro k away
  have apart (j : Fin m) : (f j).val ≠ k := fun same => away j (Fin.ext same)
  cases u <;> simp [Gate.map, onRow, Row.hadamard, Row.phase, Row.bitFlip, Row.cnot, apart]

theorem restrict_onRowAll (f : Fin m ↪ Fin n) (c : List (Gate (Fin m))) (a : Row n) :
    (onRowAll (place f c) a).restrict f = onRowAll c (a.restrict f) := by
  induction c generalizing a with
  | nil => rfl
  | cons u c ih => exact (ih ((u.map f).onRow a)).trans (congrArg (onRowAll c) (restrict_onRow f u a))

theorem sameApart_onRowAll (f : Fin m ↪ Fin n) (c : List (Gate (Fin m))) (a : Row n) :
    (onRowAll (place f c) a).SameApart f a := by
  induction c generalizing a with
  | nil => exact .refl f a
  | cons u c ih => exact (ih ((u.map f).onRow a)).trans (sameApart_onRow f u a)

/-- Circuits that do the same alone do the same wherever they are placed. -/
theorem onRowAll_place {c d : List (Gate (Fin m))} (same : ∀ a, onRowAll c a = onRowAll d a)
    (f : Fin m ↪ Fin n) (a : Row n) : onRowAll (place f c) a = onRowAll (place f d) a := by
  have here : (onRowAll (place f c) a).restrict f = (onRowAll (place f d) a).restrict f := by
    rw [restrict_onRowAll, restrict_onRowAll, same]
  exact Row.ext_restrict here ((sameApart_onRowAll f c a).trans (sameApart_onRowAll f d a).symm)

end Gate

/-! ## One qubit and two -/

/-- One qubit among `n`. -/
def atQubit (k : Fin n) : Fin 1 ↪ Fin n := ⟨![k], Function.injective_of_subsingleton _⟩

/-- Two qubits among `n`. -/
def atQubits {a b : Fin n} (apart : a ≠ b) : Fin 2 ↪ Fin n :=
  ⟨![a, b], by
    intro i j same
    fin_cases i <;> fin_cases j <;> simp_all⟩

namespace Row

/-- What holds of all bits holds of every row on one qubit, so such a claim can be decided. -/
theorem forall_one {p : Row 1 → Prop} (h : ∀ minus x z, p ⟨minus, #v[x], #v[z]⟩) (a : Row 1) : p a := by
  have bits : a = ⟨a.minus, #v[a.x[0]], #v[a.z[0]]⟩ := by
    ext k hk
    · rfl
    all_goals
      obtain rfl : k = 0 := by omega
      rfl
  exact bits ▸ h _ _ _

theorem forall_two {p : Row 2 → Prop} (h : ∀ minus x x' z z', p ⟨minus, #v[x, x'], #v[z, z']⟩)
    (a : Row 2) : p a := by
  have bits : a = ⟨a.minus, #v[a.x[0], a.x[1]], #v[a.z[0], a.z[1]]⟩ := by
    ext k hk
    · rfl
    all_goals
      obtain rfl | rfl : k = 0 ∨ k = 1 := by omega
      · rfl
      · rfl
  exact bits ▸ h _ _ _ _ _

end Row

namespace Gate

/-! ## Known circuits -/

/-- Between Hadamard gates two phase gates are a bit flip. -/
theorem onRowAll_h_s_s_h (k : Fin n) (a : Row n) :
    onRowAll [.h k, .s k, .s k, .h k] a = onRowAll [.x k] a :=
  onRowAll_place (c := [.h 0, .s 0, .s 0, .h 0]) (d := [.x 0]) (Row.forall_one (by decide)) (atQubit k) a

/-- Between Hadamard gates a controlled NOT is one the other way round. -/
theorem onRowAll_h_cnot_h {j k : Fin n} (apart : j ≠ k) (a : Row n) :
    onRowAll [.h j, .h k, .cnot j k, .h j, .h k] a = onRowAll [.cnot k j] a :=
  onRowAll_place (c := [.h 0, .h 1, .cnot 0 1, .h 0, .h 1]) (d := [.cnot 1 0])
    (Row.forall_two (by decide)) (atQubits apart) a

/-- Three controlled NOTs exchange two qubits. -/
theorem onRowAll_cnot_cnot_cnot {j k : Fin n} (apart : j ≠ k) (a : Row n) :
    onRowAll [.cnot j k, .cnot k j, .cnot j k] a = a.restrict (Equiv.swap j k) := by
  let c : List (Gate (Fin 2)) := [.cnot 0 1, .cnot 1 0, .cnot 0 1]
  have alone : ∀ a : Row 2, onRowAll c a = a.restrict (Equiv.swap 0 1) := Row.forall_two (by decide)
  have exchange : atQubits apart ∘ Equiv.swap 0 1 = Equiv.swap j k ∘ atQubits apart :=
    funext fun i => ((atQubits apart).injective.swap_apply 0 1 i).symm
  have here : (onRowAll (place (atQubits apart) c) a).restrict (atQubits apart) =
      (a.restrict (Equiv.swap j k)).restrict (atQubits apart) := by
    rw [restrict_onRowAll, alone, Row.restrict_restrict, Row.restrict_restrict, exchange]
  refine Row.ext_restrict here ((sameApart_onRowAll _ c a).trans fun i away => ?_)
  have fixed : Equiv.swap j k i = i := Equiv.swap_apply_of_ne_of_ne (away 0).symm (away 1).symm
  simp [Row.restrict, fixed]

/-! ## Undoing gates -/

/-- The gates that undo a gate. -/
def inverse {ι : Type} : Gate ι → List (Gate ι)
  | .h k => [.h k]
  | .s k => [.s k, .s k, .s k]
  | .x k => [.x k]
  | .cnot control target => [.cnot control target]

/-- The circuit that undoes a circuit, last gate first. -/
def undo {ι : Type} (circuit : List (Gate ι)) : List (Gate ι) := circuit.reverse.flatMap inverse

theorem onRowAll_inverse {u : Gate (Fin n)} (hu : u.Distinct) (a : Row n) :
    onRowAll u.inverse (u.onRow a) = a := by
  -- a gate and what undoes it, alone on its qubits, are a circuit that does nothing
  cases u with
  | h k => exact onRowAll_place (c := [.h 0, .h 0]) (d := []) (Row.forall_one (by decide)) (atQubit k) a
  | s k =>
    exact onRowAll_place (c := [.s 0, .s 0, .s 0, .s 0]) (d := []) (Row.forall_one (by decide))
      (atQubit k) a
  | x k => exact onRowAll_place (c := [.x 0, .x 0]) (d := []) (Row.forall_one (by decide)) (atQubit k) a
  | cnot control target =>
    exact onRowAll_place (c := [.cnot 0 1, .cnot 0 1]) (d := []) (Row.forall_two (by decide))
      (atQubits hu) a

theorem onRowAll_undo {c : List (Gate (Fin n))} (hc : ∀ u ∈ c, u.Distinct) (a : Row n) :
    onRowAll (undo c) (onRowAll c a) = a := by
  induction c generalizing a with
  | nil => rfl
  | cons u c ih =>
    obtain ⟨hu, hc⟩ := List.forall_mem_cons.1 hc
    have last : undo (u :: c) = undo c ++ u.inverse := by simp [undo]
    calc onRowAll (undo (u :: c)) (onRowAll (u :: c) a)
        = onRowAll u.inverse (onRowAll (undo c) (onRowAll c (u.onRow a))) := by
          rw [last, onRowAll_append]
          rfl
      _ = onRowAll u.inverse (u.onRow a) := by rw [ih hc]
      _ = a := onRowAll_inverse hu a

end Gate

namespace Tableau

/-- Applies gates one after the other. -/
def applyAll (t : Tableau n) (circuit : List (Gate (Fin n))) : Tableau n := circuit.foldl apply t

theorem row_applyAll (t : Tableau n) (c : List (Gate (Fin n))) (i : Fin (2 * n)) :
    (t.applyAll c).row i = Gate.onRowAll c (t.row i) := by
  induction c generalizing t with
  | nil => rfl
  | cons u c ih => exact (ih (t.apply u)).trans (congrArg (Gate.onRowAll c) (t.row_apply u i))

theorem scratch_applyAll (t : Tableau n) (c : List (Gate (Fin n))) : (t.applyAll c).scratch = t.scratch := by
  induction c generalizing t with
  | nil => rfl
  | cons u c ih => exact ih (t.apply u)

theorem applyAll_congr (t : Tableau n) {c d : List (Gate (Fin n))}
    (same : ∀ a, Gate.onRowAll c a = Gate.onRowAll d a) : t.applyAll c = t.applyAll d := by
  refine ext_row (fun i => ?_) ?_
  · rw [row_applyAll, row_applyAll, same]
  · rw [scratch_applyAll, scratch_applyAll]

/-- **Circuits are reversible.**  Whatever the rows are, a circuit of gates on different qubits is undone
by the gates in reverse order, each of them again, and the phase gate three times.  Two phase gates between
Hadamard gates are a bit flip, a controlled NOT between Hadamard gates is turned around, and three
controlled NOTs exchange two columns of both matrices and change no sign. -/
theorem applyAll_undo (t : Tableau n) :
    (∀ c : List (Gate (Fin n)), (∀ u ∈ c, u.Distinct) → (t.applyAll c).applyAll (Gate.undo c) = t) ∧
    (∀ k, t.applyAll [.h k, .s k, .s k, .h k] = t.apply (.x k)) ∧
    ∀ j k, j ≠ k →
      t.applyAll [.h j, .h k, .cnot j k, .h j, .h k] = t.apply (.cnot k j) ∧
      ∃ u, t.applyAll [.cnot j k, .cnot k j, .cnot j k] = u ∧ u.signs = t.signs ∧
        ∀ i l, (u.row i).x.get l = (t.row i).x.get (Equiv.swap j k l) ∧
          (u.row i).z.get l = (t.row i).z.get (Equiv.swap j k l) := by
  refine ⟨fun c hc => ?_, fun k => t.applyAll_congr (Gate.onRowAll_h_s_s_h k),
    fun j k apart => ⟨t.applyAll_congr (Gate.onRowAll_h_cnot_h apart), _, rfl, ?_, fun i l => ?_⟩⟩
  · refine ext_row (fun i => ?_) ?_
    · rw [row_applyAll, row_applyAll, Gate.onRowAll_undo hc]
    · rw [scratch_applyAll, scratch_applyAll]
  · rw [signs_eq, signs_eq]
    refine List.map_congr_left fun i _ => ?_
    rw [row_applyAll, Gate.onRowAll_cnot_cnot_cnot apart, Row.restrict]
  · rw [row_applyAll, Gate.onRowAll_cnot_cnot_cnot apart]
    simp [Row.restrict]

/-- Two qubits, with rows that do not satisfy the commutation relations. -/
theorem applyAll_undo_two_qubits :
    let t := (basis 2 1 (by decide)).copy 3 0
    let c : List (Gate (Fin 2)) := [.h 0, .s 0, .cnot 0 1, .x 1, .s 1]
    (∀ u ∈ c, u.Distinct) ∧ (t.applyAll c).applyAll (Gate.undo c) = t ∧
      (0 : Fin 2) ≠ 1 ∧
      t.applyAll [.h 0, .h 1, .cnot 0 1, .h 0, .h 1] = t.apply (.cnot 1 0) := by
  intro t c
  have distinct : ∀ u ∈ c, u.Distinct := by decide
  have apart : (0 : Fin 2) ≠ 1 := by decide
  obtain ⟨undone, -, known⟩ := t.applyAll_undo
  exact ⟨distinct, undone c distinct, apart, (known 0 1 apart).1⟩

end Tableau

end Stabilizer
