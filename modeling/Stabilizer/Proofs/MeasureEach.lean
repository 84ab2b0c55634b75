import Stabilizer.Proofs.Measurement
/-!
# Several measurements

Qubits are measured one after the other, each on the tableau that the measurement before it left.
Every random outcome takes a coin.
-/

namespace Stabilizer

variable {n : Nat}

/-- The coins after an outcome was reported. -/
def Coins.after (coins : Coins) (outcome : Outcome) : Coins :=
  if outcome.isDeterministic then coins else coins.advance

/-- The number of coins that outcomes took: one for each that is random. -/
def draws (outcomes : List Outcome) : Nat := outcomes.countP fun outcome => !outcome.isDeterministic

theorem Coins.after_eq (coins : Coins) (outcome : Outcome) :
    coins.after outcome = ⟨coins.tape, coins.drawn + draws [outcome]⟩ := by
  unfold Coins.after
  cases outcome <;> rfl

theorem draws_cons (outcome : Outcome) (outcomes : List Outcome) :
    draws (outcome :: outcomes) = draws [outcome] + draws outcomes := by
  rw [draws, draws, draws, ← List.countP_append, List.singleton_append]

namespace Tableau

/-- Measures qubits one after the other. -/
def measureEach (t : Tableau n) (coins : Coins) :
    List (Fin n) → Except Error (List Outcome × Tableau n × Coins)
  | [] => return ([], t, coins)
  | q :: qubits => do
    let (outcome, between, rest) ← t.measure q coins
    let (outcomes, after, rest) ← between.measureEach rest qubits
    return (outcome :: outcomes, after, rest)

variable {t between after : Tableau n} {coins rest rest' : Coins} {q : Fin n} {qubits : List (Fin n)}
  {outcome : Outcome} {outcomes : List Outcome}

theorem measureEach_cons (first : t.measure q coins = .ok (outcome, between, rest))
    (others : between.measureEach rest qubits = .ok (outcomes, after, rest')) :
    t.measureEach coins (q :: qubits) = .ok (outcome :: outcomes, after, rest') := by
  rw [measureEach, first]
  show between.measureEach rest qubits >>= _ = _
  rw [others]
  rfl

end Tableau

end Stabilizer
