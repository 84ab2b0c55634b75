import Stabilizer.Proofs.Coupling
import Stabilizer.Proofs.MeasureEach
import Stabilizer.Proofs.Run
/-!
# What depends on the coins

The same updates, refused ones among them, run on different tapes.  Nothing is asked of the tableau.

The runs differ in signs and in measured bits alone, so they draw their coins for the same
measurements.  Signs and bits are affine in the coins: a tape whose coins are the sums of those of
three others gives the sums of their signs and of their bits.  Both come from one induction over
coupled simulations, one for each tape (`coupled_runAll`).
-/

namespace Stabilizer

variable {n : Nat} {ι : Type}

/-! ## Coins -/

/-- A coin is the top one of 32 bits. -/
theorem coinOf_eq_testBit (word : UInt32) : coinOf word = word.toNat.testBit 31 := by
  have bound : word.toNat < 2 ^ 32 := word.toNat_lt
  rw [Nat.testBit_eq_decide_div_mod_eq, coinOf, decide_eq_decide, UInt32.le_iff_toNat_le]
  show 2147483648 ≤ word.toNat ↔ _
  omega

/-- The coin of a sum of words, bit by bit, is the sum of the coins. -/
theorem coinOf_xor (a b : UInt32) : coinOf (a ^^^ b) = (coinOf a ^^ coinOf b) := by
  simp only [coinOf_eq_testBit, UInt32.toNat_xor, Nat.testBit_xor]

/-- The coins drawn so far. -/
def Coins.shown (coins : Coins) : List Bool :=
  (List.range coins.drawn).map fun j => coinOf (coins.tape j)

theorem Coins.shown_advance (coins : Coins) :
    coins.advance.shown = coins.shown ++ [coins.next] := by
  rw [shown, shown, advance, List.range_succ, List.map_append]
  rfl

/-! ## Outcomes -/

/-- The coin that a random outcome is. -/
def Outcome.coin? : Outcome → Option Bool
  | deterministic _ => none
  | random bit => some bit

/-- The outcome with its bit cleared. -/
def Outcome.masked : Outcome → Outcome
  | deterministic _ => deterministic false
  | random _ => random false

/-- The reply with the bit of a measurement cleared. -/
def Reply.masked : Reply → Reply
  | .outcome value drawn => .outcome value.masked drawn
  | reply => reply

/-- The outcome, if a step measured. -/
def outcome? : Except Refusal Reply → Option Outcome
  | .ok (.outcome outcome _) => some outcome
  | _ => none

/-- The bit, if a step measured. -/
def measuredBit? (reply : Except Refusal Reply) : Option Bool := (outcome? reply).map Outcome.bit

/-- The random bits among some replies. -/
def randomBits (replies : List (Except Refusal Reply)) : List Bool :=
  replies.filterMap fun reply => (outcome? reply).bind Outcome.coin?

/-! ## The coins of one run -/

/-- What a step with or without an outcome makes of the coins. -/
inductive CoinStep (coins : Coins) : Option Outcome → Coins → Prop
  | idle : CoinStep coins none coins
  | determined (bit : Bool) : CoinStep coins (some (.deterministic bit)) coins
  | random : CoinStep coins (some (.random coins.next)) coins.advance

namespace CoinStep

variable {coins rest : Coins} {outcome : Option Outcome}

/-- Only an outcome takes a coin, and only if it is random. -/
theorem eq_after (h : CoinStep coins outcome rest) : rest = outcome.elim coins coins.after := by
  cases h <;> rfl

theorem tape_eq (h : CoinStep coins outcome rest) : rest.tape = coins.tape := by
  cases h <;> rfl

theorem shown_eq (h : CoinStep coins outcome rest) :
    rest.shown = coins.shown ++ (outcome.bind Outcome.coin?).toList := by
  cases h with
  | idle => exact (List.append_nil _).symm
  | determined bit => exact (List.append_nil _).symm
  | random => exact coins.shown_advance

end CoinStep

namespace Simulation

/-- An update changes the tableau alone, or names what there is not, or measures. -/
theorem attempt_cases (s : Simulation n) (u : Update) :
    (∃ result, s.attempt u = s.settle result) ∨ s.attempt u = .error .unknown ∨
      ∃ q, u = .measure q := by
  cases u with
  | measure q => exact .inr (.inr ⟨q, rfl⟩)
  | gate g =>
    rcases h : g.locate? n with _ | located
    · exact .inr (.inl (by rw [attempt, h]))
    · exact .inl ⟨_, by rw [attempt, h]⟩
  | _ => exact .inl ⟨_, rfl⟩

theorem coinStep_run (s : Simulation n) (u : Update) :
    CoinStep s.coins (outcome? (s.run u).1) (s.run u).2.coins := by
  obtain ⟨result, h⟩ | h | ⟨q, rfl⟩ := s.attempt_cases u
  · rw [run, h]
    cases result <;> exact .idle
  · rw [run, h]
    exact .idle
  · by_cases hq : q < n
    · lift q to Fin n using hq
      rcases hp : s.tableau.pivot? q with _ | p
      · rw [run_measure_of_none hp]
        exact .determined _
      · rw [run_measure_of_some hp]
        exact .random
    · rw [run_measure_of_le (Nat.le_of_not_lt hq)]
      exact .idle

theorem tape_runAll (s : Simulation n) (us : List Update) :
    (s.runAll us).coins.tape = s.coins.tape := by
  induction us generalizing s with
  | nil => rfl
  | cons u us ih => rw [runAll_cons, ih, (s.coinStep_run u).tape_eq]

/-- The coins that a run draws are its random bits. -/
theorem shown_runAll (s : Simulation n) (us : List Update) :
    (s.runAll us).coins.shown = s.coins.shown ++ randomBits (s.replies us) := by
  induction us generalizing s with
  | nil => exact (List.append_nil _).symm
  | cons u us ih =>
    have first : randomBits (s.replies (u :: us)) =
        ((outcome? (s.run u).1).bind Outcome.coin?).toList ++
          randomBits ((s.run u).2.replies us) := by
      rw [randomBits, randomBits, replies, List.filterMap_cons]
      cases (outcome? (s.run u).1).bind Outcome.coin? <;> rfl
    rw [runAll_cons, ih, (s.coinStep_run u).shown_eq, first, List.append_assoc]

end Simulation

/-! ## Coupled simulations -/

/-- Simulations with coupled tableaus that have drawn as many coins, on tapes with coins in the
space. -/
structure Simulation.Coupled (L : BitSpace ι) (s : ι → Simulation n) : Prop where
  tableau : Tableau.Coupled L fun k => (s k).tableau
  drawn : ∀ k l, (s k).coins.drawn = (s l).coins.drawn
  coin : ∀ j, (fun k => coinOf ((s k).coins.tape j)) ∈ L.families

/-- What coupled simulations answer: all the same, or each its own bit of a family in the space. -/
inductive CoupledReplies (L : BitSpace ι) : (ι → Except Refusal Reply) → Prop
  | same (reply : Except Refusal Reply) : CoupledReplies L fun _ => reply
  | determined {bit : ι → Bool} (hbit : bit ∈ L.families) (drawn : Nat) :
      CoupledReplies L fun k => .ok (.outcome (.deterministic (bit k)) drawn)
  | random {bit : ι → Bool} (hbit : bit ∈ L.families) (drawn : Nat) :
      CoupledReplies L fun k => .ok (.outcome (.random (bit k)) drawn)

theorem CoupledReplies.masked {L : BitSpace ι} {replies : ι → Except Refusal Reply}
    (h : CoupledReplies L replies) (k l : ι) :
    (replies k).map Reply.masked = (replies l).map Reply.masked := by
  cases h <;> rfl

namespace Simulation.Coupled

variable {L : BitSpace ι} {s : ι → Simulation n}

theorem next [Nonempty ι] (hs : Coupled L s) : (fun k => (s k).coins.next) ∈ L.families := by
  obtain ⟨o⟩ := ‹Nonempty ι›
  simp only [Coins.next, hs.drawn _ o]
  exact hs.coin _

/-- A step of the tableaus alone. -/
theorem settle (hs : Coupled L s) {u : Update} {results : ι → Except Error (Tableau n)}
    (h : ∀ k, (s k).attempt u = (s k).settle (results k)) (hr : CoupledResults L results) :
    (CoupledReplies L fun k => ((s k).run u).1) ∧ Coupled L fun k => ((s k).run u).2 := by
  simp only [Simulation.run, h]
  cases hr with
  | refused error =>
    simp only [Simulation.settle]
    exact ⟨.same _, hs⟩
  | done coupled =>
    simp only [Simulation.settle]
    exact ⟨.same _, coupled, hs.drawn, hs.coin⟩

theorem measure [Nonempty ι] (hs : Coupled L s) (q : Nat) :
    (CoupledReplies L fun k => ((s k).run (.measure q)).1) ∧
      Coupled L fun k => ((s k).run (.measure q)).2 := by
  by_cases hq : q < n
  · lift q to Fin n using hq
    obtain ⟨o⟩ := ‹Nonempty ι›
    -- All runs find the pivot that this one finds.
    rcases hp : (s o).tableau.pivot? q with _ | p
    · have pivot (k : ι) : (s k).tableau.pivot? q = none := (hs.tableau.pivot? q k o).trans hp
      simp only [run_measure_of_none (pivot _), hs.drawn _ o]
      exact ⟨.determined (hs.tableau.determined q).minus _, hs.tableau, hs.drawn, hs.coin⟩
    · have pivot (k : ι) : (s k).tableau.pivot? q = some p := (hs.tableau.pivot? q k o).trans hp
      have drawn (k l : ι) : (s k).coins.advance.drawn = (s l).coins.advance.drawn :=
        congrArg (· + 1) (hs.drawn k l)
      simp only [run_measure_of_some (pivot _), drawn _ o]
      exact ⟨.random hs.next _, hs.tableau.collapse q p hs.next, drawn, hs.coin⟩
  · simp only [run_measure_of_le (Nat.le_of_not_lt hq)]
    exact ⟨.same _, hs⟩

/-- An update has coupled replies and leaves coupled simulations. -/
theorem run [Nonempty ι] (hs : Coupled L s) (u : Update) :
    (CoupledReplies L fun k => ((s k).run u).1) ∧ Coupled L fun k => ((s k).run u).2 := by
  have ht := hs.tableau
  cases u with
  | rowsum target source => exact hs.settle (fun _ => rfl) (.rowsum ht target source)
  | copyRow source target => exact hs.settle (fun _ => rfl) (.copyRow ht source target)
  | swapRows a b => exact hs.settle (fun _ => rfl) (.swapRows ht a b)
  | setSign row minus => exact hs.settle (fun _ => rfl) (.setSign ht row minus)
  | flipSign row => exact hs.settle (fun _ => rfl) (.flipSign ht row)
  | setRow row text =>
    exact hs.settle (fun _ => rfl) (.bind (PauliString.parse text) fun p => .setRow ht row p)
  | setXParts m => exact hs.settle (fun _ => rfl) (.setXParts ht m)
  | setZParts m => exact hs.settle (fun _ => rfl) (.setZParts ht m)
  | setSigns bits => exact hs.settle (fun _ => rfl) (.setSigns ht bits)
  | gate g =>
    rcases h : g.locate? n with _ | located
    · simp only [Simulation.run, attempt, h]
      exact ⟨.same _, hs⟩
    · exact hs.settle (fun k => by rw [attempt, h]) (.done (ht.apply located))
  | measure q => exact hs.measure q

theorem runAll [Nonempty ι] (hs : Coupled L s) (us : List Update) :
    Coupled L fun k => (s k).runAll us := by
  induction us generalizing s with
  | nil => exact hs
  | cons u us ih => exact ih (hs.run u).2

end Simulation.Coupled

/-! ## One run for each tape -/

/-- The coins of a tape are the sums of those of three others. -/
def Tape.IsSum (x u v w : Tape) : Prop :=
  ∀ j, coinOf (x j) = (coinOf (u j) ^^ coinOf (v j) ^^ coinOf (w j))

/-- The words may be summed bit by bit. -/
theorem Tape.isSum_xor (u v w : Tape) : IsSum (fun j => u j ^^^ v j ^^^ w j) u v w := by
  intro j
  rw [coinOf_xor, coinOf_xor]

/-- The families of bits, one for each tape, that are affine in the coins. -/
def BitSpace.affine : BitSpace Tape where
  families := { f | ∀ x u v w : Tape, x.IsSum u v w → f x = (f u ^^ f v ^^ f w) }
  const_mem b := by
    intro x u v w hx
    rw [Bool.xor_self, Bool.false_xor]
  xor_mem := by
    intro f g hf hg x u v w hx
    show (f x ^^ g x) = ((f u ^^ g u) ^^ (f v ^^ g v) ^^ (f w ^^ g w))
    rw [hf x u v w hx, hg x u v w hx]
    simp only [Bool.xor_assoc, Bool.xor_left_comm]

theorem BitSpace.coin_mem_affine (j : Nat) :
    (fun tape : Tape => coinOf (tape j)) ∈ affine.families := by
  intro x u v w hx
  exact hx j

/-- The bits that coupled replies report add up as the coins do. -/
theorem CoupledReplies.bits_affine {replies : Tape → Except Refusal Reply}
    (h : CoupledReplies .affine replies) {x u v w : Tape} (hx : x.IsSum u v w) :
    measuredBit? (replies x) = do
      return (← measuredBit? (replies u)) ^^ (← measuredBit? (replies v)) ^^
        (← measuredBit? (replies w)) := by
  cases h with
  | same reply =>
    rcases measuredBit? reply with _ | bit
    · rfl
    · cases bit <;> rfl
  | determined hbit drawn => exact congrArg some (hbit x u v w hx)
  | random hbit drawn => exact congrArg some (hbit x u v w hx)

namespace Simulation

/-- The runs of some updates from one tableau, one run on each tape, are coupled. -/
theorem coupled_runAll (t : Tableau n) (us : List Update) :
    Coupled .affine fun tape => (Simulation.mk t (Coins.fresh tape)).runAll us := by
  have start : Coupled .affine fun tape => Simulation.mk t (Coins.fresh tape) :=
    ⟨Tableau.Coupled.const _ t, fun _ _ => rfl, BitSpace.coin_mem_affine⟩
  exact start.runAll us

/-- Simulations that agree in all but signs and coins, and whose replies agree in all but the bit of a
measurement. -/
structure SameButSigns (s r : Simulation n) : Prop where
  xParts : s.tableau.xParts = r.tableau.xParts
  zParts : s.tableau.zParts = r.tableau.zParts
  drawn : s.coins.drawn = r.coins.drawn
  reply : ∀ u, (s.run u).1.map Reply.masked = (r.run u).1.map Reply.masked

/-- **Coins reach signs alone**: after the same updates on two tapes, refused ones among them, the
simulations agree in all but signs.  The random bits of a run are the top bits of the first words of
its tape, and of the outcomes only a random one takes a word. -/
theorem sameButSigns_runAll (t : Tableau n) (tape tape' : Tape) (us : List Update) :
    let start := Simulation.mk t (Coins.fresh tape)
    let s := start.runAll us
    s.SameButSigns ((Simulation.mk t (Coins.fresh tape')).runAll us) ∧
      randomBits (start.replies us) =
        (List.range s.coins.drawn).map (fun j => (tape j).toNat.testBit 31) ∧
      ∀ u, (s.run u).2.coins = (outcome? (s.run u).1).elim s.coins s.coins.after := by
  intro start s
  have coupled := coupled_runAll t us
  refine ⟨⟨?_, ?_, coupled.drawn tape tape', fun u => (coupled.run u).1.masked tape tape'⟩, ?_,
    fun u => (s.coinStep_run u).eq_after⟩
  · rw [Tableau.xParts_eq, Tableau.xParts_eq]
    exact List.map_congr_left fun i _ => congrArg _ ((coupled.tableau i).x tape tape')
  · rw [Tableau.zParts_eq, Tableau.zParts_eq]
    exact List.map_congr_left fun i _ => congrArg _ ((coupled.tableau i).z tape tape')
  · have shown : s.coins.shown = randomBits (start.replies us) := start.shown_runAll us
    have words : s.coins.tape = tape := start.tape_runAll us
    rw [← shown, Coins.shown, words]
    exact List.map_congr_left fun j _ => coinOf_eq_testBit (tape j)

/-- **Signs and measured bits are affine in the coins**: if the coins of a tape are the sums of those
of three others, then after the same updates, refused ones among them, so are the signs, and so is the
bit that the next update measures. -/
theorem signs_runAll_affine (t : Tableau n) {x u v w : Tape} (hx : x.IsSum u v w)
    (us : List Update) :
    let after (tape : Tape) := (Simulation.mk t (Coins.fresh tape)).runAll us
    let signs (tape : Tape) := (after tape).tableau.signs
    let bit? (next : Update) (tape : Tape) := measuredBit? ((after tape).run next).1
    signs x = List.zipWith (· ^^ ·) (List.zipWith (· ^^ ·) (signs u) (signs v)) (signs w) ∧
      ∀ next, bit? next x =
        do return (← bit? next u) ^^ (← bit? next v) ^^ (← bit? next w) := by
  intro after signs bit?
  have coupled := coupled_runAll t us
  refine ⟨?_, fun next => (coupled.run next).1.bits_affine hx⟩
  have sums (i : Fin (2 * n)) : ((after x).tableau.row i).minus = (((after u).tableau.row i).minus ^^
      ((after v).tableau.row i).minus ^^ ((after w).tableau.row i).minus) :=
    (coupled.tableau i).minus x u v w hx
  simp only [signs, Tableau.signs_eq, sums, List.zipWith_map_left, List.zipWith_map_right,
    List.zipWith_self]

/-- An entangled pair, measured and used up, on three tapes and on their sum. -/
theorem signs_runAll_affine_bell :
    let u := Tape.progression 0 0x80000000
    let v := Tape.progression 0x7FFFFFFF 1
    let w : Tape := fun _ => 0x80000000
    let x : Tape := fun j => u j ^^^ v j ^^^ w j
    let us : List Update := [.gate (.h 0), .gate (.cnot 0 1), .measure 1, .rowsum 0 2, .measure 2,
      .gate (.h 1), .measure 1]
    let t := Tableau.basis 2 0 (by decide)
    let after (tape : Tape) := (Simulation.mk t (Coins.fresh tape)).runAll us
    let signs (tape : Tape) := (after tape).tableau.signs
    let bit? (next : Update) (tape : Tape) := measuredBit? ((after tape).run next).1
    x.IsSum u v w ∧
      signs x = List.zipWith (· ^^ ·) (List.zipWith (· ^^ ·) (signs u) (signs v)) (signs w) ∧
      ∀ next, bit? next x =
        do return (← bit? next u) ^^ (← bit? next v) ^^ (← bit? next w) := by
  intro u v w x us t
  have hx : x.IsSum u v w := Tape.isSum_xor u v w
  exact ⟨hx, signs_runAll_affine t hx us⟩

end Simulation

end Stabilizer
