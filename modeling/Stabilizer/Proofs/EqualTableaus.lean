import Stabilizer.Proofs.CoinDependence
/-!
# Equal tableaus

Tableaus are equal when their rows are, whatever products their scratch rows still hold.  No command
tells equal tableaus apart: none reads a scratch row, and the measurement that writes one begins it anew.
So two sessions that differ in scratch rows alone, those of the copies among them, answer and log the
same and go on differing in scratch rows alone.

Updates are the case of `Coupled` simulations whose signs are in the space of constant families, for
then the rows agree.  Queries see the rows only (`answer_eq_of_rows_eq`).
-/

namespace Stabilizer

variable {n : Nat} {ι : Type}

/-! ## Coupled and equal -/

/-- The families whose bits are all the same. -/
def BitSpace.constant (ι : Type) : BitSpace ι where
  families := { f | ∀ k l, f k = f l }
  const_mem _ := fun _ _ => rfl
  xor_mem hf hg := fun k l => congrArg₂ (· ^^ ·) (hf k l) (hg k l)

theorem CoupledReplies.eq {replies : ι → Except Refusal Reply}
    (h : CoupledReplies (.constant ι) replies) (k l : ι) : replies k = replies l := by
  cases h with
  | same reply => rfl
  | @determined bit hbit drawn =>
    have same : bit k = bit l := hbit k l
    simp only [same]
  | @random bit hbit drawn =>
    have same : bit k = bit l := hbit k l
    simp only [same]

namespace Tableau

theorem Coupled.rows_eq {t : ι → Tableau n} (ht : Coupled (.constant ι) t) (k l : ι) :
    (t k).rows = (t l).rows := by
  rw [← beq_iff_rows_eq, beq_iff_row_eq]
  exact fun i => Row.ext ((ht i).minus k l) ((ht i).x k l) ((ht i).z k l)

/-- Equal rows are coupled. -/
theorem coupled_of_rows_eq {t : ι → Tableau n} (same : ∀ k l, (t k).rows = (t l).rows) :
    Coupled (.constant ι) t := by
  intro i
  have row (k l : ι) : (t k).row i = (t l).row i := by rw [Tableau.row, Tableau.row, same k l]
  exact ⟨fun k l => congrArg Row.x (row k l), fun k l => congrArg Row.z (row k l),
    fun k l => congrArg Row.minus (row k l)⟩

/-! ## Queries -/

variable {t u : Tableau n}

/-- Equal tableaus differ in their scratch rows alone. -/
theorem eq_scratch_of_rows_eq (h : t.rows = u.rows) : u = { t with scratch := u.scratch } := by
  obtain ⟨rows, scratch, addressable⟩ := t
  obtain ⟨rows', scratch', addressable'⟩ := u
  cases h
  rfl

/-- No query reads the scratch row. -/
theorem answer_scratch (t : Tableau n) (product : Row n) (query : Query) :
    ({ t with scratch := product } : Tableau n).answer query = t.answer query := by
  cases query <;> rfl

theorem answer_eq_of_rows_eq (h : t.rows = u.rows) (query : Query) :
    t.answer query = u.answer query := by
  rw [eq_scratch_of_rows_eq h]
  exact (answer_scratch t u.scratch query).symm

end Tableau

/-! ## Updates -/

namespace Simulation

/-- Simulations whose tableaus are equal, with the same coins. -/
structure Same (s r : Simulation n) : Prop where
  rows : s.tableau.rows = r.tableau.rows
  coins : s.coins = r.coins

/-- Only measurements are logged. -/
theorem events_eq_nil (s : Simulation n) {u : Update} (h : ∀ q, u ≠ .measure q) :
    s.events u = [] := by
  obtain ⟨result, settled⟩ | unknown | ⟨q, rfl⟩ := s.attempt_cases u
  · rw [events, settled]
    cases result <;> rfl
  · rw [events, unknown]
  · exact absurd rfl (h q)

/-- A measurement logs what it reports, with the pivot that it found. -/
theorem events_measure (s : Simulation n) (q : Nat) :
    s.events (.measure q) =
      ((outcome? (s.run (.measure q)).1).map fun outcome =>
        measurementEvent s.tableau q outcome.bit).toList := by
  rw [events, run, attempt]
  rcases s.tableau.measure q s.coins with error | ⟨outcome, t, coins⟩ <;> rfl

theorem measurementEvent_eq_of_rows_eq {t u : Tableau n} (h : t.rows = u.rows) (q : Nat)
    (bit : Bool) : measurementEvent t q bit = measurementEvent u q bit := by
  rw [Tableau.eq_scratch_of_rows_eq h]
  rfl

namespace Same

variable {s r : Simulation n}

theorem coupled (h : s.Same r) :
    Coupled (.constant Bool) fun right => if right then r else s where
  tableau := by
    refine Tableau.coupled_of_rows_eq fun k l => ?_
    cases k <;> cases l <;> simp [h.rows]
  drawn k l := by cases k <;> cases l <;> simp [h.coins]
  coin j := by
    intro k l
    cases k <;> cases l <;> simp [h.coins]

/-- **An update does not tell equal tableaus apart.** -/
theorem run (h : s.Same r) (u : Update) :
    (s.run u).1 = (r.run u).1 ∧ (s.run u).2.Same (r.run u).2 := by
  obtain ⟨replies, after⟩ := h.coupled.run u
  have reply : (s.run u).1 = (r.run u).1 := replies.eq false true
  refine ⟨reply, after.tableau.rows_eq false true, ?_⟩
  -- which coins were drawn shows in the reply
  rw [(s.coinStep_run u).eq_after, (r.coinStep_run u).eq_after, reply, h.coins]

/-- The same is logged. -/
theorem events (h : s.Same r) (u : Update) : s.events u = r.events u := by
  by_cases measured : ∃ q, u = .measure q
  · obtain ⟨q, rfl⟩ := measured
    rw [events_measure, events_measure, (h.run _).1]
    simp only [measurementEvent_eq_of_rows_eq h.rows]
  · have other (q : Nat) : u ≠ .measure q := fun hu => measured ⟨q, hu⟩
    rw [events_eq_nil s other, events_eq_nil r other]

end Same

end Simulation

/-! ## Sessions -/

/-- Tableaus on the same number of qubits, with the same rows. -/
inductive SameRows : AnyTableau → AnyTableau → Prop
  | intro {n : Nat} {t u : Tableau n} (rows : t.rows = u.rows) : SameRows ⟨n, t⟩ ⟨n, u⟩

theorem same_iff_sameRows {t u : AnyTableau} : t.2.same u.2 = true ↔ SameRows t u := by
  obtain ⟨n, t⟩ := t
  obtain ⟨m, u⟩ := u
  constructor
  · intro h
    by_cases hm : m = n
    · subst hm
      exact .intro (by simpa [Tableau.same] using h)
    · simp [Tableau.same, hm] at h
  · rintro ⟨rows⟩
    simp [Tableau.same, rows]

namespace SameRows

variable {t u v w : AnyTableau}

theorem refl (t : AnyTableau) : SameRows t t := ⟨rfl⟩

/-- Comparing with equal tableaus gives the same. -/
theorem same_congr (h : SameRows t u) (h' : SameRows v w) : t.2.same v.2 = u.2.same w.2 := by
  obtain ⟨rows⟩ := h
  obtain ⟨rows'⟩ := h'
  simp only [Tableau.same, rows, rows']

theorem roundTrip (h : SameRows t u) : Session.roundTrip t = Session.roundTrip u := by
  obtain ⟨rows⟩ := h
  rw [Tableau.eq_scratch_of_rows_eq rows]
  rfl

end SameRows

namespace Session

/-- Sessions that differ in scratch rows alone, in those of the copies too. -/
inductive Same : Session → Session → Prop
  | intro {n : Nat} {s r : Simulation n} (simulation : s.Same r) {copies copies' : Array AnyTableau}
      (size : copies.size = copies'.size)
      (copy : ∀ k : Nat, Option.Rel SameRows copies[k]? copies'[k]?) (log : Array Event) :
      Same ⟨n, s, copies, log⟩ ⟨n, r, copies', log⟩

namespace Same

variable {s r : Session}

theorem current (h : s.Same r) : SameRows s.current r.current := by
  obtain ⟨simulation, -, -, -⟩ := h
  exact ⟨simulation.rows⟩

/-- Another pair of equal tableaus is taken up. -/
theorem replace (h : s.Same r) {t u : AnyTableau} (rows : SameRows t u) :
    (s.replace t).Same (r.replace u) := by
  obtain ⟨simulation, size, copy, log⟩ := h
  obtain ⟨rows⟩ := rows
  exact .intro (s := ⟨_, _⟩) (r := ⟨_, _⟩) ⟨rows, simulation.coins⟩ size copy log

theorem record (h : s.Same r) (events : List Event) : (s.record events).Same (r.record events) := by
  obtain ⟨simulation, size, copy, log⟩ := h
  exact .intro simulation size copy _

/-- A copy is kept of the current tableau. -/
theorem push (h : s.Same r) :
    Same { s with copies := s.copies.push s.current } { r with copies := r.copies.push r.current } := by
  have current := h.current
  obtain ⟨simulation, size, copy, log⟩ := h
  refine .intro simulation (by simp [size]) (fun k => ?_) log
  simp only [Array.getElem?_push, size]
  split
  · exact .some current
  · exact copy k

/-- **A command does not tell equal tableaus apart.** -/
theorem run (h : s.Same r) (c : Command) :
    (s.run c).1 = (r.run c).1 ∧ (s.run c).2.Same (r.run c).2 := by
  have sessions := h
  obtain @⟨n, s, r, simulation, copies, copies', size, copy, log⟩ := h
  cases c with
  | update u =>
    obtain ⟨reply, after⟩ := simulation.run u
    rw [run_update, run_update, simulation.events u]
    exact ⟨reply, .intro after size copy _⟩
  | query q =>
    rw [Session.run, attempt, Session.run, attempt, Tableau.answer_eq_of_rows_eq simulation.rows q]
    cases Tableau.answer _ q with
    | error error => exact ⟨rfl, sessions⟩
    | ok reply => exact ⟨rfl, sessions⟩
  | roundTrip =>
    rw [Session.run, attempt, Session.run, attempt, sessions.current.roundTrip]
    exact ⟨rfl, sessions.record _⟩
  | load record =>
    rw [Session.run, attempt, Session.run, attempt]
    cases Tableau.ofRecord record with
    | error error => exact ⟨rfl, sessions⟩
    | ok t => exact ⟨rfl, (sessions.replace (.refl ⟨_, t⟩)).record _⟩
  | save =>
    rw [Session.run, attempt, Session.run, attempt, size]
    exact ⟨rfl, sessions.push⟩
  | restore k =>
    -- both sessions have a copy of this number, with equal rows, or neither has
    have kept := copy k
    rw [Session.run, attempt, Session.run, attempt]
    generalize copies[k]? = t, copies'[k]? = u at kept ⊢
    cases kept with
    | none => exact ⟨rfl, sessions⟩
    | some rows => exact ⟨rfl, sessions.replace rows⟩
  | compare k =>
    have kept := copy k
    have current := sessions.current
    rw [Session.run, attempt, Session.run, attempt]
    generalize copies[k]? = t, copies'[k]? = u at kept ⊢
    cases kept with
    | none => exact ⟨rfl, sessions⟩
    | some rows =>
      refine ⟨?_, sessions⟩
      simp only [current.same_congr rows, rows.same_congr current]

theorem runAll (h : s.Same r) (commands : List Command) :
    (s.runAll commands).Same (r.runAll commands) := by
  induction commands generalizing s r with
  | nil => exact h
  | cons c commands ih =>
    rw [runAll_cons, runAll_cons]
    exact ih (h.run c).2

theorem replies (h : s.Same r) (commands : List Command) :
    s.replies commands = r.replies commands := by
  induction commands generalizing s r with
  | nil => rfl
  | cons c commands ih => rw [Session.replies, Session.replies, (h.run c).1, ih (h.run c).2]

theorem answer (h : s.Same r) (query : Query) :
    s.simulation.tableau.answer query = r.simulation.tableau.answer query := by
  obtain ⟨simulation, -, -, -⟩ := h
  exact Tableau.answer_eq_of_rows_eq simulation.rows query

theorem coins (h : s.Same r) : s.simulation.coins = r.simulation.coins := by
  obtain ⟨simulation, -, -, -⟩ := h
  exact simulation.coins

theorem log (h : s.Same r) : s.log = r.log := by
  obtain ⟨-, -, -, -⟩ := h
  rfl

end Same

/-- **Equal tableaus cannot be told apart**: whatever commands are run in two sessions that differ in
equal tableaus alone, the answers and refusals are the same, and so is all that can be read off
afterwards. -/
theorem replies_eq_of_beq {t u : Tableau n} (h : (t == u) = true) (coins : Coins)
    (copies : Array AnyTableau) (log : Array Event) (commands : List Command) :
    let session (v : Tableau n) : Session := ⟨n, ⟨v, coins⟩, copies, log⟩
    let s := (session t).runAll commands
    let r := (session u).runAll commands
    (session t).replies commands = (session u).replies commands ∧
      s.current.2.same r.current.2 = true ∧
      (∀ query, s.simulation.tableau.answer query = r.simulation.tableau.answer query) ∧
      s.simulation.coins = r.simulation.coins ∧ s.log = r.log := by
  intro session s r
  have begun : (session t).Same (session u) := by
    refine .intro (s := ⟨t, coins⟩) (r := ⟨u, coins⟩) ⟨Tableau.beq_iff_rows_eq.1 h, rfl⟩ rfl
      (fun k => ?_) log
    cases copies[k]? with
    | none => exact .none
    | some v => exact .some (.refl v)
  have after : s.Same r := begun.runAll commands
  exact ⟨begun.replies commands, same_iff_sameRows.2 after.current, after.answer, after.coins,
    after.log⟩

/-- A basis state, and the same state after its second qubit was measured, which left its `-Z` in the
scratch row. -/
theorem replies_eq_of_beq_measured :
    let coins := Coins.fresh fun _ => 0x80000000
    let t := Tableau.basis 2 1 (by decide)
    let u := ((Simulation.mk t coins).run (.measure 1)).2.tableau
    let commands : List Command := [.save, .update (.gate (.h 0)), .update (.measure 0),
      .update (.measure 1), .compare 0, .restore 0, .roundTrip, .query .dump]
    let session (v : Tableau 2) : Session := ⟨2, ⟨v, coins⟩, #[⟨2, t⟩], #[]⟩
    let s := (session t).runAll commands
    let r := (session u).runAll commands
    t.scratch ≠ u.scratch ∧ (t == u) = true ∧
      (session t).replies commands = (session u).replies commands ∧
      s.current.2.same r.current.2 = true ∧
      (∀ query, s.simulation.tableau.answer query = r.simulation.tableau.answer query) ∧
      s.simulation.coins = r.simulation.coins ∧ s.log = r.log := by
  intro coins t u commands
  have equal : (t == u) = true := by decide
  exact ⟨by decide, equal, replies_eq_of_beq equal coins #[⟨2, t⟩] #[] commands⟩

end Session

end Stabilizer
