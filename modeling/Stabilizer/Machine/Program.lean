import Stabilizer.Error
/-!
# Programs

A program works on a state.  It returns a value or fails with an error, and in both cases leaves the
state as far as it has come with it: a failure undoes nothing.  A program that reaches for an entry
which a container does not have, or for a container that is too large, is broken off and leaves none.
-/

namespace Stabilizer

/-- What breaks a program off. -/
inductive Crash where
  /-- A container is read or written where it has no entry. -/
  | outOfRange
  /-- A container of `2^63` entries or more is asked for. -/
  | capacityOverflow
  /-- A call that was taken to succeed has failed. -/
  | unwrapped (error : Error)
  deriving DecidableEq, Repr

/-- How a program ends. -/
inductive Ending (σ α : Type) where
  | returned (value : α) (state : σ)
  | failed (error : Error) (state : σ)
  | aborted (crash : Crash)
  deriving DecidableEq

namespace Ending

variable {σ τ α β : Type}

/-- What is done after a program has returned.  After any other end it is not done. -/
def andThen : Ending σ α → (α → σ → Ending σ β) → Ending σ β
  | returned a s, next => next a s
  | failed e s, _ => failed e s
  | aborted crash, _ => aborted crash

/-- The end, seen from a larger state. -/
def mapState (f : σ → τ) : Ending σ α → Ending τ α
  | returned a s => returned a (f s)
  | failed e s => failed e (f s)
  | aborted crash => aborted crash

/-- The state that is left. -/
def state? : Ending σ α → Option σ
  | returned _ s | failed _ s => some s
  | aborted _ => none

@[simp] theorem andThen_returned (a : α) (s : σ) (next : α → σ → Ending σ β) :
    (returned a s).andThen next = next a s := rfl

@[simp] theorem andThen_failed (e : Error) (s : σ) (next : α → σ → Ending σ β) :
    (failed e s).andThen next = failed e s := rfl

@[simp] theorem andThen_aborted (crash : Crash) (next : α → σ → Ending σ β) :
    (aborted crash).andThen next = aborted crash := rfl

@[simp] theorem mapState_returned (f : σ → τ) (a : α) (s : σ) :
    (returned a s).mapState f = returned a (f s) := rfl

@[simp] theorem mapState_failed (f : σ → τ) (e : Error) (s : σ) :
    (failed e s : Ending σ α).mapState f = failed e (f s) := rfl

end Ending

/-- A program on states of type `σ` that returns values of type `α`. -/
def Program (σ α : Type) := σ → Ending σ α

namespace Program

variable {σ τ α β : Type}

def run (p : Program σ α) (s : σ) : Ending σ α := p s

instance : Monad (Program σ) where
  pure a := fun s => .returned a s
  bind p f := fun s => (p.run s).andThen fun a s => (f a).run s

/-- The state. -/
def state : Program σ σ := fun s => .returned s s

def setState (s : σ) : Program σ Unit := fun _ => .returned () s

def fail (e : Error) : Program σ α := fun s => .failed e s

def abort (crash : Crash) : Program σ α := fun _ => .aborted crash

/-- A result that was worked out without the state. -/
def ofExcept : Except Error α → Program σ α
  | .ok a => pure a
  | .error e => fail e

/-- What stands at an index of a container. -/
def access : Option α → Program σ α
  | some a => pure a
  | none => abort .outOfRange

/-- A program that must not fail. -/
def unwrap (p : Program σ α) : Program σ α := fun s =>
  match p.run s with
  | .returned a s => .returned a s
  | .failed e _ => .aborted (.unwrapped e)
  | .aborted crash => .aborted crash

/-- Runs a program on a state of its own, and returns that state in the end. -/
def within (s : τ) (p : Program τ α) : Program σ τ := fun outer =>
  match p.run s with
  | .returned _ s => .returned s outer
  | .failed e _ => .failed e outer
  | .aborted crash => .aborted crash

/-- A program that works on the first part of the state. -/
def onFirst (p : Program σ α) : Program (σ × τ) α := fun s => (p.run s.1).mapState (·, s.2)

variable (s : σ)

@[simp] theorem run_pure (a : α) : (pure a : Program σ α).run s = .returned a s := rfl

@[simp] theorem run_bind (p : Program σ α) (f : α → Program σ β) :
    (p >>= f).run s = (p.run s).andThen fun a s => (f a).run s := rfl

@[simp] theorem run_state : (state : Program σ σ).run s = .returned s s := rfl

@[simp] theorem run_setState (s' : σ) : (setState s').run s = .returned () s' := rfl

@[simp] theorem run_fail (e : Error) : (fail e : Program σ α).run s = .failed e s := rfl

@[simp] theorem run_abort (crash : Crash) : (abort crash : Program σ α).run s = .aborted crash := rfl

@[simp] theorem run_ofExcept_ok (a : α) : (ofExcept (.ok a) : Program σ α).run s = .returned a s := rfl

@[simp] theorem run_ofExcept_error (e : Error) :
    (ofExcept (.error e) : Program σ α).run s = .failed e s := rfl

@[simp] theorem run_access_some (a : α) : (access (some a) : Program σ α).run s = .returned a s := rfl

theorem run_unwrap_of_returned {p : Program σ α} {s s' : σ} {a : α} (h : p.run s = .returned a s') :
    p.unwrap.run s = .returned a s' := by
  show (match p.run s with | .returned a s => _ | .failed e _ => _ | .aborted crash => _) = _
  rw [h]

theorem run_within_of_returned {p : Program τ α} {t t' : τ} {a : α} (h : p.run t = .returned a t') :
    (within t p : Program σ τ).run s = .returned t' s := by
  show (match p.run t with | .returned _ t => _ | .failed e _ => _ | .aborted crash => _) = _
  rw [h]

theorem run_within_of_aborted {p : Program τ α} {t : τ} {crash : Crash} (h : p.run t = .aborted crash) :
    (within t p : Program σ τ).run s = .aborted crash := by
  show (match p.run t with | .returned _ t => _ | .failed e _ => _ | .aborted crash => _) = _
  rw [h]

@[simp] theorem run_onFirst (p : Program σ α) (t : τ) :
    (p.onFirst).run (s, t) = (p.run s).mapState (·, t) := rfl

instance : LawfulMonad (Program σ) :=
  LawfulMonad.mk' _
    (fun p => funext fun s => by
      show (p.run s).andThen _ = p.run s
      cases p.run s <;> rfl)
    (fun a f => rfl)
    (fun p f g => funext fun s => by
      show ((p.run s).andThen _).andThen _ = (p.run s).andThen _
      cases p.run s <;> rfl)

end Program

end Stabilizer
