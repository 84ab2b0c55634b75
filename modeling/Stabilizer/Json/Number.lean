/-!
# JSON numbers

A number is read by its parts: a minus sign, the digits before the point, those after it, and an
exponent.  Two questions are asked of it: is it a plain natural number of 64 bits, and is it too
large for a binary64 float.
-/

namespace Stabilizer.Json

/-- Why a text cannot be read. -/
inductive Fault where
  | ended
  | malformed
  /-- A value has another type or shape than asked for. -/
  | mistyped
  deriving DecidableEq, Repr

/-- A number by its parts.  The exponent comes with whether it is negative. -/
structure Number where
  negative : Bool
  whole : List Char
  fraction : Option (List Char)
  exponent : Option (Bool × List Char)
  deriving DecidableEq, Repr

namespace Number

/-! ### Reading -/

/-- The digits that a text begins with, at least one, and what follows them. -/
def scanDigits (text : List Char) : Except Fault (List Char × List Char) :=
  match text.takeWhile Char.isDigit with
  | [] => .error (if text.isEmpty then .ended else .malformed)
  | digits => .ok (digits, text.dropWhile Char.isDigit)

/-- The digits before the point: a single 0, or digits that begin with another. -/
def scanWhole (text : List Char) : Except Fault (List Char × List Char) := do
  let (digits, rest) ← scanDigits text
  if digits.head? = some '0' ∧ digits.length ≠ 1 then throw .malformed
  return (digits, rest)

/-- A point and digits, if there is a point. -/
def scanFraction : List Char → Except Fault (Option (List Char) × List Char)
  | '.' :: text => do
    let (digits, rest) ← scanDigits text
    return (some digits, rest)
  | text => .ok (none, text)

def scanExponentDigits (negative : Bool) (text : List Char) :
    Except Fault (Option (Bool × List Char) × List Char) := do
  let (digits, rest) ← scanDigits text
  return (some (negative, digits), rest)

/-- An `e` with a sign or none and digits, if there is an `e`. -/
def scanExponent : List Char → Except Fault (Option (Bool × List Char) × List Char)
  | 'e' :: '-' :: text | 'E' :: '-' :: text => scanExponentDigits true text
  | 'e' :: '+' :: text | 'E' :: '+' :: text => scanExponentDigits false text
  | 'e' :: text | 'E' :: text => scanExponentDigits false text
  | text => .ok (none, text)

/-- The number that a text begins with after its minus sign, and what follows it. -/
def scanParts (negative : Bool) (text : List Char) : Except Fault (Number × List Char) := do
  let (whole, text) ← scanWhole text
  let (fraction, text) ← scanFraction text
  let (exponent, text) ← scanExponent text
  return (⟨negative, whole, fraction, exponent⟩, text)

/-- The number that a text begins with, and what follows it. -/
def scan : List Char → Except Fault (Number × List Char)
  | '-' :: text => scanParts true text
  | text => scanParts false text

theorem length_of_scanDigits {text digits rest : List Char}
    (h : scanDigits text = .ok (digits, rest)) : rest.length < text.length := by
  unfold scanDigits at h
  split at h
  · cases h
  next hd =>
    cases h
    have split_eq := congrArg List.length
      (List.takeWhile_append_dropWhile (p := Char.isDigit) (l := text))
    have pos : (text.takeWhile Char.isDigit).length ≠ 0 := by simpa using hd
    simp only [List.length_append] at split_eq
    omega

theorem length_of_scanWhole {text digits rest : List Char}
    (h : scanWhole text = .ok (digits, rest)) : rest.length < text.length := by
  unfold scanWhole at h
  cases hd : scanDigits text with
  | error e => simp [hd, bind, Except.bind] at h
  | ok p =>
    obtain ⟨d, r⟩ := p
    simp only [hd, bind, Except.bind] at h
    split at h <;> cases h
    exact length_of_scanDigits hd

theorem length_of_scanFraction {text rest : List Char} {fraction : Option (List Char)}
    (h : scanFraction text = .ok (fraction, rest)) : rest.length ≤ text.length := by
  unfold scanFraction at h
  split at h
  next text =>
    cases hd : scanDigits text with
    | error e => simp [hd, bind, Except.bind] at h
    | ok p =>
      simp only [hd, bind, Except.bind, pure, Except.pure] at h
      cases h
      have := length_of_scanDigits hd
      simp only [List.length_cons]
      omega
  · cases h
    exact Nat.le_refl _

theorem length_of_scanExponentDigits {negative : Bool} {text rest : List Char}
    {exponent : Option (Bool × List Char)}
    (h : scanExponentDigits negative text = .ok (exponent, rest)) : rest.length ≤ text.length := by
  unfold scanExponentDigits at h
  cases hd : scanDigits text with
  | error e => simp [hd, bind, Except.bind] at h
  | ok p =>
    simp only [hd, bind, Except.bind, pure, Except.pure] at h
    cases h
    exact Nat.le_of_lt (length_of_scanDigits hd)

theorem length_of_scanExponent {text rest : List Char} {exponent : Option (Bool × List Char)}
    (h : scanExponent text = .ok (exponent, rest)) : rest.length ≤ text.length := by
  unfold scanExponent at h
  split at h <;> first
    | cases h; exact Nat.le_refl _
    | have := length_of_scanExponentDigits h
      simp only [List.length_cons]
      omega

theorem length_of_scanParts {negative : Bool} {text rest : List Char} {x : Number}
    (h : scanParts negative text = .ok (x, rest)) : rest.length < text.length := by
  unfold scanParts at h
  cases hw : scanWhole text with
  | error e => simp [hw, bind, Except.bind] at h
  | ok w =>
    cases hf : scanFraction w.2 with
    | error e => simp [hw, hf, bind, Except.bind] at h
    | ok f =>
      cases he : scanExponent f.2 with
      | error e => simp [hw, hf, he, bind, Except.bind] at h
      | ok e =>
        simp only [hw, hf, he, bind, Except.bind, pure, Except.pure] at h
        cases h
        have whole := length_of_scanWhole hw
        have fraction := length_of_scanFraction hf
        have exponent := length_of_scanExponent he
        omega

/-- A number takes at least one character. -/
theorem length_of_scan {text rest : List Char} {x : Number} (h : scan text = .ok (x, rest)) :
    rest.length < text.length := by
  unfold scan at h
  split at h
  · exact Nat.lt_succ_of_lt (length_of_scanParts h)
  · exact length_of_scanParts h

/-! ### Natural numbers -/

def digitsValue (digits : List Char) : Nat :=
  digits.foldl (fun value digit => 10 * value + (digit.toNat - '0'.toNat)) 0

/-- The value of a number that is written with digits alone and fits in 64 bits. -/
def natural? (x : Number) : Option Nat :=
  if x.negative ∨ x.fraction.isSome ∨ x.exponent.isSome then none
  else if digitsValue x.whole < Nat.pow 2 64 then some (digitsValue x.whole)
  else none

/-! ### Range

A number that is no natural number of 64 bits is taken as a float: its leading digits, as many as
fit in 64 bits, are rounded to binary64 and multiplied by a power of ten that is rounded likewise.
The number is out of range when this product is infinite. -/

/-- Appends digits to a value as long as it fits in 64 bits, and returns the digits left over. -/
def absorb (value : Nat) : List Char → Nat × List Char
  | [] => (value, [])
  | digit :: digits =>
    let longer := 10 * value + (digit.toNat - '0'.toNat)
    if longer < Nat.pow 2 64 then absorb longer digits else (value, digit :: digits)

/-- The nearest number with 53 significant bits, of two the one with an even last bit. -/
def roundTo53 (value : Nat) : Nat :=
  let excess := value.log2 + 1 - 53
  let kept := value >>> excess
  let dropped := value % Nat.pow 2 excess
  let up := Nat.pow 2 excess < 2 * dropped ∨ 2 * dropped = Nat.pow 2 excess ∧ kept % 2 = 1
  (if up then kept + 1 else kept) <<< excess

/-- The least value that rounds to infinity. -/
def infinite : Nat := Nat.pow 2 1024 - Nat.pow 2 970

/-- The number is too large for a float. -/
def outOfRange (x : Number) : Bool :=
  let (value, excess) := absorb 0 x.whole
  let fraction := x.fraction.getD []
  let (value, unused) := absorb value fraction
  let scale : Int := match x.exponent with
    | none => 0
    | some (true, digits) => -(digitsValue digits : Int)
    | some (false, digits) => digitsValue digits
  let scale : Int := excess.length - (fraction.length - unused.length : Nat) + scale
  value ≠ 0 && 0 ≤ scale &&
    (308 < scale || infinite ≤ roundTo53 value * roundTo53 (Nat.pow 10 scale.toNat))

end Number

end Stabilizer.Json
