import Stabilizer.Error
import Stabilizer.Pauli.Basic
import Stabilizer.Text.WhiteSpace
/-!
# Pauli strings as text

A Pauli string is written as its sign and its letters, `+XZI`; the dotted style writes `.` for an
identity, `+XZ.`.

Reading is freer: blanks count for nothing, the sign may be left out and then is plus, and an
identity is written in either style.  `parse` refuses a text at the first character of the letters
that is none of these.
-/

namespace Stabilizer

open Text

/-- How an identity is written. -/
inductive Style where
  | plain
  | dotted
  deriving DecidableEq, Repr

/-! ### Writing -/

/-- The letter as a character (`Pauli::fmt`, pauli 33-38). -/
def Pauli.symbol (style : Style) : Pauli → Char
  | .I => match style with
    | .plain => 'I'
    | .dotted => '.'
  | .X => 'X'
  | .Y => 'Y'
  | .Z => 'Z'

/-- The sign as a character (`Sign::fmt`, pauli 93-98). -/
def Sign.symbol : Sign → Char
  | .plus => '+'
  | .minus => '-'

def Sign.name : Sign → String
  | .plus => "Plus"
  | .minus => "Minus"

namespace PauliString

/-- The sign and the letters (`PauliString::fmt`, pauli 128-132). -/
def render (style : Style) (p : PauliString) : List Char :=
  p.sign.symbol :: p.letters.map (Pauli.symbol style)

/-- The string in the plain style, as a `String`. -/
def toText (p : PauliString) : String := String.ofList (p.render .plain)

def dump (p : PauliString) : Dump :=
  .record "PauliString"
    [("sign", .word p.sign.name),
      ("ops", .words (p.letters.map fun letter => (letter.symbol .plain).toString))]

end PauliString

/-! ### Reading -/

/-- The letter of a character (`from_char`, pauli 71-79). -/
def Pauli.ofSymbol? : Char → Option Pauli
  | 'I' | '.' => some .I
  | 'X' => some .X
  | 'Y' => some .Y
  | 'Z' => some .Z
  | _ => none

@[simp] theorem Pauli.ofSymbol?_symbol (style : Style) (p : Pauli) :
    Pauli.ofSymbol? (p.symbol style) = some p := by
  cases style <;> cases p <;> rfl

namespace PauliString

/-- The sign that a text begins with, plus if none, and what follows it (`from_str`, pauli 140-145). -/
def splitSign : List Char → Sign × List Char
  | '+' :: body => (.plus, body)
  | '-' :: body => (.minus, body)
  | body => (.plus, body)

/-- The letters of a text without its blanks, or its first character that is no letter (`from_str`,
pauli 146-150). -/
def readLetters : List Char → Except Error (List Pauli)
  | [] => .ok []
  | c :: rest =>
    if isBlank c then readLetters rest
    else
      match Pauli.ofSymbol? c with
      | none => .error (.invalidPauli c)
      | some letter => (readLetters rest).map (letter :: ·)

/-- Reads a Pauli string: blanks at both ends are dropped, then one sign is taken, then letters
(`from_str`, pauli 138-152). -/
def parse (text : List Char) : Except Error PauliString :=
  let (sign, body) := splitSign (trim text)
  (readLetters body).map fun letters => ⟨sign, letters⟩

example : parse " - X .Z\n".toList = .ok ⟨.minus, [.X, .I, .Z]⟩ := by rfl

example : parse "--X".toList = .error (.invalidPauli '-') := by rfl

end PauliString

end Stabilizer
