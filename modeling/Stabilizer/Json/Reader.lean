import Stabilizer.Json.Lexeme
/-!
# Reading JSON values

A reader takes a value off the front of a list of lexemes, or gives the first fault from the left.
Flags, natural numbers and lists are read into values of their type; `skipValue` passes over a value
of any kind.
-/

namespace Stabilizer.Json

/-- Reads a value and returns the lexemes after it. -/
abbrev Reader (α : Type) := List Lexeme → Except Fault (α × List Lexeme)

/-- The fault of a lexeme where a value of another kind is wanted: its own if it is broken, else
that of the kind.  A number out of range counts as broken, a mark that opens a list or an object as
a value of another kind, any other mark as no value. -/
def wrongKind : Lexeme → Fault
  | .mark .openBrace | .mark .openBracket => .mistyped
  | .mark _ | .stray => .malformed
  | .literal (.ok _) => .mistyped
  | .literal (.error fault) => fault
  | .number (.ok x) => if x.outOfRange then .malformed else .mistyped
  | .number (.error fault) => fault
  | .text (.ok _) _ => .mistyped
  | .text (.error fault) _ => fault

/-! ### Values of a type -/

def readFlag : Reader Bool
  | [] => .error .ended
  | .literal (.ok (.flag value)) :: rest => .ok (value, rest)
  | l :: _ => .error (wrongKind l)

def readNatural : Reader Nat
  | [] => .error .ended
  | l :: rest =>
    match l with
    | .number (.ok x) =>
      match x.natural? with
      | some value => .ok (value, rest)
      | none => .error (wrongKind l)
    | _ => .error (wrongKind l)

def readMark (m : Mark) : List Lexeme → Except Fault (List Lexeme)
  | [] => .error .ended
  | .mark m' :: rest => if m' = m then .ok rest else .error .malformed
  | _ :: _ => .error .malformed

/-- Reads items up to the closing bracket, at least one and at most as many as the bound. -/
def readItems {α : Type} (item : Reader α) : Nat → Reader (List α)
  | 0, _ => .error .ended
  | bound + 1, ls =>
    match item ls with
    | .error fault => .error fault
    | .ok (value, ls) =>
      match ls with
      | [] => .error .ended
      | .mark .closeBracket :: rest => .ok ([value], rest)
      | .mark .comma :: ls =>
        (readItems item bound ls).map fun (values, rest) => (value :: values, rest)
      | _ :: _ => .error .malformed

/-- Reads a list of items.  The bound is only there to end the recursion: every item takes a lexeme,
so the number of lexemes is enough. -/
def readList {α : Type} (bound : Nat) (item : Reader α) : Reader (List α)
  | [] => .error .ended
  | .mark .openBracket :: .mark .closeBracket :: rest => .ok ([], rest)
  | .mark .openBracket :: ls => readItems item bound ls
  | l :: _ => .error (wrongKind l)

/-! ### Values of any kind -/

inductive Opened where
  | list
  | object
  deriving DecidableEq, Repr

/-- What may come next while a value is passed over. -/
inductive Awaited where
  | value
  /-- The first value of a list, or its end. -/
  | valueOrEnd
  | name
  /-- The name of the first member of an object, or its end. -/
  | nameOrEnd
  | colon
  /-- A comma, or the end of the list or object. -/
  | commaOrEnd
  deriving DecidableEq, Repr

/-- What comes after a value or an end, inside the given lists and objects: past the outermost one
nothing more. -/
def afterValue : List Opened → Option Awaited
  | [] => none
  | _ :: _ => some .commaOrEnd

def afterComma : Opened → Awaited
  | .list => .value
  | .object => .name

/-- The fault of a lexeme that begins no value, when values are only passed over. -/
def skipFault : Lexeme → Option Fault
  | .literal (.ok _) => none
  | .literal (.error fault) => some fault
  | .number (.ok _) => none
  | .number (.error _) => some .malformed
  | .text _ (.ok _) => none
  | .text _ (.error fault) => some fault
  | .mark _ | .stray => some .malformed

/-- One step of passing over: the lists and objects then open, and what may come then, if
anything. -/
def skipStep (opened : List Opened) (awaited : Awaited) (l : Lexeme) :
    Except Fault (List Opened × Option Awaited) :=
  match awaited, l with
  | .value, .mark .openBracket | .valueOrEnd, .mark .openBracket =>
    .ok (.list :: opened, some .valueOrEnd)
  | .value, .mark .openBrace | .valueOrEnd, .mark .openBrace =>
    .ok (.object :: opened, some .nameOrEnd)
  | .valueOrEnd, .mark .closeBracket | .nameOrEnd, .mark .closeBrace =>
    .ok (opened.tail, afterValue opened.tail)
  | .value, l | .valueOrEnd, l =>
    match skipFault l with
    | none => .ok (opened, afterValue opened)
    | some fault => .error fault
  | .name, .text _ (.ok _) | .nameOrEnd, .text _ (.ok _) => .ok (opened, some .colon)
  | .name, .text _ (.error fault) | .nameOrEnd, .text _ (.error fault) => .error fault
  | .name, _ | .nameOrEnd, _ => .error .malformed
  | .colon, .mark .colon => .ok (opened, some .value)
  | .colon, _ => .error .malformed
  | .commaOrEnd, l =>
    match opened, l with
    | .list :: outer, .mark .closeBracket => .ok (outer, afterValue outer)
    | .object :: outer, .mark .closeBrace => .ok (outer, afterValue outer)
    | innermost :: _, .mark .comma => .ok (opened, some (afterComma innermost))
    | _, _ => .error .malformed

/-- Passes over lexemes until nothing more may come. -/
def skipFrom (opened : List Opened) (awaited : Awaited) : List Lexeme → Except Fault (List Lexeme)
  | [] => .error .ended
  | l :: rest =>
    match skipStep opened awaited l with
    | .error fault => .error fault
    | .ok (_, none) => .ok rest
    | .ok (opened, some awaited) => skipFrom opened awaited rest

def skipValue : List Lexeme → Except Fault (List Lexeme) := skipFrom [] .value

end Stabilizer.Json
