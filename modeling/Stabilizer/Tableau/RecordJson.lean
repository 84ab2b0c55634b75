import Stabilizer.Json.Reader
import Stabilizer.Tableau.Record
/-!
# Records as JSON

A record is written as an object with the members `n`, `rs`, `xs` and `zs`, without blanks.

Reading accepts these members in any order and passes over others, whatever they hold; a member that
is missing or comes twice makes the record mistyped.  A list of the four values in their order is a
record too.  The text is read from the left, and the first fault is the one reported; a record that
is complete but fits no tableau is refused before the text behind it is looked at.
-/

namespace Stabilizer

open Json

/-! ### Writing -/

namespace Record

def flagJson (value : Bool) : List Char := (Text.flagName value).toList

def listJson {α : Type} (item : α → List Char) (items : List α) : List Char :=
  '[' :: List.intercalate [','] (items.map item) ++ [']']

def memberJson (name : String) (value : List Char) : List Char :=
  '"' :: name.toList ++ '"' :: ':' :: value

/-- Writes the fields in the order in which the record has them (`TableauRecord`, record 17-23). -/
def toJson (r : Record) : List Char :=
  '{' ::
    List.intercalate [',']
      [memberJson "n" (Nat.toDigits 10 r.n),
        memberJson "rs" (listJson flagJson r.rs),
        memberJson "xs" (listJson (listJson flagJson) r.xs),
        memberJson "zs" (listJson (listJson flagJson) r.zs)] ++
    ['}']

/-! ### Reading the members -/

inductive Member where
  | n
  | rs
  | xs
  | zs
  deriving DecidableEq, Repr

def Member.ofName? : List Char → Option Member
  | ['n'] => some .n
  | ['r', 's'] => some .rs
  | ['x', 's'] => some .xs
  | ['z', 's'] => some .zs
  | _ => none

/-- A record of which some members were read. -/
structure Draft where
  n : Option Nat
  rs : Option (List Bool)
  xs : Option (List (List Bool))
  zs : Option (List (List Bool))

namespace Draft

def empty : Draft := ⟨none, none, none, none⟩

def has (d : Draft) : Member → Bool
  | .n => d.n.isSome
  | .rs => d.rs.isSome
  | .xs => d.xs.isSome
  | .zs => d.zs.isSome

def read (bound : Nat) (d : Draft) (m : Member) : Reader Draft := fun ls =>
  match m with
  | .n => (readNatural ls).map fun (value, rest) => ({ d with n := some value }, rest)
  | .rs => (readList bound readFlag ls).map fun (value, rest) => ({ d with rs := some value }, rest)
  | .xs =>
    (readList bound (readList bound readFlag) ls).map fun (value, rest) =>
      ({ d with xs := some value }, rest)
  | .zs =>
    (readList bound (readList bound readFlag) ls).map fun (value, rest) =>
      ({ d with zs := some value }, rest)

def finish (d : Draft) : Except Fault Record :=
  match d with
  | ⟨some n, some rs, some xs, some zs⟩ => .ok ⟨n, rs, xs, zs⟩
  | _ => .error .mistyped

end Draft

/-! ### Reading an object -/

/-- Reads the value of a member after its name, or passes over it if the name is no record's. -/
def readMember (bound : Nat) (d : Draft) (name : List Char) : Reader Draft := fun ls =>
  match Member.ofName? name with
  | some m =>
    if d.has m then .error .mistyped
    else do
      let ls ← readMark .colon ls
      d.read bound m ls
  | none => do
    let ls ← readMark .colon ls
    let ls ← skipValue ls
    return (d, ls)

/-- Reads members up to the closing brace, the first of which begins here. -/
def readMembers (bound : Nat) : Nat → Draft → Reader Record
  | 0, _, _ => .error .ended
  | _ + 1, _, [] => .error .ended
  | left + 1, d, .text name _ :: ls =>
    match name with
    | .error fault => .error fault
    | .ok name =>
      match readMember bound d name ls with
      | .error fault => .error fault
      | .ok (_, []) => .error .ended
      | .ok (d, .mark .closeBrace :: rest) => d.finish.map fun record => (record, rest)
      | .ok (d, .mark .comma :: ls) => readMembers bound left d ls
      | .ok (_, _ :: _) => .error .malformed
  | _ + 1, _, _ :: _ => .error .malformed

/-- Reads an object after its opening brace. -/
def readObject (bound : Nat) : Reader Record
  | .mark .closeBrace :: rest => Draft.empty.finish.map fun record => (record, rest)
  | ls => readMembers bound bound Draft.empty ls

/-! ### Reading a list -/

/-- Takes the comma before the next of the four values. -/
def nextElement : List Lexeme → Except Fault (List Lexeme)
  | [] => .error .ended
  | .mark .comma :: rest => .ok rest
  | .mark .closeBracket :: _ => .error .mistyped
  | _ :: _ => .error .malformed

/-- Reads the four values after an opening bracket. -/
def readElements (bound : Nat) : Reader Record := fun ls => do
  if let .mark .closeBracket :: _ := ls then throw .mistyped
  let (n, ls) ← readNatural ls
  let (rs, ls) ← readList bound readFlag (← nextElement ls)
  let (xs, ls) ← readList bound (readList bound readFlag) (← nextElement ls)
  let (zs, ls) ← readList bound (readList bound readFlag) (← nextElement ls)
  return (⟨n, rs, xs, zs⟩, ← readMark .closeBracket ls)

/-! ### Reading a text -/

def read : Reader Record
  | [] => .error .ended
  | .mark .openBrace :: ls => readObject ls.length ls
  | .mark .openBracket :: ls => readElements ls.length ls
  | l :: _ => .error (wrongKind l)

inductive JsonError where
  | unreadable (fault : Fault)
  /-- The text holds a record that fits no tableau. -/
  | refused (error : Error)
  deriving DecidableEq, Repr

end Record

namespace Tableau

/-- Writes a tableau through its record (`Tableau`, tableau 126, and record 93-95). -/
def toJson {n : Nat} (t : Tableau n) : List Char := t.toRecord.toJson

/-- Reads a tableau through a record (`Tableau`, tableau 126, and `try_from`, record 97-103). -/
def ofJson (text : List Char) : Except Record.JsonError ((n : Nat) × Tableau n) :=
  match Record.read (lex text) with
  | .error fault => .error (.unreadable fault)
  | .ok (record, rest) =>
    match ofRecord record with
    | .error error => .error (.refused error)
    | .ok t => if rest.isEmpty then .ok ⟨record.n, t⟩ else .error (.unreadable .malformed)

end Tableau

end Stabilizer
