import Stabilizer.Json.Number
/-!
# JSON lexemes

A JSON text is cut into lexemes: marks, literals, numbers and texts.  Blanks between lexemes are
dropped.  A lexeme that is not well formed stands in the list with its fault, and nothing follows
it: the fault counts only for a reader that gets that far and wants a lexeme of that kind.
-/

namespace Stabilizer.Json

inductive Mark where
  | openBrace
  | closeBrace
  | openBracket
  | closeBracket
  | colon
  | comma
  deriving DecidableEq, Repr

inductive Literal where
  | null
  | flag (value : Bool)
  deriving DecidableEq, Repr

/-- A piece of a JSON text. -/
inductive Lexeme where
  | mark (m : Mark)
  | literal (value : Except Fault Literal)
  | number (value : Except Fault Number)
  /-- A text in quotes: what it says, which needs paired surrogates, and whether it ends properly,
  which does not. -/
  | text (value : Except Fault (List Char)) (complete : Except Fault Unit)
  /-- A character that begins no lexeme. -/
  | stray

/-! ### Marks and literals -/

def isBlank (c : Char) : Bool := c == ' ' || c == '\n' || c == '\t' || c == '\r'

def Mark.ofChar? : Char → Option Mark
  | '{' => some .openBrace
  | '}' => some .closeBrace
  | '[' => some .openBracket
  | ']' => some .closeBracket
  | ':' => some .colon
  | ',' => some .comma
  | _ => none

/-- What follows the expected characters. -/
def expect : List Char → List Char → Except Fault (List Char)
  | [], text => .ok text
  | _ :: _, [] => .error .ended
  | e :: expected, c :: text => if c = e then expect expected text else .error .malformed

/-- The literal that a letter begins, and the letters that complete it. -/
def Literal.ofChar? : Char → Option (Literal × List Char)
  | 'n' => some (.null, ['u', 'l', 'l'])
  | 't' => some (.flag true, ['r', 'u', 'e'])
  | 'f' => some (.flag false, ['a', 'l', 's', 'e'])
  | _ => none

theorem length_of_expect {expected text rest : List Char} (h : expect expected text = .ok rest) :
    rest.length ≤ text.length := by
  fun_induction expect expected text with
  | case1 => cases h; exact Nat.le_refl _
  | case2 => cases h
  | case3 _ _ _ ih => exact Nat.le_succ_of_le (ih h)
  | case4 => cases h

/-! ### Texts in quotes -/

def hexDigit? (c : Char) : Option Nat :=
  if '0' ≤ c ∧ c ≤ '9' then some (c.toNat - '0'.toNat)
  else if 'a' ≤ c ∧ c ≤ 'f' then some (c.toNat - 'a'.toNat + 10)
  else if 'A' ≤ c ∧ c ≤ 'F' then some (c.toNat - 'A'.toNat + 10)
  else none

def hexUnit? (a b c d : Char) : Option Nat := do
  let a ← hexDigit? a
  let b ← hexDigit? b
  let c ← hexDigit? c
  let d ← hexDigit? d
  return ((a * 16 + b) * 16 + c) * 16 + d

/-- The fault of a code escape that lacks its four digits: the text has ended if fewer than four
bytes are left in it. -/
def hexFault (text : List Char) : Fault :=
  if text.foldl (fun bytes c => bytes + c.utf8Size) 0 < 4 then .ended else .malformed

def shortEscape? : Char → Option Char
  | '"' => some '"'
  | '\\' => some '\\'
  | '/' => some '/'
  | 'b' => some '\x08'
  | 'f' => some '\x0c'
  | 'n' => some '\n'
  | 'r' => some '\r'
  | 't' => some '\t'
  | _ => none

def isLeading (unit : Nat) : Bool := 0xD800 ≤ unit && unit ≤ 0xDBFF

def isTrailing (unit : Nat) : Bool := 0xDC00 ≤ unit && unit ≤ 0xDFFF

def pairChar (leading trailing : Nat) : Char :=
  Char.ofNat (0x10000 + (leading - 0xD800) * 0x400 + (trailing - 0xDC00))

/-- What follows the closing quote, the text being only checked for its form. -/
def skipText : List Char → Except Fault (List Char)
  | [] => .error .ended
  | '"' :: rest => .ok rest
  | '\\' :: 'u' :: a :: b :: c :: d :: rest =>
    if (hexUnit? a b c d).isSome then skipText rest
    else .error (hexFault (a :: b :: c :: d :: rest))
  | '\\' :: 'u' :: rest => .error (hexFault rest)
  | '\\' :: c :: rest => if (shortEscape? c).isSome then skipText rest else .error .malformed
  | ['\\'] => .error .ended
  | c :: rest => if c.toNat < 0x20 then .error .malformed else skipText rest

theorem length_of_skipText {text rest : List Char} (h : skipText text = .ok rest) :
    rest.length ≤ text.length := by
  fun_induction skipText text with
  | case2 => cases h; exact Nat.le_succ _
  | case3 _ _ _ _ _ _ ih =>
    have := ih h
    simp only [List.length_cons]
    omega
  | case6 =>
    rename_i ih
    have := ih h
    simp only [List.length_cons]
    omega
  | case10 =>
    rename_i ih
    exact Nat.le_succ_of_le (ih h)
  | _ => cases h

/-- What the text up to the closing quote says. -/
def readText : List Char → Except Fault (List Char)
  | [] => .error .ended
  | '"' :: _ => .ok []
  | '\\' :: 'u' :: a :: b :: c :: d :: rest =>
    match hexUnit? a b c d with
    | none => .error (hexFault (a :: b :: c :: d :: rest))
    | some unit =>
      if isTrailing unit then .error .malformed
      else if isLeading unit then
        match rest with
        | [] | ['\\'] => .error .ended
        | '\\' :: 'u' :: e :: f :: g :: h :: rest =>
          match hexUnit? e f g h with
          | none => .error (hexFault (e :: f :: g :: h :: rest))
          | some second =>
            if isTrailing second then (readText rest).map (pairChar unit second :: ·)
            else .error .malformed
        | '\\' :: 'u' :: rest => .error (hexFault rest)
        | _ => .error .malformed
      else (readText rest).map (Char.ofNat unit :: ·)
  | '\\' :: 'u' :: rest => .error (hexFault rest)
  | '\\' :: c :: rest =>
    match shortEscape? c with
    | none => .error .malformed
    | some meant => (readText rest).map (meant :: ·)
  | ['\\'] => .error .ended
  | c :: rest => if c.toNat < 0x20 then .error .malformed else (readText rest).map (c :: ·)

/-! ### Lexemes -/

/-- The lexeme that a text begins with, where the text begins with no blank, and what follows it
unless the lexeme is broken. -/
def nextLexeme (c : Char) (text : List Char) : Lexeme × Option (List Char) :=
  match Mark.ofChar? c with
  | some m => (.mark m, some text)
  | none =>
    match Literal.ofChar? c with
    | some (value, letters) =>
      match expect letters text with
      | .ok rest => (.literal (.ok value), some rest)
      | .error fault => (.literal (.error fault), none)
    | none =>
      if c = '"' then
        match skipText text with
        | .ok rest => (.text (readText text) (.ok ()), some rest)
        | .error fault => (.text (readText text) (.error fault), none)
      else if c = '-' ∨ c.isDigit then
        match Number.scan (c :: text) with
        | .ok (value, rest) => (.number (.ok value), some rest)
        | .error fault => (.number (.error fault), none)
      else (.stray, none)

/-- What follows a lexeme is shorter than the text that began with it. -/
theorem length_of_nextLexeme {c : Char} {text rest : List Char} {l : Lexeme}
    (h : nextLexeme c text = (l, some rest)) : rest.length ≤ text.length := by
  unfold nextLexeme at h
  split at h
  · cases h; exact Nat.le_refl _
  split at h
  · split at h
    next he => cases h; exact length_of_expect he
    · cases h
  split at h
  · split at h
    next hs => cases h; exact length_of_skipText hs
    · cases h
  split at h
  · split at h
    next hn => cases h; exact Nat.le_of_lt_succ (Number.length_of_scan hn)
    · cases h
  · cases h

def lex : List Char → List Lexeme
  | [] => []
  | c :: text =>
    if isBlank c then lex text
    else
      match _h : nextLexeme c text with
      | (l, none) => [l]
      | (l, some rest) => l :: lex rest
  termination_by text => text.length
  decreasing_by
    · simp
    · exact Nat.lt_succ_of_le (length_of_nextLexeme ‹_›)

end Stabilizer.Json
