import Stabilizer.Json.Lexeme
import Stabilizer.Text.Dump
/-!
# The texts of JSON tokens

A token is what a lexeme says: a mark, a flag, a natural number, or a name.  Flags and numbers have one
text each; a letter of a name is written as it is or by its code.  Tokens stand one after the other,
with any blanks before, between and after them.

Whatever the blanks and the codes, such a text is cut into the lexemes of its tokens (`lex_of_spells`).
The one thing to see to is where a number ends: what follows it must not go on with it, and a mark does
not.
-/

namespace Stabilizer.Json

/-- A token of a JSON text, by what it says. -/
inductive Token where
  | mark (m : Mark)
  | flag (value : Bool)
  | natural (value : Nat)
  | name (letters : List Char) (alpha : ∀ c ∈ letters, c.isAlpha = true)

/-! ## Writing -/

def Mark.symbol : Mark → Char
  | .openBrace => '{'
  | .closeBrace => '}'
  | .openBracket => '['
  | .closeBracket => ']'
  | .colon => ':'
  | .comma => ','

/-- The text of a token with every letter as it is. -/
def Token.symbols : Token → List Char
  | .mark m => [m.symbol]
  | .flag value => (Text.flagName value).toList
  | .natural value => Nat.toDigits 10 value
  | .name letters _ => '"' :: letters ++ ['"']

/-- The symbols of a hexadecimal digit, in small and in capital letters. -/
def hexSymbols (digit : Nat) : List Char := [Nat.digitChar digit, (Nat.digitChar digit).toUpper]

/-- The four digits are the code of the letter. -/
structure IsCode (letter a b c d : Char) : Prop where
  first : a ∈ hexSymbols (letter.toNat / 4096)
  second : b ∈ hexSymbols (letter.toNat / 256 % 16)
  third : c ∈ hexSymbols (letter.toNat / 16 % 16)
  fourth : d ∈ hexSymbols (letter.toNat % 16)

/-- A text of some letters: each is written as it is or by its code. -/
inductive Spelled : List Char → List Char → Prop
  | nil : Spelled [] []
  | plain {letters text : List Char} (letter : Char) (rest : Spelled letters text) :
      Spelled (letter :: letters) (letter :: text)
  | code {letters text : List Char} {letter a b c d : Char} (digits : IsCode letter a b c d)
      (rest : Spelled letters text) :
      Spelled (letter :: letters) ('\\' :: 'u' :: a :: b :: c :: d :: text)

/-- A text of one token. -/
inductive Token.Written : Token → List Char → Prop
  | mark (m : Mark) : Token.Written (.mark m) [m.symbol]
  | flag (value : Bool) : Token.Written (.flag value) (Text.flagName value).toList
  | natural (value : Nat) : Token.Written (.natural value) (Nat.toDigits 10 value)
  | name {letters text : List Char} {alpha : ∀ c ∈ letters, c.isAlpha = true}
      (spelled : Spelled letters text) : Token.Written (.name letters alpha) ('"' :: text ++ ['"'])

/-- A text of some tokens, with blanks anywhere but inside of them. -/
inductive Spells : List Char → List Token → Prop
  | nil {blanks : List Char} (blank : ∀ c ∈ blanks, isBlank c = true) : Spells blanks []
  | cons {blanks piece rest : List Char} {t : Token} {ts : List Token}
      (blank : ∀ c ∈ blanks, isBlank c = true) (written : t.Written piece)
      (others : Spells rest ts) : Spells (blanks ++ piece ++ rest) (t :: ts)

theorem spelled_self (letters : List Char) : Spelled letters letters := by
  induction letters with
  | nil => exact .nil
  | cons letter _ ih => exact .plain letter ih

theorem Token.written_symbols (t : Token) : t.Written t.symbols := by
  cases t with
  | mark m => exact .mark m
  | flag value => exact .flag value
  | natural value => exact .natural value
  | name letters _ => exact .name (spelled_self letters)

/-- The tokens with the given blanks before each. -/
theorem spells_flatMap (blanks : Token → List Char) (blank : ∀ t, ∀ c ∈ blanks t, isBlank c = true)
    (ts : List Token) : Spells (ts.flatMap fun t => blanks t ++ t.symbols) ts := by
  induction ts with
  | nil => exact .nil (by simp)
  | cons t ts ih =>
    rw [List.flatMap_cons]
    exact .cons (blank t) t.written_symbols ih

/-! ## Cutting -/

/-- The lexeme of a token. -/
def Token.lexeme : Token → Lexeme
  | .mark m => .mark m
  | .flag value => .literal (.ok (.flag value))
  | .natural value => .number (.ok ⟨false, Nat.toDigits 10 value, none, none⟩)
  | .name letters _ => .text (.ok letters) (.ok ())

theorem lex_blanks {blanks : List Char} (blank : ∀ c ∈ blanks, isBlank c = true)
    (text : List Char) : lex (blanks ++ text) = lex text := by
  induction blanks with
  | nil => rfl
  | cons c blanks ih =>
    rw [List.cons_append, lex, if_pos (blank c List.mem_cons_self)]
    exact ih fun c hc => blank c (List.mem_cons_of_mem _ hc)

theorem lex_cons_of_nextLexeme {c : Char} {text rest : List Char} {l : Lexeme}
    (start : isBlank c = false) (next : nextLexeme c text = (l, some rest)) :
    lex (c :: text) = l :: lex rest := by
  rw [lex, start]
  simp only [Bool.false_eq_true, if_false]
  split
  · rename_i other
    rw [next] at other
    cases other
  · rename_i other
    rw [next] at other
    cases other
    rfl

theorem lex_mark (m : Mark) (rest : List Char) : lex (m.symbol :: rest) = .mark m :: lex rest := by
  apply lex_cons_of_nextLexeme <;> cases m <;> rfl

theorem lex_flag (value : Bool) (rest : List Char) :
    lex ((Text.flagName value).toList ++ rest) = .literal (.ok (.flag value)) :: lex rest := by
  cases value
  · apply lex_cons_of_nextLexeme <;> rfl
  · apply lex_cons_of_nextLexeme <;> rfl

/-! ### Numbers -/

/-- A number that stands before the text ends there. -/
def EndsNumber (rest : List Char) : Prop :=
  ∀ c ∈ rest.head?, c.isDigit = false ∧ c ≠ '.' ∧ c ≠ 'e' ∧ c ≠ 'E'

theorem exists_toDigits_eq_cons (n : Nat) :
    ∃ d digits, Nat.toDigits 10 n = d :: digits ∧ d.isDigit = true := by
  cases h : Nat.toDigits 10 n with
  | nil => exact absurd h Nat.toDigits_ne_nil
  | cons d digits =>
    have first : d ∈ Nat.toDigits 10 n := h ▸ List.mem_cons_self
    exact ⟨d, digits, rfl, Nat.isDigit_of_mem_toDigits (by decide) (by decide) first⟩

/-- Only 0 is written with a leading 0. -/
theorem eq_zero_of_head?_toDigits {n : Nat} (h : (Nat.toDigits 10 n).head? = some '0') : n = 0 := by
  induction n using Nat.strongRecOn with
  | ind n ih =>
    by_cases small : n < 10
    · rw [Nat.toDigits_of_lt_base small] at h
      exact Nat.digitChar_eq_zero.1 (Option.some.inj h)
    · obtain ⟨d, digits, front, -⟩ := exists_toDigits_eq_cons (n / 10)
      have same : (Nat.toDigits 10 n).head? = (Nat.toDigits 10 (n / 10)).head? := by
        rw [Nat.toDigits_of_base_le (by decide) (Nat.le_of_not_lt small), front]
        rfl
      have := ih (n / 10) (by omega) (same ▸ h)
      omega

namespace Number

variable {rest : List Char}

theorem scanDigits_toDigits (n : Nat) (ends : EndsNumber rest) :
    scanDigits (Nat.toDigits 10 n ++ rest) = .ok (Nat.toDigits 10 n, rest) := by
  have digits : ∀ c ∈ Nat.toDigits 10 n, c.isDigit = true := fun c hc =>
    Nat.isDigit_of_mem_toDigits (by decide) (by decide) hc
  have stop : rest.takeWhile Char.isDigit = [] ∧ rest.dropWhile Char.isDigit = rest := by
    cases rest with
    | nil => exact ⟨rfl, rfl⟩
    | cons c rest =>
      have other := (ends c rfl).1
      simp [other]
  rw [scanDigits, List.takeWhile_append_of_pos digits, List.dropWhile_append_of_pos digits, stop.1,
    stop.2, List.append_nil]
  cases h : Nat.toDigits 10 n with
  | nil => exact absurd h Nat.toDigits_ne_nil
  | cons d digits => rfl

theorem scan_toDigits (n : Nat) (ends : EndsNumber rest) :
    scan (Nat.toDigits 10 n ++ rest) = .ok (⟨false, Nat.toDigits 10 n, none, none⟩, rest) := by
  have whole : scanWhole (Nat.toDigits 10 n ++ rest) = .ok (Nat.toDigits 10 n, rest) := by
    have leading : ¬ ((Nat.toDigits 10 n).head? = some '0' ∧ (Nat.toDigits 10 n).length ≠ 1) := by
      rintro ⟨zero, long⟩
      rw [eq_zero_of_head?_toDigits zero] at long
      exact long rfl
    simp only [scanWhole, scanDigits_toDigits n ends, bind, Except.bind, if_neg leading]
    rfl
  have fraction : scanFraction rest = .ok (none, rest) := by
    unfold scanFraction
    split
    · exact absurd rfl (ends _ rfl).2.1
    · rfl
  have exponent : scanExponent rest = .ok (none, rest) := by
    unfold scanExponent
    split
    all_goals first
      | rfl
      | exact absurd rfl (ends _ rfl).2.2.1
      | exact absurd rfl (ends _ rfl).2.2.2
  have parts : scanParts false (Nat.toDigits 10 n ++ rest) =
      .ok (⟨false, Nat.toDigits 10 n, none, none⟩, rest) := by
    simp only [scanParts, whole, fraction, exponent, bind, Except.bind]
    rfl
  obtain ⟨d, digits, start, digit⟩ := exists_toDigits_eq_cons n
  rw [start, List.cons_append] at parts ⊢
  unfold scan
  split
  · rename_i minus
    cases minus
    cases digit
  · exact parts

end Number

theorem nextLexeme_of_isDigit {d : Char} (digit : d.isDigit = true) {text rest : List Char}
    {x : Number} (scanned : Number.scan (d :: text) = .ok (x, rest)) :
    nextLexeme d text = (.number (.ok x), some rest) := by
  have no_mark : Mark.ofChar? d = none := by
    unfold Mark.ofChar?
    split <;> first | rfl | cases digit
  have no_literal : Literal.ofChar? d = none := by
    unfold Literal.ofChar?
    split <;> first | rfl | cases digit
  have no_quote : d ≠ '"' := by
    rintro rfl
    cases digit
  rw [nextLexeme, no_mark, no_literal]
  simp only [if_neg no_quote, if_pos (show d = '-' ∨ d.isDigit = true from .inr digit), scanned]

theorem lex_natural (n : Nat) {rest : List Char} (ends : EndsNumber rest) :
    lex (Nat.toDigits 10 n ++ rest) =
      .number (.ok ⟨false, Nat.toDigits 10 n, none, none⟩) :: lex rest := by
  have scanned := Number.scan_toDigits n ends
  obtain ⟨d, digits, start, digit⟩ := exists_toDigits_eq_cons n
  have no_blank : isBlank d = false := by
    simp only [isBlank, Bool.or_eq_false_iff, beq_eq_false_iff_ne]
    refine ⟨⟨⟨?_, ?_⟩, ?_⟩, ?_⟩ <;> (rintro rfl; cases digit)
  rw [start, List.cons_append] at scanned ⊢
  exact lex_cons_of_nextLexeme no_blank (nextLexeme_of_isDigit digit scanned)

/-! ### Names -/

theorem hexDigit?_of_mem {v : Nat} (hv : v < 16) {c : Char} (h : c ∈ hexSymbols v) :
    hexDigit? c = some v := by
  have table : ∀ v < 16, (hexSymbols v).all (hexDigit? · = some v) = true := by decide
  exact of_decide_eq_true (List.all_eq_true.1 (table v hv) c h)

/-- The digits of a code are read as the code. -/
theorem IsCode.hexUnit?_eq {letter a b c d : Char} (h : IsCode letter a b c d)
    (range : letter.toNat < 65536) : hexUnit? a b c d = some letter.toNat := by
  have value : ((letter.toNat / 4096 * 16 + letter.toNat / 256 % 16) * 16 + letter.toNat / 16 % 16) * 16
      + letter.toNat % 16 = letter.toNat := by omega
  simp only [hexUnit?, hexDigit?_of_mem (by omega) h.first, hexDigit?_of_mem (by omega) h.second,
    hexDigit?_of_mem (by omega) h.third, hexDigit?_of_mem (by omega) h.fourth, bind, Option.bind, pure,
    value]

theorem toNat_of_isAlpha {c : Char} (h : c.isAlpha = true) : 32 ≤ c.toNat ∧ c.toNat < 128 := by
  show 32 ≤ c.val.toNat ∧ c.val.toNat < 128
  have cases : c.isUpper = true ∨ c.isLower = true := Bool.or_eq_true_iff.1 h
  rcases cases with upper | lower
  · have range : 65 ≤ c.val.toNat ∧ c.val.toNat ≤ 90 := of_decide_eq_true upper
    omega
  · have low : 97 ≤ c.val.toNat := of_decide_eq_true (Bool.and_eq_true_iff.1 lower).1
    have high : c.val.toNat ≤ 122 := of_decide_eq_true (Bool.and_eq_true_iff.1 lower).2
    omega

section Letter

variable {letter : Char} (alpha : letter.isAlpha = true) (rest : List Char)

include alpha

theorem skipText_letter : skipText (letter :: rest) = skipText rest := by
  have no_quote : letter ≠ '"' := by rintro rfl; cases alpha
  have no_escape : letter ≠ '\\' := by rintro rfl; cases alpha
  rw [skipText]
  · exact if_neg (Nat.not_lt.2 (toNat_of_isAlpha alpha).1)
  all_goals simp [no_quote, no_escape]

theorem readText_letter : readText (letter :: rest) = (readText rest).map (letter :: ·) := by
  have no_quote : letter ≠ '"' := by rintro rfl; cases alpha
  have no_escape : letter ≠ '\\' := by rintro rfl; cases alpha
  rw [readText]
  · exact if_neg (Nat.not_lt.2 (toNat_of_isAlpha alpha).1)
  all_goals simp [no_quote, no_escape]

variable {a b c d : Char} (digits : IsCode letter a b c d)

include digits

theorem skipText_code :
    skipText ('\\' :: 'u' :: a :: b :: c :: d :: rest) = skipText rest := by
  have range := toNat_of_isAlpha alpha
  rw [skipText, digits.hexUnit?_eq (by omega)]
  rfl

/-- A code of a letter is none of a surrogate. -/
theorem readText_code : readText ('\\' :: 'u' :: a :: b :: c :: d :: rest) =
    (readText rest).map (letter :: ·) := by
  have range := toNat_of_isAlpha alpha
  have trailing : isTrailing letter.toNat = false := by
    simp only [isTrailing, Bool.and_eq_false_iff, decide_eq_false_iff_not]
    omega
  have leading : isLeading letter.toNat = false := by
    simp only [isLeading, Bool.and_eq_false_iff, decide_eq_false_iff_not]
    omega
  rw [readText, digits.hexUnit?_eq (by omega)]
  simp only [trailing, leading, Bool.false_eq_true, if_false, Char.ofNat_toNat]

end Letter

variable {letters text : List Char}

theorem skipText_of_spelled (h : Spelled letters text) (alpha : ∀ c ∈ letters, c.isAlpha = true)
    (rest : List Char) : skipText (text ++ '"' :: rest) = .ok rest := by
  induction h with
  | nil => rfl
  | plain letter _ ih =>
    obtain ⟨first, others⟩ := List.forall_mem_cons.1 alpha
    exact (skipText_letter first _).trans (ih others)
  | code digits _ ih =>
    obtain ⟨first, others⟩ := List.forall_mem_cons.1 alpha
    exact (skipText_code first _ digits).trans (ih others)

theorem readText_of_spelled (h : Spelled letters text) (alpha : ∀ c ∈ letters, c.isAlpha = true)
    (rest : List Char) : readText (text ++ '"' :: rest) = .ok letters := by
  induction h with
  | nil => rfl
  | plain letter _ ih =>
    obtain ⟨first, others⟩ := List.forall_mem_cons.1 alpha
    rw [List.cons_append, readText_letter first, ih others]
    rfl
  | code digits _ ih =>
    obtain ⟨first, others⟩ := List.forall_mem_cons.1 alpha
    refine (readText_code first _ digits).trans ?_
    rw [List.append_eq, ih others]
    rfl

theorem lex_name (h : Spelled letters text) (alpha : ∀ c ∈ letters, c.isAlpha = true)
    (rest : List Char) :
    lex ('"' :: text ++ '"' :: rest) = .text (.ok letters) (.ok ()) :: lex rest := by
  refine lex_cons_of_nextLexeme rfl ?_
  show nextLexeme '"' (text ++ '"' :: rest) = _
  have no_mark : Mark.ofChar? '"' = none := rfl
  have no_literal : Literal.ofChar? '"' = none := rfl
  rw [nextLexeme, no_mark, no_literal]
  simp only [skipText_of_spelled h alpha, readText_of_spelled h alpha, if_true]

/-! ### Tokens -/

/-- After a number stands a mark, or nothing. -/
def Separated : List Token → Prop
  | [] => True
  | .natural _ :: ts => (∀ t ∈ ts.head?, ∃ m, t = .mark m) ∧ Separated ts
  | _ :: ts => Separated ts

theorem endsNumber_blanks {blanks rest : List Char} (blank : ∀ c ∈ blanks, isBlank c = true)
    (ends : EndsNumber rest) : EndsNumber (blanks ++ rest) := by
  cases blanks with
  | nil => exact ends
  | cons c blanks =>
    have first := blank c List.mem_cons_self
    intro c' hc'
    cases hc'
    simp only [isBlank, Bool.or_eq_true, beq_iff_eq] at first
    rcases first with ((rfl | rfl) | rfl) | rfl <;> decide

theorem endsNumber_of_spells {text : List Char} {ts : List Token} (h : Spells text ts)
    (next : ∀ t ∈ ts.head?, ∃ m, t = .mark m) : EndsNumber text := by
  cases h with
  | nil blank =>
    rw [← List.append_nil text]
    exact endsNumber_blanks blank (by simp [EndsNumber])
  | @cons blanks piece rest t ts blank written others =>
    obtain ⟨m, rfl⟩ := next t rfl
    cases written
    rw [List.append_assoc]
    refine endsNumber_blanks blank ?_
    intro c hc
    cases hc
    cases m <;> decide

/-- **A text of tokens is cut into their lexemes.** -/
theorem lex_of_spells {text : List Char} {ts : List Token} (h : Spells text ts)
    (separated : Separated ts) : lex text = ts.map Token.lexeme := by
  induction h with
  | @nil blanks blank =>
    rw [← List.append_nil blanks, lex_blanks blank, lex]
    rfl
  | @cons blanks piece rest t ts blank written others ih =>
    rw [List.append_assoc, lex_blanks blank, List.map_cons]
    cases written with
    | mark m => exact (lex_mark m rest).trans (congrArg _ (ih separated))
    | flag value => exact (lex_flag value rest).trans (congrArg _ (ih separated))
    | natural value =>
      have ends := endsNumber_of_spells others separated.1
      exact (lex_natural value ends).trans (congrArg _ (ih separated.2))
    | @name letters text alpha spelled =>
      rw [List.append_assoc]
      exact (lex_name spelled alpha rest).trans (congrArg _ (ih separated))

end Stabilizer.Json
