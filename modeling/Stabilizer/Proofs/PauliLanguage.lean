import Mathlib.Data.List.Forall2
import Stabilizer.Pauli.Text
/-!
# The language of Pauli strings

A text is read as a Pauli string when, without the blanks at its ends and without one sign at its
beginning, it has symbols of letters and blanks only; these symbols are then the letters, in order.  Any
other text is refused at the first character that is neither (`FirstFault`).

What is written for a string, in either style, is one of its texts, and it stays one wherever blanks are
put into it: what is read depends on the characters that are no blanks, for trimming and skipping
blanks drops none of the others and the first of those that are left is the sign.
-/

namespace Stabilizer

/-! ## Blanks -/

namespace Text

/-- The text is its core with blanks around it, and the core has none at its ends. -/
structure Trimmed (text core : List Char) : Prop where
  around : ∃ before after, text = before ++ core ++ after ∧
    (∀ c ∈ before, isBlank c = true) ∧ ∀ c ∈ after, isBlank c = true
  first : ∀ c ∈ core.head?, isBlank c = false
  last : ∀ c ∈ core.getLast?, isBlank c = false

/-- The second text is the first one with blanks put into it. -/
inductive Padded : List Char → List Char → Prop
  | nil : Padded [] []
  | keep {text padded : List Char} (c : Char) (rest : Padded text padded) :
      Padded (c :: text) (c :: padded)
  | blank {text padded : List Char} {c : Char} (blank : isBlank c = true)
      (rest : Padded text padded) : Padded text (c :: padded)

/-- The characters of a text that are no blanks. -/
def withoutBlanks (text : List Char) : List Char := text.filter fun c => !isBlank c

variable {text core padded : List Char} {c : Char}

theorem withoutBlanks_cons_of_blank (blank : isBlank c = true) (text : List Char) :
    withoutBlanks (c :: text) = withoutBlanks text :=
  List.filter_cons_of_neg (by simp [blank])

theorem withoutBlanks_cons_of_not (solid : isBlank c = false) (text : List Char) :
    withoutBlanks (c :: text) = c :: withoutBlanks text :=
  List.filter_cons_of_pos (by simp [solid])

theorem withoutBlanks_of_blank (blank : ∀ c ∈ text, isBlank c = true) : withoutBlanks text = [] :=
  List.filter_eq_nil_iff.2 fun c hc => by simp [blank c hc]

theorem withoutBlanks_of_not (solid : ∀ c ∈ text, isBlank c = false) : withoutBlanks text = text :=
  List.filter_eq_self.2 fun c hc => by simp [solid c hc]

theorem Trimmed.withoutBlanks_eq (h : Trimmed text core) : withoutBlanks core = withoutBlanks text := by
  obtain ⟨before, after, rfl, blank, blank'⟩ := h.around
  have split : withoutBlanks (before ++ core ++ after) =
      withoutBlanks before ++ withoutBlanks core ++ withoutBlanks after := by
    simp only [withoutBlanks, List.filter_append]
  rw [split, withoutBlanks_of_blank blank, withoutBlanks_of_blank blank', List.nil_append,
    List.append_nil]

theorem Padded.withoutBlanks_eq (h : Padded text padded) :
    withoutBlanks padded = withoutBlanks text := by
  induction h with
  | nil => rfl
  | keep c _ ih => simp only [withoutBlanks, List.filter_cons] at ih ⊢; rw [ih]
  | blank blank _ ih => rw [withoutBlanks_cons_of_blank blank, ih]

theorem exists_eq_append_trimStart (text : List Char) :
    ∃ before, text = before ++ trimStart text ∧ ∀ c ∈ before, isBlank c = true :=
  ⟨text.takeWhile isBlank, List.takeWhile_append_dropWhile.symm,
    fun c hc => List.all_eq_true.1 List.all_takeWhile c hc⟩

theorem exists_eq_trimEnd_append (text : List Char) :
    ∃ after, text = trimEnd text ++ after ∧ ∀ c ∈ after, isBlank c = true := by
  obtain ⟨before, split, blank⟩ := exists_eq_append_trimStart text.reverse
  refine ⟨before.reverse, ?_, fun c hc => blank c (List.mem_reverse.1 hc)⟩
  calc text = text.reverse.reverse := (List.reverse_reverse text).symm
    _ = (before ++ trimStart text.reverse).reverse := congrArg List.reverse split
    _ = trimEnd text ++ before.reverse := List.reverse_append

theorem trimmed_trim (text : List Char) : Trimmed text (trim text) := by
  obtain ⟨before, front, blank⟩ := exists_eq_append_trimStart text
  obtain ⟨after, back, blank'⟩ := exists_eq_trimEnd_append (trimStart text)
  refine ⟨⟨before, after, ?_, blank, blank'⟩, fun c hc => ?_, fun c hc => ?_⟩
  · rw [trim, List.append_assoc, ← back, ← front]
  · -- what begins the core begins the text without the blanks in front
    have begins : c ∈ (trimStart text).head? := by
      rw [back]
      exact List.mem_head?_append_of_mem_head? hc
    have stopped := List.head?_dropWhile_not isBlank text
    rw [trimStart, Option.mem_def] at begins
    rw [begins] at stopped
    simpa using stopped
  · have ends : c ∈ ((trimStart text).reverse.dropWhile isBlank).head? := by
      rwa [trim, trimEnd, List.getLast?_reverse] at hc
    have stopped := List.head?_dropWhile_not isBlank (trimStart text).reverse
    rw [Option.mem_def] at ends
    rw [ends] at stopped
    simpa using stopped

/-- A text that does not end with a blank keeps its end. -/
theorem trimEnd_eq_self (h : ∀ c ∈ text.getLast?, isBlank c = false) : trimEnd text = text := by
  obtain rfl | ⟨front, last, rfl⟩ := List.eq_nil_or_concat text
  · rfl
  · have solid : isBlank last = false := h last (by simp)
    simp [trimEnd, solid]

end Text

open Text

/-! ## Letters -/

/-- The symbols that stand for a letter. -/
def Pauli.symbols : Pauli → List Char
  | .I => ['I', '.']
  | .X => ['X']
  | .Y => ['Y']
  | .Z => ['Z']

theorem Pauli.ofSymbol?_eq_some_iff {c : Char} {letter : Pauli} :
    ofSymbol? c = some letter ↔ c ∈ letter.symbols := by
  constructor
  · intro h
    unfold ofSymbol? at h
    split at h <;> cases h <;> simp [symbols]
  · intro h
    cases letter <;> simp only [symbols, List.mem_cons, List.not_mem_nil, or_false] at h
    · rcases h with rfl | rfl <;> rfl
    all_goals subst h; rfl

namespace PauliString

/-- A character that may stand in the body of a text. -/
def Readable (c : Char) : Prop := isBlank c = true ∨ ∃ letter : Pauli, c ∈ letter.symbols

/-- The characters of the body that are no blanks are symbols of the letters, in order. -/
def Spells (body : List Char) (letters : List Pauli) : Prop :=
  List.Forall₂ (fun c letter => c ∈ Pauli.symbols letter) (withoutBlanks body) letters

/-- The first character of a body that may not stand there. -/
inductive FirstFault : List Char → Char → Prop
  | here {c : Char} (rest : List Char) (fault : ¬ Readable c) : FirstFault (c :: rest) c
  | later {c d : Char} {rest : List Char} (readable : Readable d) (fault : FirstFault rest c) :
      FirstFault (d :: rest) c

variable {body : List Char} {letters : List Pauli} {c : Char}

theorem readLetters_of_blank (blank : isBlank c = true) (rest : List Char) :
    readLetters (c :: rest) = readLetters rest := by
  rw [readLetters, if_pos blank]

theorem readLetters_of_symbol (solid : isBlank c = false) {letter : Pauli} (symbol : c ∈ letter.symbols)
    (rest : List Char) : readLetters (c :: rest) = (readLetters rest).map (letter :: ·) := by
  rw [readLetters, if_neg (by simp [solid]), Pauli.ofSymbol?_eq_some_iff.2 symbol]

theorem readLetters_of_fault (fault : ¬ Readable c) (rest : List Char) :
    readLetters (c :: rest) = .error (.invalidPauli c) := by
  obtain ⟨solid, strange⟩ := not_or.1 fault
  have none : Pauli.ofSymbol? c = none :=
    Option.eq_none_iff_forall_ne_some.2 fun letter h => strange ⟨letter, Pauli.ofSymbol?_eq_some_iff.1 h⟩
  rw [readLetters, if_neg solid, none]

/-- A character of a body is a blank, a symbol of a letter, or a fault. -/
theorem char_cases (c : Char) : isBlank c = true ∨
    (isBlank c = false ∧ ∃ letter : Pauli, c ∈ letter.symbols) ∨ ¬ Readable c := by
  by_cases readable : Readable c
  · cases blank : isBlank c
    · exact .inr (.inl ⟨rfl, readable.resolve_left (by simp [blank])⟩)
    · exact .inl rfl
  · exact .inr (.inr readable)

theorem readLetters_eq_ok_iff : readLetters body = .ok letters ↔ Spells body letters := by
  induction body generalizing letters with
  | nil => simp [readLetters, Spells, withoutBlanks, eq_comm]
  | cons c rest ih =>
    obtain blank | ⟨solid, letter, symbol⟩ | fault := char_cases c
    · rw [readLetters_of_blank blank, ih, Spells, Spells, withoutBlanks_cons_of_blank blank]
    · rw [readLetters_of_symbol solid symbol, Spells, withoutBlanks_cons_of_not solid,
        List.forall₂_cons_left_iff]
      constructor
      · intro h
        cases others : readLetters rest with
        | error e => rw [others] at h; cases h
        | ok tail =>
          rw [others] at h
          cases h
          exact ⟨letter, tail, symbol, ih.1 others, rfl⟩
      · rintro ⟨letter', tail, symbol', others, rfl⟩
        -- a symbol stands for one letter only
        have same : letter' = letter := Option.some.inj
          ((Pauli.ofSymbol?_eq_some_iff.2 symbol').symm.trans (Pauli.ofSymbol?_eq_some_iff.2 symbol))
        rw [ih.2 others, same]
        rfl
    · rw [readLetters_of_fault fault]
      refine ⟨fun h => (by cases h), fun spells => ?_⟩
      obtain ⟨solid, strange⟩ := not_or.1 fault
      rw [Spells, withoutBlanks_cons_of_not (by simpa using solid), List.forall₂_cons_left_iff] at spells
      obtain ⟨letter, _, symbol, _⟩ := spells
      exact absurd ⟨letter, symbol⟩ strange

theorem firstFault_cons_iff {d : Char} (readable : Readable d) :
    FirstFault (d :: body) c ↔ FirstFault body c := by
  refine ⟨fun h => ?_, .later readable⟩
  cases h with
  | here _ fault => exact absurd readable fault
  | later _ fault => exact fault

theorem readLetters_eq_error_iff {error : Error} :
    readLetters body = .error error ↔ ∃ c, error = .invalidPauli c ∧ FirstFault body c := by
  induction body with
  | nil =>
    refine ⟨fun h => (by cases h), ?_⟩
    rintro ⟨c, -, fault⟩
    cases fault
  | cons d rest ih =>
    obtain blank | ⟨solid, letter, symbol⟩ | fault := char_cases d
    · simp only [readLetters_of_blank blank, ih, firstFault_cons_iff (.inl blank)]
    · simp only [firstFault_cons_iff (.inr ⟨letter, symbol⟩), ← ih, readLetters_of_symbol solid symbol]
      cases readLetters rest <;> simp [Except.map]
    · rw [readLetters_of_fault fault, Except.error.injEq]
      constructor
      · rintro rfl
        exact ⟨d, rfl, .here rest fault⟩
      · rintro ⟨c, rfl, first⟩
        cases first with
        | here => rfl
        | later readable => exact absurd readable fault

theorem exists_firstFault_iff : (∃ c, FirstFault body c) ↔ ∃ c ∈ body, ¬ Readable c := by
  constructor
  · rintro ⟨c, first⟩
    induction first with
    | here rest fault => exact ⟨_, List.mem_cons_self, fault⟩
    | later _ _ ih =>
      obtain ⟨c, hc, fault⟩ := ih
      exact ⟨c, List.mem_cons_of_mem _ hc, fault⟩
  · rintro ⟨c, hc, fault⟩
    induction body with
    | nil => cases hc
    | cons d rest ih =>
      by_cases readable : Readable d
      · have later : c ∈ rest := (List.mem_cons.1 hc).resolve_left fun same => fault (same ▸ readable)
        obtain ⟨c, first⟩ := ih later
        exact ⟨c, .later readable first⟩
      · exact ⟨d, .here rest readable⟩

theorem exists_readLetters_eq_ok_iff :
    (∃ letters, readLetters body = .ok letters) ↔ ∀ c ∈ body, Readable c := by
  constructor
  · rintro ⟨letters, read⟩ c hc
    by_contra strange
    obtain ⟨d, first⟩ := exists_firstFault_iff.2 ⟨c, hc, strange⟩
    cases read.symm.trans (readLetters_eq_error_iff.2 ⟨d, rfl, first⟩)
  · intro readable
    cases read : readLetters body with
    | ok letters => exact ⟨letters, rfl⟩
    | error error =>
      obtain ⟨d, -, first⟩ := readLetters_eq_error_iff.1 read
      obtain ⟨c, hc, strange⟩ := exists_firstFault_iff.1 ⟨d, first⟩
      exact absurd (readable c hc) strange

/-! ## Texts -/

/-- A text with a sign, or one without, which then is plus, and what follows the sign. -/
inductive Signed : List Char → Sign → List Char → Prop
  | written (sign : Sign) (body : List Char) : Signed (sign.symbol :: body) sign body
  | left_out {body : List Char} (unsigned : ∀ sign : Sign, body.head? ≠ some sign.symbol) :
      Signed body .plus body

theorem splitSign_symbol (sign : Sign) (body : List Char) :
    splitSign (sign.symbol :: body) = (sign, body) := by
  cases sign <;> rfl

theorem signed_splitSign (text : List Char) : Signed text (splitSign text).1 (splitSign text).2 := by
  by_cases signed : ∃ sign : Sign, text.head? = some sign.symbol
  · obtain ⟨sign, head⟩ := signed
    obtain ⟨body, rfl⟩ := List.head?_eq_some_iff.1 head
    rw [splitSign_symbol]
    exact .written sign body
  · rw [not_exists] at signed
    have all : splitSign text = (.plus, text) := by
      unfold splitSign
      split
      · exact absurd rfl (signed .plus)
      · exact absurd rfl (signed .minus)
      · rfl
    rw [all]
    exact .left_out signed

theorem parse_eq (text : List Char) : parse text =
    (readLetters (splitSign (trim text)).2).map (PauliString.mk (splitSign (trim text)).1) := rfl

/-- What is read depends on the characters that are no blanks. -/
theorem parse_of_withoutBlanks {text : List Char} {p : PauliString} {style : Style}
    (h : withoutBlanks text = p.render style) : parse text = .ok p := by
  have trimmed := trimmed_trim text
  have solid := trimmed.withoutBlanks_eq.trans h
  cases core : trim text with
  | nil =>
    rw [core] at solid
    cases solid
  | cons c body =>
    have first : isBlank c = false := trimmed.first c (by rw [core]; rfl)
    rw [core, withoutBlanks_cons_of_not first] at solid
    obtain ⟨rfl, rest⟩ := List.cons.inj solid
    have spells : Spells body p.letters := by
      rw [Spells, rest, List.forall₂_map_left_iff, List.forall₂_same]
      exact fun letter _ => Pauli.ofSymbol?_eq_some_iff.1 (Pauli.ofSymbol?_symbol style letter)
    rw [parse_eq, core, splitSign_symbol, readLetters_eq_ok_iff.2 spells]
    rfl

/-- The characters that strings are written with, in either style. -/
def alphabet : List Char := ['+', '-', 'I', '.', 'X', 'Y', 'Z']

theorem mem_alphabet_of_mem_render {p : PauliString} {style : Style} (hc : c ∈ p.render style) :
    c ∈ alphabet := by
  obtain rfl | hc := List.mem_cons.1 hc
  · cases p.sign <;> decide
  · obtain ⟨letter, -, rfl⟩ := List.mem_map.1 hc
    cases style <;> cases letter <;> decide

theorem notMem_render (h : c ∉ alphabet) (p : PauliString) (style : Style) : c ∉ p.render style :=
  fun hc => h (mem_alphabet_of_mem_render hc)

theorem not_isBlank_of_mem_render {p : PauliString} {style : Style} (hc : c ∈ p.render style) :
    isBlank c = false := by
  have solid : alphabet.all (fun c => !isBlank c) = true := by decide
  simpa using List.all_eq_true.1 solid c (mem_alphabet_of_mem_render hc)

theorem withoutBlanks_render (p : PauliString) (style : Style) :
    withoutBlanks (p.render style) = p.render style :=
  withoutBlanks_of_not fun _ hc => not_isBlank_of_mem_render hc

theorem parse_render (p : PauliString) (style : Style) : parse (p.render style) = .ok p :=
  parse_of_withoutBlanks (p.withoutBlanks_render style)

/-- **The texts of Pauli strings.**  A text without the blanks at its ends, and without one sign, has a
body that is read if and only if nothing else than blanks and symbols of letters stands in it; then the
sign and these letters are what is read, and else the first other character is reported.  What is written
for a string is read back, also with blanks put into it anywhere. -/
theorem parse_exact :
    (∀ text, ∃ core sign body, Trimmed text core ∧ Signed core sign body ∧
      ((∃ p, parse text = .ok p) ↔ ∀ c ∈ body, Readable c) ∧
      (∀ p, parse text = .ok p ↔ p.sign = sign ∧ Spells body p.letters) ∧
      ∀ error, parse text = .error error ↔ ∃ c, error = .invalidPauli c ∧ FirstFault body c) ∧
    ∀ (p : PauliString) (style : Style) (padded : List Char),
      Padded (p.render style) padded → parse padded = .ok p := by
  refine ⟨fun text => ?_, fun p style padded h => ?_⟩
  · have signed := signed_splitSign (trim text)
    generalize trimmed : splitSign (trim text) = split at signed
    obtain ⟨sign, body⟩ := split
    have parsed : parse text = (readLetters body).map (PauliString.mk sign) := by
      rw [parse_eq, trimmed]
    refine ⟨trim text, sign, body, trimmed_trim text, signed, ?_, fun p => ?_, fun error => ?_⟩
    · rw [parsed, ← exists_readLetters_eq_ok_iff]
      cases readLetters body <;> simp [Except.map]
    · rw [parsed, ← readLetters_eq_ok_iff]
      obtain ⟨sign', letters⟩ := p
      cases readLetters body <;> simp [Except.map, eq_comm]
    · rw [parsed, ← readLetters_eq_error_iff]
      cases readLetters body <;> simp [Except.map]
  · exact parse_of_withoutBlanks (h.withoutBlanks_eq.trans (p.withoutBlanks_render style))

/-- Blanks of several kinds, also between the sign and the letters. -/
theorem parse_exact_blanks :
    let p : PauliString := ⟨.minus, [.X, .I]⟩
    let padded := ['\n', '-', ' ', 'X', '\u2003', '.', '\u3000']
    Padded (p.render .dotted) padded ∧ parse padded = .ok p := by
  intro p padded
  have blanks : Padded (p.render .dotted) padded :=
    .blank (by decide) (.keep '-' (.blank (by decide) (.keep 'X' (.blank (by decide) (.keep '.'
      (.blank (by decide) .nil))))))
  exact ⟨blanks, parse_exact.2 p .dotted padded blanks⟩

end PauliString

end Stabilizer
