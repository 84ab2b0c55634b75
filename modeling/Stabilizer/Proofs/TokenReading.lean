import Stabilizer.Json.Reader
import Stabilizer.Proofs.TokenText
/-!
# Reading tokens

The readers work on lexemes.  A reader reads tokens as a value when it takes exactly their lexemes off
any list and gives the value.  Flags, natural numbers of 64 bits and lists are read so, a list when each
of its items is (`reads_list`).
-/

namespace Stabilizer.Json

/-! ## Parts with commas -/

/-- Some parts between two marks, with commas between them. -/
def enclosed (opening closing : Mark) (parts : List (List Token)) : List Token :=
  .mark opening :: (List.intercalate [.mark .comma] parts ++ [.mark closing])

/-- The tokens of a list. -/
def listTokens {α : Type} (write : α → List Token) (items : List α) : List Token :=
  enclosed .openBracket .closeBracket (items.map write)

theorem length_le_intercalate {α : Type} (sep : List α) {part : List α} {parts : List (List α)}
    (h : part ∈ parts) : part.length ≤ (List.intercalate sep parts).length := by
  induction parts with
  | nil => cases h
  | cons first parts ih =>
    cases parts with
    | nil =>
      rw [List.intercalate_singleton]
      cases List.mem_singleton.1 h
      exact Nat.le_refl _
    | cons second parts =>
      rw [List.intercalate_cons_cons, List.length_append, List.length_append]
      rcases List.mem_cons.1 h with rfl | h
      · omega
      · have := ih h
        omega

/-- There are as many commas as parts, less one. -/
theorem count_lt_enclosed (opening closing : Mark) (parts : List (List Token)) :
    parts.length < (enclosed opening closing parts).length := by
  have commas : parts.length ≤ (List.intercalate [.mark .comma] parts).length + 1 := by
    induction parts with
    | nil => exact Nat.zero_le _
    | cons first parts ih =>
      cases parts with
      | nil => simp
      | cons second parts =>
        rw [List.intercalate_cons_cons, List.length_append, List.length_append, List.length_cons]
        simp only [List.length_singleton]
        omega
  simp only [enclosed, List.length_cons, List.length_append, List.length_nil]
  omega

theorem length_lt_enclosed (opening closing : Mark) {part : List Token} {parts : List (List Token)}
    (h : part ∈ parts) : part.length < (enclosed opening closing parts).length := by
  have := length_le_intercalate [.mark .comma] h
  simp only [enclosed, List.length_cons, List.length_append, List.length_nil]
  omega

/-! ### Lexemes -/

/-- The lexemes of some parts after the opening mark, and of what comes after the closing one. -/
def interior (closing : Mark) (parts : List (List Token)) (rest : List Lexeme) : List Lexeme :=
  (List.intercalate [.mark .comma] parts).map Token.lexeme ++ .mark closing :: rest

theorem map_lexeme_enclosed (opening closing : Mark) (parts : List (List Token)) (rest : List Lexeme) :
    (enclosed opening closing parts).map Token.lexeme ++ rest =
      .mark opening :: interior closing parts rest := by
  rw [enclosed, List.map_cons, List.map_append, List.cons_append, List.append_assoc]
  rfl

theorem length_enclosed_le_interior (opening closing : Mark) (parts : List (List Token))
    (rest : List Lexeme) :
    (enclosed opening closing parts).length ≤ (interior closing parts rest).length + 1 := by
  simp only [enclosed, interior, List.length_cons, List.length_append, List.length_map, List.length_nil]
  omega

theorem interior_singleton (closing : Mark) (part : List Token) (rest : List Lexeme) :
    interior closing [part] rest = part.map Token.lexeme ++ .mark closing :: rest := by
  rw [interior, List.intercalate_singleton]

theorem interior_cons_cons (closing : Mark) (part second : List Token) (parts : List (List Token))
    (rest : List Lexeme) :
    interior closing (part :: second :: parts) rest =
      part.map Token.lexeme ++ .mark .comma :: interior closing (second :: parts) rest := by
  rw [interior, List.intercalate_cons_cons, List.map_append, List.map_append, List.append_assoc,
    List.append_assoc]
  rfl

theorem interior_cons_left (closing : Mark) (t : Token) (ts : List Token)
    (parts : List (List Token)) (rest : List Lexeme) :
    interior closing ((t :: ts) :: parts) rest = t.lexeme :: interior closing (ts :: parts) rest := by
  rw [interior, List.intercalate_cons_cons_left]
  rfl

/-! ### Separation -/

/-- The tokens may stand before a mark. -/
def BeforeMark (ts : List Token) : Prop :=
  ∀ m us, Separated us → Separated (ts ++ .mark m :: us)

theorem beforeMark_nil : BeforeMark [] := fun _ _ h => h

theorem beforeMark_singleton (t : Token) : BeforeMark [t] := by
  intro m us h
  cases t with
  | natural value => exact ⟨by simp, h⟩
  | _ => exact h

theorem BeforeMark.join {ts us : List Token} (ht : BeforeMark ts) (hu : BeforeMark us) (m : Mark) :
    BeforeMark (ts ++ .mark m :: us) := by
  intro m' vs h
  rw [List.append_assoc]
  exact ht m _ (hu m' vs h)

theorem beforeMark_intercalate {parts : List (List Token)} (h : ∀ part ∈ parts, BeforeMark part) :
    BeforeMark (List.intercalate [.mark .comma] parts) := by
  induction parts with
  | nil => exact beforeMark_nil
  | cons first parts ih =>
    obtain ⟨here, others⟩ := List.forall_mem_cons.1 h
    cases parts with
    | nil =>
      rw [List.intercalate_singleton]
      exact here
    | cons second parts =>
      rw [List.intercalate_cons_cons, List.append_assoc]
      exact here.join (ih others) .comma

theorem beforeMark_enclosed (opening closing : Mark) {parts : List (List Token)}
    (h : ∀ part ∈ parts, BeforeMark part) : BeforeMark (enclosed opening closing parts) :=
  beforeMark_nil.join ((beforeMark_intercalate h).join beforeMark_nil closing) opening

theorem beforeMark_listTokens {α : Type} {write : α → List Token}
    (h : ∀ value, BeforeMark (write value)) (items : List α) : BeforeMark (listTokens write items) := by
  refine beforeMark_enclosed _ _ fun part hpart => ?_
  obtain ⟨value, -, rfl⟩ := List.mem_map.1 hpart
  exact h value

theorem separated_enclosed (opening closing : Mark) {parts : List (List Token)}
    (h : ∀ part ∈ parts, BeforeMark part) : Separated (enclosed opening closing parts) :=
  beforeMark_intercalate h closing [] trivial

/-! ## Readers -/

/-- The reader takes the tokens off any list and gives the value. -/
def Reads {α : Type} (read : Reader α) (tokens : List Token) (value : α) : Prop :=
  ∀ rest, read (tokens.map Token.lexeme ++ rest) = .ok (value, rest)

theorem reads_flag (value : Bool) : Reads readFlag [.flag value] value := fun _ => rfl

theorem reads_natural {value : Nat} (h : value < Nat.pow 2 64) :
    Reads readNatural [.natural value] value := by
  intro rest
  have digits : Number.digitsValue (Nat.toDigits 10 value) = value := Nat.ofDigitChars_ten_toDigits
  have natural : Number.natural? ⟨false, Nat.toDigits 10 value, none, none⟩ = some value := by
    simp [Number.natural?, digits, h]
  simp only [List.map_cons, List.map_nil, Token.lexeme, List.cons_append, List.nil_append,
    readNatural, natural]

variable {α : Type} {item : Reader α} {write : α → List Token}

theorem readItems_interior {value : α} {items : List α} {bound : Nat}
    (reads : ∀ v ∈ value :: items, Reads item (write v) v) (enough : items.length < bound)
    (rest : List Lexeme) :
    readItems item bound (interior .closeBracket ((value :: items).map write) rest) =
      .ok (value :: items, rest) := by
  induction items generalizing value bound with
  | nil =>
    obtain ⟨left, rfl⟩ := Nat.exists_eq_add_one_of_ne_zero (Nat.ne_zero_of_lt enough)
    rw [List.map_singleton, interior_singleton, readItems, reads value List.mem_cons_self]
  | cons second items ih =>
    obtain ⟨left, rfl⟩ := Nat.exists_eq_add_one_of_ne_zero (Nat.ne_zero_of_lt enough)
    obtain ⟨first, others⟩ := List.forall_mem_cons.1 reads
    have later := ih others (Nat.lt_of_succ_lt_succ enough)
    rw [List.map_cons, List.map_cons, interior_cons_cons, readItems, first]
    exact congrArg (Except.map fun read => (value :: read.1, read.2)) later

theorem readList_of_ne (bound : Nat) (item : Reader α) {l : Lexeme} (ls : List Lexeme)
    (h : l ≠ .mark .closeBracket) :
    readList bound item (.mark .openBracket :: l :: ls) = readItems item bound (l :: ls) := by
  rw [readList]
  intro rest ends
  exact h (List.cons.inj ends).1

/-- A list is read when its items are.  None of them begins as if the list ended. -/
theorem reads_list {items : List α} {bound : Nat}
    (opens : ∀ value, ∃ t ts, write value = t :: ts ∧ t.lexeme ≠ .mark .closeBracket)
    (reads : ∀ value ∈ items, Reads item (write value) value)
    (enough : (listTokens write items).length ≤ bound) :
    Reads (readList bound item) (listTokens write items) items := by
  have fewer := count_lt_enclosed .openBracket .closeBracket (items.map write)
  intro rest
  rw [listTokens] at enough
  rw [listTokens, map_lexeme_enclosed]
  cases items with
  | nil => rfl
  | cons value items =>
    rw [List.length_map, List.length_cons] at fewer
    have items_read : readItems item bound _ = _ := readItems_interior reads (by omega) rest
    obtain ⟨t, ts, start, no_end⟩ := opens value
    rw [List.map_cons, start, interior_cons_left] at items_read ⊢
    exact (readList_of_ne bound item _ no_end).trans items_read

end Stabilizer.Json
