import Stabilizer.Tableau.RecordJson
import Stabilizer.Proofs.Records
import Stabilizer.Proofs.TokenReading
/-!
# The JSON texts of a record

A record has many texts.  It is laid out as an object with its members in some order, or as the list
of its values, and the tokens of a layout may have blanks around them.

The order of the members does not matter because every member has a place of its own in a draft: after
some members were read, the draft holds these of the record and no others (`Record.draft`).  So a text
of a record reads as the record does, whatever its layout, and the text that is written is one of them.
-/

namespace Stabilizer

open Json

namespace Record

/-! ## Layouts -/

namespace Member

def all : List Member := [.n, .rs, .xs, .zs]

def letters : Member → List Char
  | .n => ['n']
  | .rs => ['r', 's']
  | .xs => ['x', 's']
  | .zs => ['z', 's']

theorem mem_all (m : Member) : m ∈ all := by
  cases m <;> decide

theorem isAlpha_letters (m : Member) : ∀ c ∈ m.letters, c.isAlpha = true :=
  List.all_eq_true.1 (by cases m <;> rfl)

theorem ofName?_letters (m : Member) : ofName? m.letters = some m := by
  cases m <;> rfl

end Member

/-- How the values of a record stand in a text. -/
inductive Layout where
  | object (order : List Member) (complete : order.Perm Member.all)
  | list

def flagTokens (value : Bool) : List Token := [.flag value]

def rowTokens : List Bool → List Token := listTokens flagTokens

def valueTokens (r : Record) : Member → List Token
  | .n => [.natural r.n]
  | .rs => rowTokens r.rs
  | .xs => listTokens rowTokens r.xs
  | .zs => listTokens rowTokens r.zs

def memberTokens (r : Record) (m : Member) : List Token :=
  .name m.letters m.isAlpha_letters :: .mark .colon :: r.valueTokens m

def tokens (r : Record) : Layout → List Token
  | .object order _ => enclosed .openBrace .closeBrace (order.map r.memberTokens)
  | .list => enclosed .openBracket .closeBracket (Member.all.map r.valueTokens)

variable (r : Record)

/-! ### Separation -/

theorem beforeMark_rowTokens : ∀ row, BeforeMark (rowTokens row) :=
  beforeMark_listTokens fun value => beforeMark_singleton (.flag value)

theorem beforeMark_valueTokens (m : Member) : BeforeMark (r.valueTokens m) := by
  cases m with
  | n => exact beforeMark_singleton _
  | rs => exact beforeMark_rowTokens _
  | xs => exact beforeMark_listTokens beforeMark_rowTokens _
  | zs => exact beforeMark_listTokens beforeMark_rowTokens _

theorem separated_tokens (layout : Layout) : Separated (r.tokens layout) := by
  cases layout with
  | object order complete =>
    refine separated_enclosed _ _ fun part hpart => ?_
    obtain ⟨m, -, rfl⟩ := List.mem_map.1 hpart
    exact (beforeMark_singleton (.name m.letters _)).join (r.beforeMark_valueTokens m) .colon
  | list =>
    refine separated_enclosed _ _ fun part hpart => ?_
    obtain ⟨m, -, rfl⟩ := List.mem_map.1 hpart
    exact r.beforeMark_valueTokens m

/-! ## Reading -/

theorem reads_row {row : List Bool} {bound : Nat} (enough : (rowTokens row).length ≤ bound) :
    Reads (readList bound readFlag) (rowTokens row) row :=
  reads_list (fun value => ⟨.flag value, [], rfl, by simp [Token.lexeme]⟩)
    (fun value _ => reads_flag value) enough

theorem reads_matrix {rows : List (List Bool)} {bound : Nat}
    (enough : (listTokens rowTokens rows).length ≤ bound) :
    Reads (readList bound (readList bound readFlag)) (listTokens rowTokens rows) rows := by
  refine reads_list (fun row => ⟨.mark .openBracket, _, rfl, by simp [Token.lexeme]⟩) ?_ enough
  intro row hrow
  have shorter : (rowTokens row).length < (listTokens rowTokens rows).length :=
    length_lt_enclosed _ _ (List.mem_map_of_mem hrow)
  exact reads_row (Nat.le_trans (Nat.le_of_lt shorter) enough)

/-! ### Members -/

/-- The draft after these members of the record were read. -/
def draft (done : List Member) : Draft where
  n := if .n ∈ done then some r.n else none
  rs := if .rs ∈ done then some r.rs else none
  xs := if .xs ∈ done then some r.xs else none
  zs := if .zs ∈ done then some r.zs else none

theorem has_draft (done : List Member) (m : Member) : (r.draft done).has m = decide (m ∈ done) := by
  by_cases h : m ∈ done <;> cases m <;> simp [draft, Draft.has, h]

theorem finish_draft {done : List Member} (complete : ∀ m, m ∈ done) :
    (r.draft done).finish = .ok r := by
  simp only [draft, complete, if_true, Draft.finish]

theorem draft_nil : r.draft [] = Draft.empty := by
  simp [draft, Draft.empty]

variable {r} {bound : Nat}

theorem read_draft (hn : r.n < Nat.pow 2 64) (done : List Member) {m : Member}
    (enough : (r.valueTokens m).length ≤ bound) :
    Reads ((r.draft done).read bound m) (r.valueTokens m) (r.draft (m :: done)) := by
  intro rest
  cases m with
  | n =>
    rw [Draft.read, valueTokens, reads_natural hn]
    simp [Except.map, draft]
  | rs =>
    rw [Draft.read, valueTokens, reads_row enough]
    simp [Except.map, draft]
  | xs =>
    rw [Draft.read, valueTokens, reads_matrix enough]
    simp [Except.map, draft]
  | zs =>
    rw [Draft.read, valueTokens, reads_matrix enough]
    simp [Except.map, draft]

theorem readMember_draft (hn : r.n < Nat.pow 2 64) {done : List Member} {m : Member}
    (new : m ∉ done) (enough : (r.valueTokens m).length ≤ bound) :
    Reads (readMember bound (r.draft done) m.letters) (.mark .colon :: r.valueTokens m)
      (r.draft (m :: done)) := by
  intro rest
  have absent : (r.draft done).has m = false := by
    rw [has_draft]
    exact decide_eq_false new
  rw [readMember, Member.ofName?_letters]
  simp only [absent, Bool.false_eq_true, if_false]
  exact read_draft hn done enough rest

theorem not_mem_done {done order : List Member} {m : Member}
    (complete : (m :: done ++ order).Perm Member.all) : m ∉ done := by
  intro hm
  have once : (m :: (done ++ order)).Nodup := complete.nodup_iff.2 (by decide)
  exact (List.nodup_cons.1 once).1 (List.mem_append_left _ hm)

/-- The members that were read, the next one and those after it are all the members, each once. -/
theorem readMembers_draft (hn : r.n < Nat.pow 2 64) {done : List Member} {m : Member}
    {order : List Member} {left : Nat} (complete : (m :: done ++ order).Perm Member.all)
    (enough : ∀ m', (r.valueTokens m').length ≤ bound) (steps : order.length < left)
    (rest : List Lexeme) :
    readMembers bound left (r.draft done)
        (interior .closeBrace ((m :: order).map r.memberTokens) rest) = .ok (r, rest) := by
  induction order generalizing m done left with
  | nil =>
    obtain ⟨left, rfl⟩ := Nat.exists_eq_add_one_of_ne_zero (Nat.ne_zero_of_lt steps)
    have here := readMember_draft hn (not_mem_done complete) (enough m)
    have all_read (m' : Member) : m' ∈ m :: done := by
      rw [← List.append_nil (m :: done), complete.mem_iff]
      exact m'.mem_all
    rw [List.map_singleton, interior_singleton, memberTokens, List.map_cons, List.cons_append,
      Token.lexeme, readMembers]
    simp only [here (.mark .closeBrace :: rest), r.finish_draft all_read, Except.map]
  | cons second order ih =>
    obtain ⟨left, rfl⟩ := Nat.exists_eq_add_one_of_ne_zero (Nat.ne_zero_of_lt steps)
    have here := readMember_draft hn (not_mem_done complete) (enough m)
    have later := ih (List.perm_middle.symm.trans complete) (Nat.lt_of_succ_lt_succ steps)
    rw [List.map_cons, List.map_cons, interior_cons_cons, memberTokens, List.map_cons,
      List.cons_append, Token.lexeme, readMembers, here]
    exact later

theorem readObject_of_ne (bound : Nat) {l : Lexeme} (ls : List Lexeme) (h : l ≠ .mark .closeBrace) :
    readObject bound (l :: ls) = readMembers bound bound Draft.empty (l :: ls) := by
  rw [readObject]
  intro rest ends
  exact h (List.cons.inj ends).1

theorem readObject_interior (hn : r.n < Nat.pow 2 64) {order : List Member}
    (complete : order.Perm Member.all) (enough : ∀ m, (r.valueTokens m).length ≤ bound)
    (steps : order.length ≤ bound) (rest : List Lexeme) :
    readObject bound (interior .closeBrace (order.map r.memberTokens) rest) = .ok (r, rest) := by
  cases order with
  | nil => cases complete.length_eq
  | cons m order =>
    have start : (m :: [] ++ order).Perm Member.all := complete
    have members := readMembers_draft hn start enough steps rest
    rw [draft_nil, List.map_cons, memberTokens, interior_cons_left] at members
    rw [List.map_cons, memberTokens, interior_cons_left]
    exact (readObject_of_ne bound _ (by simp [Token.lexeme])).trans members

/-! ### Elements -/

theorem readElements_interior (hn : r.n < Nat.pow 2 64)
    (enough : ∀ m, (r.valueTokens m).length ≤ bound) (rest : List Lexeme) :
    readElements bound (interior .closeBracket (Member.all.map r.valueTokens) rest) =
      .ok (r, rest) := by
  have read_n (ls : List Lexeme) := reads_natural hn ls
  have read_rs (ls : List Lexeme) := reads_row (enough .rs) ls
  have read_xs (ls : List Lexeme) := reads_matrix (enough .xs) ls
  have read_zs (ls : List Lexeme) := reads_matrix (enough .zs) ls
  simp only [List.map_cons, List.map_nil, Token.lexeme, List.cons_append, List.nil_append] at read_n
  simp only [Member.all, List.map_cons, List.map_nil, interior_cons_cons, interior_singleton,
    List.cons_append, List.nil_append, valueTokens, Token.lexeme]
  simp only [readElements, read_n, nextElement, read_rs, read_xs, read_zs, readMark, bind,
    Except.bind, if_true]
  rfl

/-! ### Records -/

theorem length_valueTokens_lt (r : Record) (layout : Layout) (m : Member) :
    (r.valueTokens m).length < (r.tokens layout).length := by
  cases layout with
  | object order complete =>
    have present : m ∈ order := complete.mem_iff.2 m.mem_all
    have shorter : (r.memberTokens m).length < (r.tokens (.object order complete)).length :=
      length_lt_enclosed _ _ (List.mem_map_of_mem present)
    exact Nat.lt_trans (Nat.lt_add_of_pos_right (by decide : 0 < 2)) shorter
  | list => exact length_lt_enclosed _ _ (List.mem_map_of_mem m.mem_all)

/-- Every layout of a record is read as the record. -/
theorem reads_tokens (hn : r.n < Nat.pow 2 64) (layout : Layout) : Reads read (r.tokens layout) r := by
  intro rest
  have values := r.length_valueTokens_lt layout
  cases layout with
  | object order complete =>
    have all := length_enclosed_le_interior .openBrace .closeBrace (order.map r.memberTokens) rest
    have members := count_lt_enclosed .openBrace .closeBrace (order.map r.memberTokens)
    rw [List.length_map] at members
    rw [tokens, map_lexeme_enclosed]
    refine readObject_interior hn complete (fun m => ?_) (by omega) rest
    exact Nat.le_of_lt_succ (Nat.lt_of_lt_of_le (values m) all)
  | list =>
    have all :=
      length_enclosed_le_interior .openBracket .closeBracket (Member.all.map r.valueTokens) rest
    rw [tokens, map_lexeme_enclosed]
    refine readElements_interior hn (fun m => ?_) rest
    exact Nat.le_of_lt_succ (Nat.lt_of_lt_of_le (values m) all)

/-! ## Writing -/

theorem flatMap_intercalate (f : Token → List Char) (sep : List Token) (parts : List (List Token)) :
    (List.intercalate sep parts).flatMap f =
      List.intercalate (sep.flatMap f) (parts.map (·.flatMap f)) := by
  induction parts with
  | nil => rfl
  | cons first parts ih =>
    cases parts with
    | nil => simp
    | cons second parts =>
      simp only [List.intercalate_cons_cons, List.flatMap_append, List.map_cons, ih]

theorem symbols_enclosed (opening closing : Mark) (parts : List (List Token)) :
    (enclosed opening closing parts).flatMap Token.symbols =
      opening.symbol ::
        List.intercalate [','] (parts.map (·.flatMap Token.symbols)) ++ [closing.symbol] := by
  rw [enclosed, List.flatMap_cons, List.flatMap_append, flatMap_intercalate]
  rfl

theorem symbols_listTokens {α : Type} {item : α → List Char} {write : α → List Token}
    (h : ∀ value, (write value).flatMap Token.symbols = item value) (items : List α) :
    (listTokens write items).flatMap Token.symbols = listJson item items := by
  rw [listTokens, symbols_enclosed, List.map_map, listJson]
  simp only [Function.comp_def, h]
  rfl

theorem symbols_rowTokens (row : List Bool) :
    (rowTokens row).flatMap Token.symbols = listJson flagJson row := by
  have flag (value : Bool) : (flagTokens value).flatMap Token.symbols = flagJson value :=
    List.append_nil _
  exact symbols_listTokens flag row

theorem symbols_memberTokens (r : Record) (m : Member) :
    (r.memberTokens m).flatMap Token.symbols =
      '"' :: m.letters ++ '"' :: ':' :: (r.valueTokens m).flatMap Token.symbols := by
  rw [memberTokens, List.flatMap_cons, List.flatMap_cons]
  simp only [Token.symbols, List.cons_append, List.append_assoc, List.nil_append]
  rfl

/-- The text that is written has its members in the order in which they are declared, and no blanks. -/
theorem toJson_eq (r : Record) :
    r.toJson = (r.tokens (.object Member.all (.refl _))).flatMap Token.symbols := by
  have natural : [Token.natural r.n].flatMap Token.symbols = Nat.toDigits 10 r.n :=
    List.append_nil _
  rw [tokens, symbols_enclosed, toJson]
  simp only [Member.all, List.map_cons, List.map_nil, symbols_memberTokens, valueTokens, natural,
    symbols_rowTokens, symbols_listTokens symbols_rowTokens]
  rfl

end Record

namespace Tableau

/-- A text of a record reads as the record does. -/
theorem ofJson_of_spells {r : Record} (hn : r.n < Nat.pow 2 64) {layout : Record.Layout}
    {text : List Char} (h : Spells text (r.tokens layout)) :
    ofJson text = ((ofRecord r).map (Sigma.mk r.n)).mapError .refused := by
  have read := Record.reads_tokens hn layout []
  rw [List.append_nil] at read
  rw [ofJson, lex_of_spells h (r.separated_tokens layout), read]
  cases fits : ofRecord r with
  | error error =>
    simp only [fits]
    rfl
  | ok t =>
    simp only [fits]
    rfl

theorem spells_toJson (r : Record) :
    Spells r.toJson (r.tokens (.object Record.Member.all (.refl _))) := by
  rw [r.toJson_eq]
  exact spells_flatMap (fun _ => []) (by simp) _

/-- **Reading a text is reading the record that it spells.**  The order of the members does not matter,
nor do the blanks, nor whether the record is an object or a list.  A record that fits no tableau is
refused with the same error.  The text that is written of a tableau reads as an equal tableau. -/
theorem ofJson_eq_ofRecord :
    (∀ (n : Nat) (t : Tableau n), ∃ u : Tableau n, ofJson t.toJson = .ok ⟨n, u⟩ ∧ (u == t) = true) ∧
    ∀ r : Record, r.n < Nat.pow 2 64 → ∀ (layout : Record.Layout) (text : List Char),
      Spells text (r.tokens layout) →
        ofJson text = ((ofRecord r).map (Sigma.mk r.n)).mapError .refused := by
  refine ⟨fun n t => ?_, fun r hn layout text h => ofJson_of_spells hn h⟩
  obtain ⟨u, read, same⟩ := t.ofRecord_toRecord
  have hn : t.toRecord.n < Nat.pow 2 64 :=
    Nat.lt_of_le_of_lt (Nat.le_mul_of_pos_left _ Nat.two_pos) t.wellShaped_toRecord.signs.1
  refine ⟨u, ?_, same⟩
  rw [toJson, ofJson_of_spells hn (spells_toJson t.toRecord), read]
  rfl

/-- An object with its members in another order and blanks around its tokens, and a list with too few
sign bits. -/
theorem ofJson_eq_ofRecord_blanks :
    let r : Record := ⟨1, [false, true], [[true], [false]], [[false], [true]]⟩
    let object := " \x7b \"zs\" : [ [ false ] , [ true ] ] , \"rs\" : [ false , true ] , " ++
      "\"n\" : 1 , \"xs\" : [ [ true ] , [ false ] ] \x7d"
    let list := " [ 1 , [ true ] , [ ] , [ ] ]"
    r.n < Nat.pow 2 64 ∧ (∃ t, ofRecord r = .ok t ∧ ofJson object.toList = .ok ⟨1, t⟩) ∧
      ofJson list.toList = .error (.refused (.shapeMismatch .signs [2] [1])) := by
  intro r object list
  let short : Record := ⟨1, [true], [], []⟩
  have qubits : r.n < Nat.pow 2 64 := by decide
  have blank (_ : Token) : ∀ c ∈ [' '], isBlank c = true :=
    List.all_eq_true.1 rfl
  let layout : Record.Layout := .object [.zs, .rs, .n, .xs] (by decide)
  have object_text : object.toList = (r.tokens layout).flatMap fun t => ' ' :: t.symbols := by
    decide +kernel
  have list_text : list.toList = (short.tokens .list).flatMap fun t => ' ' :: t.symbols := by
    decide +kernel
  have object_spells : Spells object.toList (r.tokens layout) :=
    object_text ▸ spells_flatMap _ blank _
  have list_spells : Spells list.toList (short.tokens .list) :=
    list_text ▸ spells_flatMap _ blank _
  refine ⟨qubits, ⟨_, rfl, ?_⟩, ?_⟩
  · exact ofJson_eq_ofRecord.2 r qubits layout _ object_spells
  · exact ofJson_eq_ofRecord.2 short qubits .list _ list_spells

end Tableau

end Stabilizer
