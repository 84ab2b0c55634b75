import Stabilizer.Proofs.EqualTableaus
import Stabilizer.Proofs.PauliLanguage
import Stabilizer.Proofs.RowWrites
/-!
# Listings are read back

A listing, cut at its line breaks, has a line for each qubit.  Where only stabilizers are listed, which is
done in one style, a line is a text of its stabilizer; where pairs are listed, in either style, it has one
bar, with texts of the stabilizer and of the destabilizer on its two sides.

So the generators can be read off the text, and texts are equal just when what they list is: the
stabilizers, or all rows and hence the tableaus (`same_iff_pairs_eq`).

A tableau has as many destabilizers as stabilizers.  Lists of other lengths are written up to the end of the
shorter one, and if that is the list of destabilizers a line break is left at the end (`renderPairs_eq`).
-/

namespace Stabilizer

open Text

/-! ## Lines -/

namespace PauliString

/-- Without its blanks a spaced line is the string in the plain style. -/
theorem withoutBlanks_spaced (p : PauliString) : withoutBlanks p.spaced = p.render .plain := by
  have solid {c : Char} (hc : c ∈ p.render .plain) : isBlank c = false := not_isBlank_of_mem_render hc
  have letters : withoutBlanks (p.letters.flatMap fun letter => [' ', letter.symbol .plain]) =
      p.letters.map (Pauli.symbol .plain) := by
    have cell : ∀ letter ∈ p.letters,
        withoutBlanks [' ', letter.symbol .plain] = [letter.symbol .plain] := by
      intro letter hl
      rw [withoutBlanks_cons_of_blank (by decide),
        withoutBlanks_cons_of_not (solid (List.mem_cons_of_mem _ (List.mem_map_of_mem hl)))]
      rfl
    rw [withoutBlanks, List.filter_flatMap, List.map_eq_flatMap]
    exact List.flatMap_congr cell
  rw [spaced, withoutBlanks_cons_of_not (solid List.mem_cons_self), letters]
  rfl

theorem parse_spaced (p : PauliString) : parse p.spaced = .ok p :=
  parse_of_withoutBlanks p.withoutBlanks_spaced

/-- A spaced line ends with its last letter, or with its sign if there is none. -/
theorem trimEnd_spaced (p : PauliString) : trimEnd p.spaced = p.spaced := by
  apply trimEnd_eq_self
  intro c hc
  have last : c ∈ (p.render .plain).getLast? := by
    obtain ⟨sign, letters⟩ := p
    obtain rfl | ⟨front, letter, rfl⟩ := List.eq_nil_or_concat letters
    · exact hc
    · simpa [spaced, render, List.getLast?_cons] using hc
  exact not_isBlank_of_mem_render (List.mem_of_mem_getLast? last)

theorem notMem_spaced {p : PauliString} : '\n' ∉ p.spaced := by
  intro h
  obtain sign | letters := List.mem_cons.1 h
  · cases hs : p.sign <;> simp [hs, Sign.symbol] at sign
  · obtain ⟨letter, -, cell⟩ := List.mem_flatMap.1 letters
    cases letter <;> simp [Pauli.symbol] at cell

end PauliString

/-! ## Pairs -/

/-- The separator stands in the line at one place only, between the two parts. -/
def Divides (separator line left right : List Char) : Prop :=
  ∀ left' right', line = left' ++ separator ++ right' ↔ left' = left ∧ right' = right

namespace Generators

def bar : List Char := [' ', '|', ' ']

/-- The line has one bar, a text of the first string before it, and one of the second after it. -/
def ShowsPair (line : List Char) (pair : PauliString × PauliString) : Prop :=
  ∃ left right, Divides bar line left right ∧ PauliString.parse left = .ok pair.1 ∧
    PauliString.parse right = .ok pair.2

variable {style : Style}

theorem divides_bar {left right : List Char} (notLeft : '|' ∉ left) (notRight : '|' ∉ right) :
    Divides bar (left ++ bar ++ right) left right := by
  intro left' right'
  refine ⟨fun h => ?_, ?_⟩
  · have blank : '|' ∉ left ++ [' '] := by simp [notLeft]
    have blank' : '|' ∉ ' ' :: right := by simp [notRight]
    have split : (left ++ [' ']) ++ '|' :: (' ' :: right) =
        (left' ++ [' ']) ++ '|' :: (' ' :: right') := by simpa [bar] using h
    obtain ⟨lefts, -, rights⟩ := (List.append_cons_inj_of_notMem blank blank').1 split
    exact ⟨(List.append_cancel_right lefts).symm, (List.cons.inj rights).2.symm⟩
  · rintro ⟨rfl, rfl⟩
    rfl

theorem showsPair_line (style : Style) (s d : PauliString) : ShowsPair (line style s d) (s, d) := by
  have notMem (p : PauliString) : '|' ∉ p.render style := p.notMem_render (by decide) style
  exact ⟨_, _, divides_bar (notMem s) (notMem d), s.parse_render style, d.parse_render style⟩

/-- A line shows one pair only. -/
theorem rightUnique_showsPair : Relator.RightUnique ShowsPair := by
  rintro line ⟨s, d⟩ ⟨s', d'⟩ ⟨left, right, divides, hs, hd⟩ ⟨left', right', divides', hs', hd'⟩
  obtain ⟨rfl, rfl⟩ := (divides' left right).1 ((divides left right).2 ⟨rfl, rfl⟩)
  cases hs.symm.trans hs'
  cases hd.symm.trans hd'
  rfl

theorem notMem_line {s d : PauliString} : '\n' ∉ line style s d := by
  have notMem (p : PauliString) : '\n' ∉ p.render style := p.notMem_render (by decide) style
  simp [line, notMem]

/-- The lines of the pairs, up to the end of the shorter list. -/
def lines (style : Style) (g : Generators) : List (List Char) :=
  (g.stabilizers.zip g.destabilizers).map fun pair => line style pair.1 pair.2

/-- Whether a line break follows a pair is asked of the stabilizers alone.  So if there are more of them
than destabilizers, one stands behind the last line, and has no line after it. -/
theorem renderPairs_eq (ss ds : List PauliString) :
    renderPairs style ss ds =
      List.intercalate ['\n'] ((ss.zip ds).map fun pair => line style pair.1 pair.2) ++
        if 0 < ds.length ∧ ds.length < ss.length then ['\n'] else [] := by
  induction ss generalizing ds with
  | nil => simp [renderPairs]
  | cons s ss ih =>
    cases ds with
    | nil => simp [renderPairs]
    | cons d ds =>
      rw [renderPairs, ih]
      cases ss with
      | nil => simp
      | cons s' ss =>
        cases ds with
        | nil => simp
        | cons d' ds => simp [List.intercalate_cons_cons]

/-- If no stabilizer is without a partner, line breaks stand between the lines only. -/
theorem renderPairs_eq_intercalate {ss ds : List PauliString} (h : ss.length ≤ ds.length) :
    renderPairs style ss ds =
      List.intercalate ['\n'] ((ss.zip ds).map fun pair => line style pair.1 pair.2) := by
  rw [renderPairs_eq, if_neg (by omega), List.append_nil]

/-- **Where line breaks stand.**  Two lists of any lengths give a line for each place below both lengths,
with the two strings of this place, and no line has a break in it.  The text is these lines with breaks
between them; one more comes behind the last if there are fewer destabilizers than stabilizers, but some.
So breaks stand between the lines only just when there is no destabilizer or one for every stabilizer. -/
theorem render_exact (style : Style) (g : Generators) :
    let s := g.stabilizers
    let d := g.destabilizers
    (∀ (k : Nat) (text : List Char), (g.lines style)[k]? = some text ↔
        ∃ p p', s[k]? = some p ∧ d[k]? = some p' ∧ line style p p' = text) ∧
      (∀ text ∈ g.lines style, '\n' ∉ text) ∧
      g.render style = List.intercalate ['\n'] (g.lines style) ++
        (if 0 < d.length ∧ d.length < s.length then ['\n'] else []) ∧
      (g.render style = List.intercalate ['\n'] (g.lines style) ↔ d = [] ∨ s.length ≤ d.length) := by
  intro s d
  have whole : g.render style = List.intercalate ['\n'] (g.lines style) ++
      (if 0 < d.length ∧ d.length < s.length then ['\n'] else []) := renderPairs_eq s d
  refine ⟨fun k text => ?_, fun text ht => ?_, whole, ?_⟩
  · rw [lines, List.getElem?_map, Option.map_eq_some_iff]
    simp only [Prod.exists, List.getElem?_zip_eq_some, and_assoc]
    rfl
  · obtain ⟨pair, -, rfl⟩ := List.mem_map.1 ht
    exact notMem_line
  · have none : d = [] ↔ d.length = 0 := List.length_eq_zero_iff.symm
    rw [whole, List.append_right_eq_self, ite_eq_right_iff, none]
    simp only [List.cons_ne_nil, imp_false]
    omega

/-- Two stabilizers and one destabilizer: a line break follows the only line. -/
theorem render_ragged :
    let g : Generators := ⟨[⟨.plus, [.Z]⟩, ⟨.plus, [.X]⟩], [⟨.plus, [.X]⟩]⟩
    (g.render .plain = "+Z | +X\n".toList ∧
        List.intercalate ['\n'] (g.lines .plain) = "+Z | +X".toList) ∧
      g.render .plain ≠ List.intercalate ['\n'] (g.lines .plain) ∧
      g.render .dotted ≠ List.intercalate ['\n'] (g.lines .dotted) := by
  decide

end Generators

namespace Tableau

variable {n m : Nat}

@[simp] theorem length_stabilizers (t : Tableau n) : t.stabilizers.length = n := List.length_ofFn

@[simp] theorem length_destabilizers (t : Tableau n) : t.destabilizers.length = n := List.length_ofFn

theorem stabilizers_ne_nil (t : Tableau n) : t.stabilizers ≠ [] :=
  List.ne_nil_of_length_pos (by simpa using t.addressable.1)

/-! ## The generators of a tableau -/

/-- Tableaus are equal when their generators are. -/
theorem same_iff_pairs_eq {t : Tableau n} {u : Tableau m} : t.same u = true ↔ t.pairs = u.pairs := by
  refine ⟨fun h => ?_, fun h => ?_⟩
  · have rows := (same_iff_sameRows (t := ⟨n, t⟩) (u := ⟨m, u⟩)).1 h
    cases rows with
    | intro rows =>
      simp only [pairs, stabilizers, destabilizers, stabilizer, destabilizer, row, rows]
  · obtain ⟨stabilizers, destabilizers⟩ := Generators.mk.inj h
    obtain rfl : n = m := by simpa using congrArg List.length stabilizers
    have stabilizer (k : Fin n) : t.stabilizer k = u.stabilizer k :=
      Row.toPauli_injective (congrFun (List.ofFn_injective stabilizers) k)
    have destabilizer (k : Fin n) : t.destabilizer k = u.destabilizer k :=
      Row.toPauli_injective (congrFun (List.ofFn_injective destabilizers) k)
    have rows : t.rows = u.rows := by
      rw [← beq_iff_rows_eq, beq_iff_row_eq]
      intro i
      obtain ⟨k, rfl⟩ | ⟨k, rfl⟩ := index_cases i
      · exact destabilizer k
      · exact stabilizer k
    simp [same, rows]

theorem splitOn_listing (t : Tableau n) :
    t.listing.splitOn '\n' = t.stabilizers.map PauliString.spaced := by
  refine List.splitOn_intercalate '\n' ?_ (by simpa using t.stabilizers_ne_nil)
  intro line hl
  obtain ⟨p, -, rfl⟩ := List.mem_map.1 hl
  exact p.notMem_spaced

theorem map_parse_splitOn_listing (t : Tableau n) :
    (t.listing.splitOn '\n').map PauliString.parse = t.stabilizers.map .ok := by
  rw [splitOn_listing, List.map_map]
  exact List.map_congr_left fun p _ => p.parse_spaced

theorem splitOn_paired (t : Tableau n) (style : Style) : (t.paired style).splitOn '\n' =
    (t.stabilizers.zip t.destabilizers).map fun pair => Generators.line style pair.1 pair.2 := by
  have lines : t.stabilizers.zip t.destabilizers ≠ [] :=
    List.ne_nil_of_length_pos (by simpa using t.addressable.1)
  rw [paired, Generators.render, pairs, Generators.renderPairs_eq_intercalate (by simp)]
  refine List.splitOn_intercalate '\n' ?_ (by simpa using lines)
  intro line hl
  obtain ⟨pair, -, rfl⟩ := List.mem_map.1 hl
  exact Generators.notMem_line

theorem forall₂_showsPair (t : Tableau n) (style : Style) :
    List.Forall₂ Generators.ShowsPair ((t.paired style).splitOn '\n')
      (t.stabilizers.zip t.destabilizers) := by
  rw [splitOn_paired, List.forall₂_map_left_iff, List.forall₂_same]
  exact fun pair _ => Generators.showsPair_line style pair.1 pair.2

theorem unzip_pairs (t : Tableau n) :
    (t.stabilizers.zip t.destabilizers).unzip = (t.stabilizers, t.destabilizers) :=
  List.unzip_zip (by simp)

/-- **Listings are read back.**  Cut at its line breaks, a listing has a line for each qubit.  The lines of
stabilizers have no blanks at their ends and are read as the stabilizers; those of pairs have one bar each,
and are read as the pairs.  Hence the text of the stabilizers says what they are, and the text of the pairs
what the tableau is. -/
theorem listings_exact (t : Tableau n) (u : Tableau m) (style : Style) :
    let lines := t.listing.splitOn '\n'
    let pairLines := (t.paired style).splitOn '\n'
    (lines.length = n ∧ lines.map trimEnd = lines ∧
        lines.map PauliString.parse = t.stabilizers.map .ok) ∧
      (pairLines.length = n ∧
        List.Forall₂ Generators.ShowsPair pairLines (t.stabilizers.zip t.destabilizers)) ∧
      (t.listing = u.listing ↔ t.stabilizers = u.stabilizers) ∧
      (t.paired style = u.paired style ↔ t.same u = true) := by
  refine ⟨⟨?_, ?_, t.map_parse_splitOn_listing⟩, ⟨?_, t.forall₂_showsPair style⟩, ?_, ?_⟩
  · simp [splitOn_listing]
  · rw [splitOn_listing, List.map_map]
    exact List.map_congr_left fun p _ => p.trimEnd_spaced
  · simp [splitOn_paired]
  · refine ⟨fun texts => ?_, fun stabilizers => by rw [listing, listing, stabilizers]⟩
    have read := t.map_parse_splitOn_listing
    rw [texts, map_parse_splitOn_listing] at read
    exact (List.map_injective_iff.2 (fun _ _ => Except.ok.inj) read).symm
  · rw [same_iff_pairs_eq]
    refine ⟨fun texts => ?_, fun pairs => by rw [paired, paired, pairs]⟩
    have shown := t.forall₂_showsPair style
    rw [texts] at shown
    have zips := Generators.rightUnique_showsPair.forall₂ shown (u.forall₂_showsPair style)
    have lists := congrArg List.unzip zips
    rw [unzip_pairs, unzip_pairs] at lists
    rw [pairs, pairs, (Prod.mk.inj lists).1, (Prod.mk.inj lists).2]

end Tableau

end Stabilizer
