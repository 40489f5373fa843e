import Mathlib.Data.List.TakeWhile
import Mathlib.Data.Prod.Lex
import TagTemplate.Source.Place

/-! The lines of a source, and the columns in them. A column is told by its line and its number, both
counted from one, and stands for one character of the source; the order of columns is that of the
characters. The place of a character leads to the column that stands for it. -/
namespace TagTemplate.Source

def lines (source : List Char) : List (List Char) :=
  source.splitOn '\n'

def lengthBefore (rows : List (List Char)) (count : Nat) : Nat :=
  ((rows.take count).flatMap fun text => text ++ ['\n']).length

/-- A line has a column for each of its characters, and behind them one for the line feed, unless it is
the last line. -/
structure IsColumn (rows : List (List Char)) (p : Nat × Nat) : Prop where
  one_le_line : 1 ≤ p.1
  one_le_column : 1 ≤ p.2
  column_le : ∃ text, rows[p.1 - 1]? = some text ∧
    p.2 ≤ text.length + if p.1 < rows.length then 1 else 0

def characterAt? (rows : List (List Char)) (p : Nat × Nat) : Option Char :=
  (rows[p.1 - 1]?).bind fun text =>
    (text ++ if p.1 < rows.length then ['\n'] else [])[p.2 - 1]?

def indexOf (rows : List (List Char)) (p : Nat × Nat) : Nat :=
  lengthBefore rows (p.1 - 1) + (p.2 - 1)

variable {source front back rest text : List Char} {rows : List (List Char)} {p q : Nat × Nat}
  {index i k : Nat}

theorem lengthBefore_succ (h : rows[k]? = some text) :
    lengthBefore rows (k + 1) = lengthBefore rows k + (text.length + 1) := by
  unfold lengthBefore
  rw [List.take_add_one, h]
  simp

theorem lengthBefore_le (h : i ≤ k) : lengthBefore rows i ≤ lengthBefore rows k := by
  obtain ⟨d, rfl⟩ := Nat.exists_eq_add_of_le h
  unfold lengthBefore
  rw [List.take_add, List.flatMap_append, List.length_append]
  apply Nat.le_add_right

theorem IsColumn.indexOf_lt (h : IsColumn rows p) : indexOf rows p < lengthBefore rows p.1 := by
  obtain ⟨text, htext, hcolumn⟩ := h.column_le
  have hline := h.one_le_line
  have hnext := lengthBefore_succ htext
  rw [Nat.sub_add_cancel hline] at hnext
  unfold indexOf
  split at hcolumn <;> omega

theorem IsColumn.indexOf_lt_indexOf (hp : IsColumn rows p) (h : toLex p < toLex q) :
    indexOf rows p < indexOf rows q := by
  have hcolumn := hp.one_le_column
  rcases Prod.Lex.toLex_lt_toLex.mp h with hline | ⟨hline, hless⟩
  · calc indexOf rows p
        < lengthBefore rows p.1 := hp.indexOf_lt
      _ ≤ lengthBefore rows (q.1 - 1) := lengthBefore_le (Nat.le_sub_one_of_lt hline)
      _ ≤ indexOf rows q := Nat.le_add_right _ _
  · unfold indexOf
    rw [hline]
    omega

theorem eq_of_indexOf_eq (hp : IsColumn rows p) (hq : IsColumn rows q)
    (h : indexOf rows p = indexOf rows q) : p = q := by
  rcases lt_trichotomy (toLex p) (toLex q) with hless | heq | hmore
  · exact absurd h (hp.indexOf_lt_indexOf hless).ne
  · exact toLex_inj.mp heq
  · exact absurd h (hq.indexOf_lt_indexOf hmore).ne'

theorem lines_append (front rest : List Char) :
    lines (front ++ '\n' :: rest) = lines front ++ lines rest :=
  List.splitOn_append_cons_self front rest

theorem lines_ne_nil (source : List Char) : lines source ≠ [] :=
  List.splitOn_ne_nil '\n' source

theorem lines_of_notMem (h : '\n' ∉ text) : lines text = [text] :=
  List.splitOn_eq_singleton h

theorem lines_cons (c : Char) (rest : List Char) :
    lines (c :: rest) =
      if c = '\n' then [] :: lines rest else (lines rest).modifyHead (c :: ·) := by
  simp [lines, List.splitOn_cons_eq_if_modifyHead]

theorem length_lines (source : List Char) :
    (lines source).length = source.count '\n' + 1 := by
  induction source with
  | nil => rfl
  | cons c rest ih =>
    rw [lines_cons]
    split <;> next h => simp [h, ih]

theorem lengthBefore_lines (source : List Char) :
    lengthBefore (lines source) (lines source).length = source.length + 1 := by
  unfold lengthBefore
  rw [List.take_length]
  induction source with
  | nil => rfl
  | cons c rest ih =>
    rw [lines_cons]
    split
    · rw [List.flatMap_cons, List.length_append, ih]
      exact Nat.add_comm _ _
    · obtain ⟨row, others, hrows⟩ := List.exists_cons_of_ne_nil (lines_ne_nil rest)
      rw [hrows] at ih ⊢
      simp only [List.modifyHead_cons, List.flatMap_cons, List.length_append,
        List.length_cons] at ih ⊢
      omega

theorem indexOf_lt_length (h : IsColumn (lines source) p) :
    indexOf (lines source) p < source.length := by
  obtain ⟨text, htext, hcolumn⟩ := h.column_le
  have hall := lengthBefore_lines source
  have hline := h.one_le_line
  have hlast := (List.getElem?_eq_some_iff.mp htext).1
  by_cases hmore : p.1 < (lines source).length
  · -- Behind this line there is another one, and the line feed that is missing is behind that.
    have hbefore := h.indexOf_lt
    have hnext := lengthBefore_succ (List.getElem?_eq_getElem hmore)
    have hall' : lengthBefore (lines source) (p.1 + 1) ≤ source.length + 1 :=
      hall ▸ lengthBefore_le hmore
    omega
  · have hcount : (lines source).length = p.1 - 1 + 1 := by omega
    rw [hcount, lengthBefore_succ htext] at hall
    rw [if_neg hmore] at hcolumn
    have := h.one_le_column
    unfold indexOf
    omega

def EndsLine (front : List Char) : Prop :=
  front = [] ∨ ∃ earlier, front = earlier ++ ['\n']

def BeginsLine (back : List Char) : Prop :=
  back = [] ∨ ∃ later, back = '\n' :: later

theorem beginsLine_dropWhile (text : List Char) : BeginsLine (text.dropWhile (· ≠ '\n')) := by
  have hstop := List.head?_dropWhile_not (fun c : Char => decide (c ≠ '\n')) text
  rcases hback : text.dropWhile (· ≠ '\n') with _ | ⟨c, later⟩
  · exact .inl rfl
  · rw [hback] at hstop
    have hc : c = '\n' := by simpa using hstop
    exact .inr ⟨later, by rw [hc]⟩

theorem notMem_takeWhile (text : List Char) : '\n' ∉ text.takeWhile (· ≠ '\n') := by
  intro h
  simpa using List.mem_takeWhile_imp h

theorem BeginsLine.reverse (h : BeginsLine back) : EndsLine back.reverse := by
  rcases h with rfl | ⟨later, rfl⟩
  · exact .inl rfl
  · exact .inr ⟨later.reverse, List.reverse_cons⟩

theorem exists_front (source : List Char) (index : Nat) :
    ∃ front, EndsLine front ∧ source.take index = front ++ lineBefore source index := by
  let before := (source.take index).reverse
  refine ⟨(before.dropWhile (· ≠ '\n')).reverse, (beginsLine_dropWhile before).reverse, ?_⟩
  rw [lineBefore, ← List.reverse_append, List.takeWhile_append_dropWhile]
  exact (List.reverse_reverse _).symm

theorem exists_back (source : List Char) (index : Nat) :
    ∃ back, BeginsLine back ∧ source.drop index = lineFrom source index ++ back :=
  ⟨_, beginsLine_dropWhile (source.drop index), List.takeWhile_append_dropWhile.symm⟩

theorem notMem_lineBefore (source : List Char) (index : Nat) : '\n' ∉ lineBefore source index := by
  unfold lineBefore
  rw [List.mem_reverse]
  apply notMem_takeWhile

theorem notMem_lineFrom (source : List Char) (index : Nat) : '\n' ∉ lineFrom source index :=
  notMem_takeWhile (source.drop index)

theorem notMem_text (source : List Char) (index : Nat) : '\n' ∉ (place source index).text := by
  have := notMem_lineBefore source index
  have := notMem_lineFrom source index
  simp_all [place]

theorem EndsLine.exists_lines (h : EndsLine front) (rest : List Char) :
    ∃ earlier, lines (front ++ rest) = earlier ++ lines rest ∧
      earlier.length = front.count '\n' ∧
      lengthBefore earlier earlier.length = front.length := by
  rcases h with rfl | ⟨earlier, rfl⟩
  · exact ⟨[], rfl, rfl, rfl⟩
  · refine ⟨lines earlier, ?_, ?_, ?_⟩
    · rw [List.append_assoc, List.singleton_append, lines_append]
    · rw [length_lines, List.count_append, List.count_singleton_self]
    · rw [lengthBefore_lines, List.length_append, List.length_singleton]

theorem BeginsLine.exists_lines (h : BeginsLine back) (htext : '\n' ∉ text) :
    ∃ later, lines (text ++ back) = text :: later ∧ (later = [] ↔ back = []) := by
  rcases h with rfl | ⟨later, rfl⟩
  · exact ⟨[], by rw [List.append_nil, lines_of_notMem htext], by simp⟩
  · refine ⟨lines later, ?_, ?_⟩
    · rw [lines_append, lines_of_notMem htext, List.singleton_append]
    · exact iff_of_false (lines_ne_nil later) (List.cons_ne_nil _ _)

/-- The lines around that of a character, which is reached when the earlier lines and the characters in
front of it are passed. -/
theorem exists_lines_around (h : index ≤ source.length) :
    ∃ earlier later back, lines source = earlier ++ (place source index).text :: later ∧
      (place source index).line = earlier.length + 1 ∧
      lengthBefore earlier earlier.length + (place source index).offset = index ∧
      source.drop index = lineFrom source index ++ back ∧ (later = [] ↔ back = []) := by
  obtain ⟨front, hfront, hbefore⟩ := exists_front source index
  obtain ⟨back, hback, hfrom⟩ := exists_back source index
  have hsource : source = front ++ ((place source index).text ++ back) := by
    calc source = source.take index ++ source.drop index := (List.take_append_drop ..).symm
      _ = _ := by rw [hbefore, hfrom, place]; simp
  obtain ⟨earlier, hlines, hcount, hlength⟩ :=
    hfront.exists_lines ((place source index).text ++ back)
  obtain ⟨later, htext, hlast⟩ := hback.exists_lines (notMem_text source index)
  refine ⟨earlier, later, back, ?_, ?_, ?_, hfrom, hlast⟩
  · rw [← htext, ← hlines, ← hsource]
  · have hnone : (lineBefore source index).count '\n' = 0 :=
      List.count_eq_zero.mpr (notMem_lineBefore source index)
    rw [place, hbefore, List.count_append, hnone, hcount, Nat.add_zero]
  · have hindex : (source.take index).length = index := List.length_take_of_le h
    rw [hbefore, List.length_append] at hindex
    rw [hlength]
    exact hindex

end TagTemplate.Source
