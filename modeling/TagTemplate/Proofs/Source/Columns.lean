import Mathlib.Data.Set.Function
import TagTemplate.Proofs.Source.Lines
import TagTemplate.Template.Error

/-! Characters and columns stand for each other: the place of a character is its column, in the order
of the characters, and the column leads back to the character. The end of a line has a column of its
own, which is that of the line feed. -/
namespace TagTemplate.Source

variable {source : List Char} {index : Nat}

theorem lineFrom_of_ne (h : index < source.length) (hc : source[index] ≠ '\n') :
    ∃ rest, lineFrom source index = source[index] :: rest := by
  unfold lineFrom
  rw [List.drop_eq_getElem_cons h, List.takeWhile_cons_of_pos (by simpa using hc)]
  exact ⟨_, rfl⟩

theorem lineFrom_of_eq (h : index < source.length) (hc : source[index] = '\n') :
    lineFrom source index = [] := by
  unfold lineFrom
  rw [List.drop_eq_getElem_cons h, List.takeWhile_cons_of_neg (by simpa using hc)]

theorem getElem?_lines_place (h : index ≤ source.length) :
    (lines source)[(place source index).line - 1]? = some (place source index).text := by
  obtain ⟨earlier, later, -, hlines, hline, -⟩ := exists_lines_around h
  rw [hlines, hline, Nat.add_sub_cancel]
  simp

theorem indexOf_place (h : index ≤ source.length) :
    indexOf (lines source) (place source index).lineAndColumn = index := by
  obtain ⟨earlier, later, -, hlines, hline, hindex, -⟩ := exists_lines_around h
  have hearlier : lengthBefore (lines source) earlier.length =
      lengthBefore earlier earlier.length := by
    unfold lengthBefore
    rw [hlines, List.take_left, List.take_length]
  simp only [indexOf, Place.lineAndColumn, hline, Nat.add_sub_cancel, hearlier]
  exact hindex

theorem line_lt_length (h : index < source.length) (hc : source[index] = '\n') :
    (place source index).lineAndColumn.1 < (lines source).length := by
  obtain ⟨earlier, later, back, hlines, hline, -, hback, hlater⟩ := exists_lines_around h.le
  rw [lineFrom_of_eq h hc, List.nil_append] at hback
  have hmore : later ≠ [] := by
    intro hnone
    rw [hlater.mp hnone, List.drop_eq_nil_iff] at hback
    omega
  have := List.length_pos_iff.mpr hmore
  rw [Place.lineAndColumn, hlines, hline, List.length_append, List.length_cons]
  omega

theorem offset_add_length (source : List Char) (index : Nat) :
    (place source index).offset + (lineFrom source index).length =
      (place source index).text.length :=
  List.length_append.symm

theorem isColumn_place (h : index < source.length) :
    IsColumn (lines source) (place source index).lineAndColumn where
  one_le_line := Nat.le_add_left ..
  one_le_column := Nat.le_add_left ..
  column_le := by
    refine ⟨_, getElem?_lines_place h.le, ?_⟩
    have hcolumn : (place source index).lineAndColumn.2 = (place source index).offset + 1 := rfl
    rw [hcolumn, ← offset_add_length]
    by_cases hc : source[index] = '\n'
    · rw [if_pos (line_lt_length h hc)]
      omega
    · obtain ⟨rest, hrest⟩ := lineFrom_of_ne h hc
      rw [hrest, List.length_cons]
      omega

theorem characterAt?_place (h : index < source.length) :
    characterAt? (lines source) (place source index).lineAndColumn = some source[index] := by
  have hline : (lines source)[(place source index).lineAndColumn.1 - 1]? =
      some (place source index).text := getElem?_lines_place h.le
  unfold characterAt?
  rw [hline, Option.bind_some]
  by_cases hc : source[index] = '\n'
  · rw [if_pos (line_lt_length h hc), hc]
    simp [Place.lineAndColumn, place, lineFrom_of_eq h hc]
  · obtain ⟨rest, hrest⟩ := lineFrom_of_ne h hc
    simp [Place.lineAndColumn, place, hrest]

theorem mapsTo_lineAndColumn (source : List Char) :
    Set.MapsTo (fun index => (place source index).lineAndColumn) {index | index < source.length}
      {p | IsColumn (lines source) p} := by
  intro index h
  exact isColumn_place h

theorem injOn_lineAndColumn (source : List Char) :
    Set.InjOn (fun index => (place source index).lineAndColumn) {index | index < source.length} := by
  have hinverse : Set.LeftInvOn (indexOf (lines source))
      (fun index => (place source index).lineAndColumn) {index | index < source.length} := by
    intro index h
    exact indexOf_place (Nat.le_of_lt h)
  exact hinverse.injOn

theorem surjOn_lineAndColumn (source : List Char) :
    Set.SurjOn (fun index => (place source index).lineAndColumn) {index | index < source.length}
      {p | IsColumn (lines source) p} := by
  intro p hp
  have hindex := indexOf_lt_length hp
  refine ⟨indexOf (lines source) p, hindex, ?_⟩
  exact eq_of_indexOf_eq (isColumn_place hindex) hp (indexOf_place hindex.le)

theorem strictMonoOn_lineAndColumn (source : List Char) :
    StrictMonoOn (fun index => toLex (place source index).lineAndColumn)
      {index | index < source.length} := by
  intro i hi k hk hless
  apply lt_of_not_ge
  intro hle
  rcases hle.eq_or_lt with heq | hlt
  · exact hless.ne' (injOn_lineAndColumn source hk hi (toLex_inj.mp heq))
  · have := (isColumn_place hk).indexOf_lt_indexOf hlt
    rw [indexOf_place (Nat.le_of_lt hi), indexOf_place (Nat.le_of_lt hk)] at this
    omega

theorem place?_of_lt (h : index < source.length) :
    place? source index = .ok (place source index) := by
  unfold place?
  rw [if_pos (by omega), Int.toNat_natCast]

theorem trace?_of_lt (h : index < source.length) :
    trace? source index = .ok (trace source index) := by
  unfold trace?
  rw [place?_of_lt h]
  rfl

theorem eq_of_at?_eq_ok {fault : Template.Fault} {message : String} {index : Int}
    {e : Template.SyntaxError} (h : Template.SyntaxError.at? fault message source index = .ok e) :
    e.source = source ∧ (e.index : Int) = index := by
  unfold Template.SyntaxError.at? at h
  split at h
  · next hinside =>
    cases h
    exact ⟨rfl, Int.toNat_of_nonneg hinside.1⟩
  · cases h

theorem error_place {e : Template.SyntaxError} (h : e.source = source) :
    place? source e.index = .ok e.place ∧ trace? source e.index = .ok e.trace := by
  subst h
  exact ⟨place?_of_lt e.index_lt, trace?_of_lt e.index_lt⟩

/-- The characters of a source and the columns of its lines are the same thing twice, in the same
order; an error names the line, the column and the trace of its own character. -/
theorem characters_are_columns (source : List Char) :
    Set.BijOn (fun index => (place source index).lineAndColumn) {index | index < source.length}
      {p | IsColumn (lines source) p} ∧
    StrictMonoOn (fun index => toLex (place source index).lineAndColumn)
      {index | index < source.length} ∧
    (∀ (index : Nat) (h : index < source.length),
      place? source index = .ok (place source index) ∧
      characterAt? (lines source) (place source index).lineAndColumn = some source[index] ∧
      indexOf (lines source) (place source index).lineAndColumn = index) ∧
    (∀ e : Template.SyntaxError, e.source = source →
      place? source e.index = .ok e.place ∧ trace? source e.index = .ok e.trace) ∧
    ∀ (fault : Template.Fault) (message : String) (index : Int) (e : Template.SyntaxError),
      Template.SyntaxError.at? fault message source index = .ok e →
      (e.index : Int) = index ∧ place? source index = .ok e.place ∧
        trace? source index = .ok e.trace := by
  refine ⟨⟨mapsTo_lineAndColumn source, injOn_lineAndColumn source, surjOn_lineAndColumn source⟩,
    strictMonoOn_lineAndColumn source, ?_, ?_, ?_⟩
  · intro index h
    exact ⟨place?_of_lt h, characterAt?_place h, indexOf_place h.le⟩
  · intro e h
    exact error_place h
  · intro fault message index e h
    obtain ⟨hsource, hindex⟩ := eq_of_at?_eq_ok h
    rw [← hindex]
    exact ⟨rfl, error_place hsource⟩

/-- Blank lines at both ends: the second line feed ends the line of the letter, the third one has a
line for itself, and an error at the letter behind them is on the fourth line. -/
theorem characters_are_columns_around_blank_lines :
    toLex (2, 2) < toLex (3, 1) ∧
    (∃ index < 5, (place ['\n', 'a', '\n', '\n', 'b'] index).lineAndColumn = (3, 1)) ∧
    characterAt? (lines ['\n', 'a', '\n', '\n', 'b']) (2, 2) = some '\n' ∧
    indexOf (lines ['\n', 'a', '\n', '\n', 'b']) (2, 2) = 2 ∧
    trace? ['\n', 'a', '\n', '\n', 'b'] 4 = .ok "b\n^" ∧
    place? ['\n', 'a', '\n', '\n', 'b'] 4 = .ok ⟨4, 0, ['b']⟩ := by
  obtain ⟨hcolumns, horder, hcharacters, herrors, hat⟩ :=
    characters_are_columns ['\n', 'a', '\n', '\n', 'b']
  have hcolumn : IsColumn (lines ['\n', 'a', '\n', '\n', 'b']) (3, 1) :=
    ⟨by decide, by decide, [], rfl, by decide⟩
  obtain ⟨-, hcharacter, hindex⟩ := hcharacters 2 (by decide)
  obtain ⟨-, htrace⟩ := herrors ⟨.unexpectedToken, "Unexpected token", _, 4, by decide⟩ rfl
  obtain ⟨-, hplace, -⟩ := hat .unexpectedToken "Unexpected token" 4 ⟨_, _, _, 4, by decide⟩ rfl
  exact ⟨horder (show 2 < 5 by decide) (show 3 < 5 by decide) (by decide),
    hcolumns.surjOn hcolumn, hcharacter, hindex, htrace, hplace⟩

end TagTemplate.Source
