import TagTemplate.Proofs.Source.Columns

/-! What a trace shows. The line of a character is cut around it, in front and behind, and the caret
goes where the character stands in what is left; all that is shown of the line stands as far from the
caret as it stands from the character. -/
namespace TagTemplate.Source

/-- What is shown of the text in front of a caret: a long one is cut to its last characters. -/
inductive EndShown (text : List Char) : List Char → Prop where
  | whole (h : text.length ≤ 18) : EndShown text text
  | cut {far near : List Char} (h : 18 < text.length) (htext : text = far ++ near)
      (hnear : near.length = 15) : EndShown text (['.', '.', '.'] ++ near)

inductive StartShown (text : List Char) : List Char → Prop where
  | whole (h : text.length ≤ 19) : StartShown text text
  | cut {near far : List Char} (h : 19 < text.length) (htext : text = near ++ far)
      (hnear : near.length = 16) : StartShown text (near ++ ['.', '.', '.'])

/-- Outside the ellipses, what stands at some distance from the caret is the character of the line
that stands at this distance from the column. -/
def KeepsDistance (text : List Char) (offset : Nat) (shown : List Char) (caret : Nat) : Prop :=
  ∀ q < shown.length,
    (18 < offset ∧ q < 3) ∨ (19 < text.length - offset ∧ shown.length ≤ q + 3) ∨
    ∃ j, q + offset = j + caret ∧ text[j]? = shown[q]?

variable {source text shown before after : List Char} {index q offset : Nat}

theorem endShown_shownBefore (text : List Char) : EndShown text (shownBefore text) := by
  unfold shownBefore beforeLimit beforeKept ellipsis
  split
  · next hlong =>
    apply EndShown.cut hlong (List.take_append_drop (text.length - 15) text).symm
    rw [List.length_drop]
    omega
  · next hshort => exact .whole (Nat.le_of_not_lt hshort)

theorem startShown_shownFrom (text : List Char) : StartShown text (shownFrom text) := by
  unfold shownFrom fromLimit fromKept ellipsis
  split
  · next hlong =>
    apply StartShown.cut hlong (List.take_append_drop 16 text).symm
    rw [List.length_take]
    omega
  · next hshort => exact .whole (Nat.le_of_not_lt hshort)

theorem EndShown.length_le (h : EndShown text shown) : shown.length ≤ 18 := by
  cases h with
  | whole h => exact h
  | cut h htext hnear => exact Nat.le_of_eq (by simp [hnear])

theorem StartShown.length_le (h : StartShown text shown) : shown.length ≤ 19 := by
  cases h with
  | whole h => exact h
  | cut h htext hnear => exact Nat.le_of_eq (by simp [hnear])

theorem EndShown.notMem (h : EndShown text shown) (htext : '\n' ∉ text) : '\n' ∉ shown := by
  cases h <;> simp_all

theorem StartShown.notMem (h : StartShown text shown) (htext : '\n' ∉ text) : '\n' ∉ shown := by
  cases h <;> simp_all

theorem StartShown.head? (h : StartShown text shown) : shown.head? = text.head? := by
  cases h with
  | whole h => rfl
  | cut h htext hnear =>
    obtain ⟨c, rest, rfl⟩ := List.exists_cons_of_length_eq_add_one hnear
    rw [htext]
    rfl

theorem EndShown.getElem?_of_lt (h : EndShown text shown) (hq : q < shown.length) :
    (18 < text.length ∧ q < 3) ∨ ∃ j, q + text.length = j + shown.length ∧ text[j]? = shown[q]? := by
  cases h with
  | whole h => exact .inr ⟨q, rfl, rfl⟩
  | @cut far near h htext hnear =>
    by_cases hdots : q < 3
    · exact .inl ⟨h, hdots⟩
    · subst htext
      refine .inr ⟨far.length + (q - 3), ?_, ?_⟩
      · simp only [List.length_append, List.length_cons, List.length_nil]
        omega
      · rw [List.getElem?_append_right (Nat.le_add_right ..),
          List.getElem?_append_right (by simpa using hdots)]
        simp

theorem StartShown.getElem?_of_lt (h : StartShown text shown) (hq : q < shown.length) :
    (19 < text.length ∧ shown.length ≤ q + 3) ∨ text[q]? = shown[q]? := by
  cases h with
  | whole h => exact .inr rfl
  | @cut near far h htext hnear =>
    by_cases hkept : q < near.length
    · right
      rw [htext, List.getElem?_append_left hkept, List.getElem?_append_left hkept]
    · left
      rw [List.length_append, List.length_cons, List.length_cons, List.length_cons, List.length_nil]
      exact ⟨h, by omega⟩

theorem keepsDistance_append (hbefore : EndShown (text.take offset) before)
    (hafter : StartShown (text.drop offset) after) (hoffset : offset ≤ text.length) :
    KeepsDistance text offset (before ++ after) before.length := by
  intro q hq
  by_cases hfront : q < before.length
  · rcases hbefore.getElem?_of_lt hfront with ⟨hlong, hdots⟩ | ⟨j, hj, hsame⟩
    · exact .inl ⟨by rw [List.length_take] at hlong; omega, hdots⟩
    · rw [List.length_take_of_le hoffset] at hj
      refine .inr (.inr ⟨j, hj, ?_⟩)
      rw [List.getElem?_append_left hfront, ← hsame, List.getElem?_take_of_lt (by omega)]
  · rw [List.length_append] at hq ⊢
    rcases hafter.getElem?_of_lt (q := q - before.length) (by omega) with ⟨hlong, hdots⟩ | hsame
    · exact .inr (.inl ⟨by rwa [List.length_drop] at hlong, by omega⟩)
    · refine .inr (.inr ⟨offset + (q - before.length), by omega, ?_⟩)
      rw [List.getElem?_append_right (Nat.le_of_not_lt hfront), ← hsame, List.getElem?_drop]

theorem lines_caretBetween (hbefore : '\n' ∉ before) (hafter : '\n' ∉ after) :
    lines (caretBetween before after) =
      [shownBefore before ++ shownFrom after,
        List.replicate (shownBefore before).length ' ' ++ ['^']] := by
  have hshown : '\n' ∉ shownBefore before ++ shownFrom after := by
    rw [List.mem_append, not_or]
    exact ⟨(endShown_shownBefore before).notMem hbefore, (startShown_shownFrom after).notMem hafter⟩
  have hcaret : '\n' ∉ List.replicate (shownBefore before).length ' ' ++ ['^'] := by simp
  unfold caretBetween
  rw [lines_append, lines_of_notMem hshown, lines_of_notMem hcaret, List.singleton_append]

theorem take_place (source : List Char) (index : Nat) :
    (place source index).text.take (place source index).offset = lineBefore source index :=
  List.take_left

theorem drop_place (source : List Char) (index : Nat) :
    (place source index).text.drop (place source index).offset = lineFrom source index :=
  List.drop_left

theorem trace_toList (source : List Char) (index : Nat) :
    (trace source index).toList = caretBetween (lineBefore source index) (lineFrom source index) := by
  have hoffset : ¬((place source index).offset : Int) < 0 := Int.not_lt.mpr (Int.natCast_nonneg _)
  simp only [trace, focus, if_neg hoffset, Int.toNat_natCast, take_place, drop_place,
    String.toList_ofList]

theorem trace?_of_outside {index : Int} (h : index < 0 ∨ source.length ≤ index) :
    trace? source index = .error ⟨index, source.length⟩ := by
  unfold trace? place?
  rw [if_neg (by omega)]
  rfl

/-- The character stands where the caret does, or the shown line ends there. -/
theorem shown_at_caret (h : index < source.length)
    (hafter : StartShown (lineFrom source index) after) :
    (source[index] ≠ '\n' → (before ++ after)[before.length]? = some source[index]) ∧
    (source[index] = '\n' → before.length = (before ++ after).length) := by
  constructor
  · intro hc
    obtain ⟨rest, hrest⟩ := lineFrom_of_ne h hc
    rw [List.getElem?_append_right (Nat.le_refl _), Nat.sub_self, ← List.head?_eq_getElem?,
      hafter.head?, hrest, List.head?_cons]
  · intro hc
    have hnone := hafter.head?
    rw [lineFrom_of_eq h hc, List.head?_nil, List.head?_eq_none_iff] at hnone
    rw [hnone, List.append_nil]

/-- A trace has two lines, neither of them long: what is shown of the line of the character, and the
caret under this character. Elsewhere there is no trace. -/
theorem caret_under_character (source : List Char) :
    (∀ (index : Nat) (h : index < source.length),
      ∃ (t : String) (shown text : List Char) (row offset caret : Nat),
        trace? source index = .ok t ∧
        lines t.toList = [shown, List.replicate caret ' ' ++ ['^']] ∧
        caret ≤ 18 ∧ shown.length ≤ 37 ∧
        (source[index] ≠ '\n' → shown[caret]? = some source[index]) ∧
        (source[index] = '\n' → caret = shown.length) ∧
        (lines source)[row]? = some text ∧ lengthBefore (lines source) row + offset = index ∧
        offset ≤ text.length ∧
        (∃ before after, shown = before ++ after ∧ caret = before.length ∧
          EndShown (text.take offset) before ∧ StartShown (text.drop offset) after) ∧
        KeepsDistance text offset shown caret) ∧
    ∀ index : Int, index < 0 ∨ source.length ≤ index →
      trace? source index = .error ⟨index, source.length⟩ := by
  refine ⟨?_, fun index => trace?_of_outside⟩
  intro index h
  have hbefore := endShown_shownBefore (lineBefore source index)
  have hafter := startShown_shownFrom (lineFrom source index)
  have hoffset : (place source index).offset ≤ (place source index).text.length :=
    offset_add_length source index ▸ Nat.le_add_right ..
  have hlines : lines (trace source index).toList = _ :=
    trace_toList source index ▸
      lines_caretBetween (notMem_lineBefore source index) (notMem_lineFrom source index)
  refine ⟨trace source index, _, (place source index).text, (place source index).line - 1,
    (place source index).offset, _, trace?_of_lt h, hlines, hbefore.length_le, ?_,
    (shown_at_caret h hafter).1, (shown_at_caret h hafter).2, getElem?_lines_place h.le,
    indexOf_place h.le, hoffset, ⟨_, _, rfl, rfl, ?_, ?_⟩, ?_⟩
  · have := hbefore.length_le
    have := hafter.length_le
    rw [List.length_append]
    omega
  · rwa [take_place]
  · rwa [drop_place]
  · apply keepsDistance_append _ _ hoffset
    · rwa [take_place]
    · rwa [drop_place]

/-- A line that is cut on both sides, behind a blank one, and the two indices next to the source. -/
theorem caret_under_character_of_long_line :
    (∃ (t : String) (shown : List Char) (caret : Nat),
      trace? (['\n'] ++ List.replicate 20 'a' ++ ['b'] ++ List.replicate 20 'c') 21 = .ok t ∧
      lines t.toList = [shown, List.replicate caret ' ' ++ ['^']] ∧ caret ≤ 18 ∧
      shown[caret]? = some 'b') ∧
    trace? (['\n'] ++ List.replicate 20 'a' ++ ['b'] ++ List.replicate 20 'c') 42 =
      .error ⟨42, 42⟩ ∧
    trace? (['\n'] ++ List.replicate 20 'a' ++ ['b'] ++ List.replicate 20 'c') (-1) =
      .error ⟨-1, 42⟩ := by
  obtain ⟨hinside, houtside⟩ := caret_under_character
    (['\n'] ++ List.replicate 20 'a' ++ ['b'] ++ List.replicate 20 'c')
  obtain ⟨t, shown, -, -, -, caret, htrace, hlines, hcaret, -, hcharacter, -⟩ :=
    hinside 21 (by decide)
  exact ⟨⟨t, shown, caret, htrace, hlines, hcaret, hcharacter (by decide)⟩,
    houtside 42 (.inr (by decide)), houtside (-1) (.inl (by decide))⟩

example : trace? (['\n'] ++ List.replicate 20 'a' ++ ['b'] ++ List.replicate 20 'c') 21 =
    .ok "...aaaaaaaaaaaaaaabccccccccccccccc...\n                  ^" := by
  decide +kernel

end TagTemplate.Source
