import FormSchema.Proofs.Text.Lines
import Mathlib.Data.List.Basic

/-!
# Cursors

A cursor splits a text in two.  Its line is the number of line feeds in front of it, and its column
is the length of the last line in front of it.  Text spliced into that line at that column comes to
stand between the two parts, and the other lines stay as they are.
-/

namespace FormSchema.Text

/-! ## Section 1: Lines around a cursor -/

/-- What stands in front of a cursor on its own line. -/
def lastLine (before : Text) : Text := before.lines.getLastD []

/-- A line that goes on behind a cursor joins the parts of it on both sides. -/
theorem exists_lines_append (before after : Text) :
    ∃ above last first rest, lines before = above ++ [last] ∧ lines after = first :: rest ∧
      lines (before ++ after) = above ++ (last ++ first) :: rest := by
  obtain ⟨first, rest, hafter⟩ := exists_first_line after
  -- from the cursor to the front
  induction before with
  | nil => exact ⟨[], [], first, rest, rfl, hafter, hafter⟩
  | cons c before ih =>
    obtain ⟨above, last, first, rest, hbefore, hafter, happend⟩ := ih
    by_cases hc : c = .lineFeed
    · subst hc
      refine ⟨[] :: above, last, first, rest, ?_, hafter, ?_⟩
      · exact (lines_append_cons [] before).trans (congrArg ([] :: ·) hbefore)
      · exact (lines_append_cons [] (before ++ after)).trans (congrArg ([] :: ·) happend)
    · have hcons (t : Text) : lines (c :: t) = consPiece c (lines t) := by
        rw [lines, split_cons, if_neg hc]
        rfl
      rw [List.cons_append, hcons, hcons, hbefore, happend]
      cases above with
      | nil => exact ⟨[], c :: last, first, rest, rfl, hafter, rfl⟩
      | cons line above => exact ⟨(c :: line) :: above, last, first, rest, rfl, hafter, rfl⟩

/-- The lines of a text, seen from a cursor in it. -/
theorem lines_append (before after : Text) :
    ∃ above first rest, above.length = before.count .lineFeed ∧
      lines before = above ++ [before.lastLine] ∧ lines after = first :: rest ∧
      lines (before ++ after) = above ++ (before.lastLine ++ first) :: rest := by
  obtain ⟨above, last, first, rest, hbefore, hafter, happend⟩ := exists_lines_append before after
  have hlast : before.lastLine = last := by rw [lastLine, hbefore, List.getLastD_concat]
  have hlength := length_lines before
  rw [hbefore, List.length_append, List.length_singleton] at hlength
  exact ⟨above, first, rest, Nat.succ.inj hlength, hlast ▸ hbefore, hafter, hlast ▸ happend⟩

/-- In front of a cursor stand the lines above, each with its line feed, and the beginning of its
own line. -/
theorem eq_above_append {before : Text} {above : List Text}
    (h : lines before = above ++ [before.lastLine]) :
    before = above.flatMap (· ++ [.lineFeed]) ++ before.lastLine := by
  conv_lhs => rw [← unlines_lines before, h, unlines, join_append_cons, List.flatMap_nil,
    List.append_nil]

/-- The line of a cursor. -/
theorem getD_lines_append (before after : Text) :
    ∃ first rest, lines after = first :: rest ∧
      (lines (before ++ after)).getD (before.count .lineFeed) [] = before.lastLine ++ first ∧
      (lines (before ++ after)).drop (before.count .lineFeed + 1) = rest := by
  obtain ⟨above, first, rest, hlength, -, hafter, happend⟩ := lines_append before after
  refine ⟨first, rest, hafter, ?_, ?_⟩
  · rw [happend, ← hlength, List.getD_eq_getElem?_getD, List.getElem?_append_right (Nat.le_refl _),
      Nat.sub_self]
    rfl
  · rw [happend, ← hlength, List.append_cons]
    apply List.drop_left'
    rw [List.length_append, List.length_singleton]

/-! ## Section 2: Splicing -/

/-- A text is spliced in behind a front. -/
theorem spliceAt_append_length (a b inserted : Text) :
    (a ++ b).spliceAt a.length inserted = a ++ (inserted ++ b) := by
  rw [spliceAt, List.take_left, List.drop_left, List.append_assoc]

private theorem modify_append_cons {α : Type} (above : List α) (line : α) (rest : List α)
    (f : α → α) :
    (above ++ line :: rest).modify above.length f = above ++ f line :: rest := by
  rw [List.modify_eq_take_cons_drop (by simp)]
  simp

/-- What is spliced into the line of a cursor at its column stands between the two parts. -/
theorem unlines_modify_append (before after inserted : Text) :
    unlines ((lines (before ++ after)).modify (before.count .lineFeed)
      fun line => line.spliceAt before.lastLine.length inserted) =
        before ++ (inserted ++ after) := by
  obtain ⟨above, first, rest, hlength, hbefore, hafter, happend⟩ := lines_append before after
  have hback : after = first ++ rest.flatMap ([.lineFeed] ++ ·) := by
    conv_lhs => rw [← unlines_lines after, hafter, unlines, join_cons]
  rw [happend, ← hlength, modify_append_cons, spliceAt_append_length, unlines, join_append_cons]
  conv_rhs => rw [eq_above_append hbefore, hback]
  simp only [List.append_assoc]

/-! ## Section 3: Cursors on a line -/

/-- The pieces of a text have no separator in them. -/
theorem not_mem_of_mem_split {sep : CodePoint} {t p : Text} (h : p ∈ split sep t) : sep ∉ p := by
  -- a separator begins another part, and any other code point goes to the first one
  induction t generalizing p with
  | nil =>
    rw [split_nil, List.mem_singleton] at h
    rw [h]
    exact List.not_mem_nil
  | cons c t ih =>
    rw [split_cons] at h
    split at h
    · rcases List.mem_cons.mp h with rfl | h
      · exact List.not_mem_nil
      · exact ih h
    · next hc =>
      obtain ⟨first, rest, ht⟩ := List.exists_cons_of_ne_nil (split_ne_nil sep t)
      rw [ht] at h ih
      rcases List.mem_cons.mp h with rfl | h
      · rw [List.mem_cons, not_or]
        exact ⟨Ne.symm hc, ih List.mem_cons_self⟩
      · exact ih (List.mem_cons_of_mem _ h)

private theorem lines_unlines {ls : List Text} (hne : ls ≠ [])
    (h : ∀ l ∈ ls, CodePoint.lineFeed ∉ l) :
    lines (unlines ls) = ls :=
  split_join hne h

/-- Every column of every line of a text is that of a cursor. -/
theorem exists_cursor (t : Text) {line column : Nat} (hline : line < t.lines.length)
    (hcolumn : column ≤ (t.lines.getD line []).length) :
    ∃ before after, t = before ++ after ∧ before.count .lineFeed = line ∧
      before.lastLine.length = column := by
  have hget : t.lines.getD line [] = t.lines[line] := by
    rw [List.getD_eq_getElem?_getD, List.getElem?_eq_getElem hline, Option.getD_some]
  rw [hget] at hcolumn
  have hlines : t.lines = t.lines.take line ++ t.lines[line] :: t.lines.drop (line + 1) := by
    rw [← List.drop_eq_getElem_cons hline, List.take_append_drop]
  -- in front of the cursor stand the lines above and the beginning of its own
  have hbefore : lines (unlines (t.lines.take line ++ [t.lines[line].take column])) =
      t.lines.take line ++ [t.lines[line].take column] := by
    apply lines_unlines (by simp)
    intro l hl
    rcases List.mem_append.mp hl with hl | hl
    · exact not_mem_of_mem_split (List.mem_of_mem_take hl)
    · rw [List.mem_singleton.mp hl]
      intro hmem
      exact not_mem_of_mem_split (List.getElem_mem hline) (List.mem_of_mem_take hmem)
  have hlength := length_lines (unlines (t.lines.take line ++ [t.lines[line].take column]))
  rw [hbefore, List.length_append, List.length_take_of_le (Nat.le_of_lt hline)] at hlength
  refine ⟨unlines (t.lines.take line ++ [t.lines[line].take column]),
    t.lines[line].drop column ++ (t.lines.drop (line + 1)).flatMap ([.lineFeed] ++ ·), ?_,
    (Nat.succ.inj hlength).symm, ?_⟩
  · have ht : t = (t.lines.take line).flatMap (· ++ [.lineFeed]) ++ t.lines[line] ++
        (t.lines.drop (line + 1)).flatMap ([.lineFeed] ++ ·) := by
      rw [← join_append_cons, ← hlines]
      exact (unlines_lines t).symm
    rw [unlines, join_append_cons, List.flatMap_nil, List.append_nil]
    conv_lhs => rw [ht, ← List.take_append_drop column t.lines[line]]
    simp only [List.append_assoc]
  · rw [lastLine, hbefore, List.getLastD_concat, List.length_take_of_le hcolumn]

/-! ## Section 4: Offsets -/

/-- How many code points stand in front of a column on a line: the lines above with their line
feeds, and the columns before. -/
def offset (t : Text) (line column : Nat) : Nat :=
  ((t.lines.take line).flatMap (· ++ [.lineFeed])).length + column

/-- A cursor stands behind as many code points as its line and column say. -/
theorem offset_append (before after : Text) :
    (before ++ after).offset (before.count .lineFeed) before.lastLine.length = before.length := by
  obtain ⟨above, first, rest, hlength, hbefore, -, happend⟩ := lines_append before after
  rw [offset, happend, ← hlength, List.take_left]
  conv_rhs => rw [eq_above_append hbefore, List.length_append]

private theorem lines_unlines_eq_flatMap {ls : List Text} (hne : ls ≠ []) :
    lines (unlines ls) = ls.flatMap lines := by
  induction ls with
  | nil => exact absurd rfl hne
  | cons l ls ih =>
    by_cases hnil : ls = []
    · rw [hnil, unlines, join, List.intercalate_singleton, List.flatMap_singleton]
    · rw [unlines_cons_of_ne_nil l hnil, lines_append_cons, ih hnil, List.flatMap_cons]

/-- Lines of a text have no lines but themselves. -/
theorem flatMap_lines_of_subset {ls : List Text} {t : Text} (h : ls ⊆ t.lines) :
    ls.flatMap lines = ls := by
  induction ls with
  | nil => rfl
  | cons l ls ih =>
    obtain ⟨hl, hls⟩ := List.cons_subset.mp h
    have hline : lines l = [l] := split_of_not_mem (not_mem_of_mem_split hl)
    rw [List.flatMap_cons, hline, ih hls]
    rfl

/-- What is done to one line leaves the lines above and below it, in their order. -/
theorem lines_unlines_modify {t : Text} {line : Nat} (hline : line < t.lines.length)
    (f : Text → Text) :
    lines (unlines (t.lines.modify line f)) =
      t.lines.take line ++ (lines (f (t.lines.getD line [])) ++ t.lines.drop (line + 1)) := by
  have hne : t.lines.modify line f ≠ [] := by
    rw [← List.length_pos_iff_ne_nil, List.length_modify]
    exact Nat.zero_lt_of_lt hline
  rw [lines_unlines_eq_flatMap hne, List.modify_eq_take_cons_drop hline, List.flatMap_append,
    List.flatMap_cons, flatMap_lines_of_subset (List.take_subset _ _),
    flatMap_lines_of_subset (List.drop_subset _ _), List.getD_eq_getElem?_getD,
    List.getElem?_eq_getElem hline, Option.getD_some]

end FormSchema.Text
