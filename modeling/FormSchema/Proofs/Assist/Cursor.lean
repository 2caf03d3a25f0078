import FormSchema.Assist.Insertion
import FormSchema.Proofs.Text.Cursor

/-!
# Insertion at a cursor

A planned insertion has the line and the column of a cursor in the text, and to make it is to put
its text between the two parts of the text around that cursor.
-/

namespace FormSchema.Insertion

/-- An insertion at the end of a front is made between the front and what follows. -/
theorem applyTo_append {i : Insertion} {before : Text} (hline : i.line = before.count .lineFeed)
    (hcharacter : i.character = before.lastLine.length) (after : Text) :
    i.applyTo (before ++ after) = before ++ (i.text ++ after) := by
  rw [applyTo, hline, hcharacter]
  exact Text.unlines_modify_append before after i.text

/-- What is planned is planned for the line and the column that were asked for, and within the
text. -/
theorem place_of_plan {text : Text} {line character : Int} {kind : InsertionKind} {i : Insertion}
    (h : plan text line character kind = .ok i) :
    line = i.line ∧ character = i.character ∧ i.line < text.lines.length ∧
      i.character ≤ (text.lines.getD i.line []).length := by
  -- the guards on the line and on the column are what the place satisfies
  simp only [plan] at h
  split at h
  · cases h
  · next hline =>
    split at h
    · cases h
    · next hcharacter =>
      split at h
      · cases h
      · cases h
        simp only [Bool.or_eq_true, decide_eq_true_eq, not_or] at hline hcharacter
        have hinside : line.toNat < text.lines.length := by omega
        have hcolumn : character.toNat ≤ (text.lines.getD line.toNat []).length := by omega
        exact ⟨(Int.toNat_of_nonneg (by omega)).symm, (Int.toNat_of_nonneg (by omega)).symm,
          hinside, hcolumn⟩

/-- What is planned is planned at a cursor of the text. -/
theorem exists_cursor_of_plan {text : Text} {line character : Int} {kind : InsertionKind}
    {i : Insertion} (h : plan text line character kind = .ok i) :
    ∃ before after, text = before ++ after ∧ i.line = before.count .lineFeed ∧
      i.character = before.lastLine.length := by
  obtain ⟨-, -, hinside, hcolumn⟩ := place_of_plan h
  obtain ⟨before, after, htext, hbefore, hlast⟩ := text.exists_cursor hinside hcolumn
  exact ⟨before, after, htext, hbefore.symm, hlast.symm⟩

end FormSchema.Insertion
