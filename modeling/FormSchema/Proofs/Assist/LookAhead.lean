import FormSchema.Proofs.Assist.Session
import FormSchema.Proofs.Text.Quotes

/-!
# The lines ahead of a cursor

What is inserted ends with a comma if a quoted token comes on the lines behind the cursor before a
closing line.  The first line that closes or carries a token decides, so what follows that line, and
all that stands above the line of the cursor, does not count.
-/

namespace FormSchema.Insertion

variable {line : Text} {lines others : List Text}

/-! ## Section 1: Lines that decide -/

/-- Whether a line without the blanks at its ends is a closing brace, perhaps with a comma. -/
def Closes (line : Text) : Prop := line.strip = "\x7d" ∨ line.strip = "\x7d,"

/-- Whether a word between quotation marks stands on a line. -/
def Carries (line : Text) : Prop := ∃ word : Text, .scalar '"' ∉ word ∧ word.inQuotes <:+: line

/-- Whether a line closes or carries a token. -/
def Decides (line : Text) : Prop := Closes line ∨ Carries line

private theorem isClosing_iff : isClosing line = true ↔ Closes line := by
  rw [isClosing, Bool.or_eq_true, decide_eq_true_iff, decide_eq_true_iff, Closes]

/-- The test of a token, in terms of what stands between two quotation marks. -/
private theorem hasToken_iff : hasToken line = true ↔ Carries line := by
  rw [hasToken, decide_eq_true_iff, Carries, Text.exists_quoted_iff]

private theorem decides_iff : Decides line ↔ isClosing line = true ∨ hasToken line = true := by
  rw [Decides, isClosing_iff, hasToken_iff]

private theorem not_decides_iff :
    ¬ Decides line ↔ isClosing line = false ∧ hasToken line = false := by
  rw [decides_iff, not_or, Bool.not_eq_true, Bool.not_eq_true]

/-- Behind a line that decides nothing is looked at. -/
theorem tokenBeforeClosing_of_decides (h : Decides line) (lines others : List Text) :
    tokenBeforeClosing (line :: lines) = tokenBeforeClosing (line :: others) := by
  rw [tokenBeforeClosing, tokenBeforeClosing]
  split
  · rfl
  · next hopen =>
    have htoken := (decides_iff.mp h).resolve_left hopen
    rw [if_pos htoken, if_pos htoken]

/-! ## Section 2: The scan -/

/-- The scan finds a line with two quotation marks unless that line or one before it closes. -/
theorem tokenBeforeClosing_iff :
    tokenBeforeClosing lines = true ↔ ∃ (j : Nat) (line : Text), lines[j]? = some line ∧
      2 ≤ line.count (.scalar '"') ∧
        ∀ (i : Nat) (passed : Text), i ≤ j → lines[i]? = some passed → ¬ Closes passed := by
  induction lines with
  | nil => simp [tokenBeforeClosing]
  | cons first rest ih =>
    rw [tokenBeforeClosing]
    split
    · next hcloses =>
      refine iff_of_false Bool.false_ne_true ?_
      rintro ⟨j, line, -, -, hopen⟩
      exact hopen 0 first j.zero_le rfl (isClosing_iff.mp hcloses)
    · next hopen =>
      rw [isClosing_iff] at hopen
      split
      · next htoken =>
        refine iff_of_true rfl ⟨0, first, rfl, of_decide_eq_true htoken, ?_⟩
        intro i passed hi hpassed
        obtain rfl := Nat.le_zero.mp hi
        cases hpassed
        exact hopen
      · next htoken =>
        -- the first line does not decide, so every index is one more than in the rest
        rw [ih]
        constructor
        · rintro ⟨j, line, hline, hcount, hbefore⟩
          refine ⟨j + 1, line, hline, hcount, fun i passed hi hpassed => ?_⟩
          cases i with
          | zero =>
            cases hpassed
            exact hopen
          | succ i => exact hbefore i passed (Nat.le_of_succ_le_succ hi) hpassed
        · rintro ⟨j, line, hline, hcount, hbefore⟩
          cases j with
          | zero =>
            cases hline
            exact absurd (decide_eq_true hcount) htoken
          | succ j =>
            refine ⟨j, line, hline, hcount, fun i passed hi hpassed => ?_⟩
            exact hbefore (i + 1) passed (Nat.succ_le_succ hi) hpassed

/-- The same for a whole document, from the line of a cursor. -/
theorem hasMoreProperties_iff (lines : List Text) (cursor : Nat) :
    hasMoreProperties lines cursor = true ↔
      ∃ (j : Nat) (line : Text), cursor < j ∧ lines[j]? = some line ∧
        2 ≤ line.count (.scalar '"') ∧ ∀ (i : Nat) (passed : Text),
          cursor < i → i ≤ j → lines[i]? = some passed → ¬ Closes passed := by
  rw [hasMoreProperties, linesAfter_natCast, tokenBeforeClosing_iff]
  simp only [List.getElem?_drop]
  -- lines behind the cursor are counted from it on one side, from the top on the other
  constructor
  · rintro ⟨j, line, hline, hcount, hopen⟩
    refine ⟨cursor + 1 + j, line, by omega, hline, hcount, fun i passed hi hij hpassed => ?_⟩
    obtain ⟨k, rfl⟩ := Nat.exists_eq_add_of_le (Nat.succ_le_of_lt hi)
    exact hopen k passed (by omega) hpassed
  · rintro ⟨j, line, hj, hline, hcount, hopen⟩
    obtain ⟨k, rfl⟩ := Nat.exists_eq_add_of_le (Nat.succ_le_of_lt hj)
    refine ⟨k, line, hline, hcount, fun i passed hi hpassed => ?_⟩
    exact hopen (cursor + 1 + i) passed (by omega) (by omega) hpassed

/-- Lines that agree up to and including the first one that decides, or lines none of which does. -/
inductive AlikeAhead : List Text → List Text → Prop
  | decided {shared lines others : List Text} {line : Text}
      (hshared : ∀ passed ∈ shared, ¬ Decides passed) (hline : Decides line) :
      AlikeAhead (shared ++ line :: lines) (shared ++ line :: others)
  | undecided {lines others : List Text} (hlines : ∀ passed ∈ lines, ¬ Decides passed)
      (hothers : ∀ passed ∈ others, ¬ Decides passed) :
      AlikeAhead lines others

private theorem tokenBeforeClosing_of_undecided (h : ∀ passed ∈ lines, ¬ Decides passed) :
    tokenBeforeClosing lines = false := by
  rw [← List.append_nil lines,
    tokenBeforeClosing_append (fun passed hmem => not_decides_iff.mp (h passed hmem))]
  rfl

private theorem AlikeAhead.tokenBeforeClosing_eq (h : AlikeAhead lines others) :
    tokenBeforeClosing lines = tokenBeforeClosing others := by
  cases h with
  | decided hshared hline =>
    have hpassed := fun passed hmem => not_decides_iff.mp (hshared passed hmem)
    rw [tokenBeforeClosing_append hpassed, tokenBeforeClosing_append hpassed]
    exact tokenBeforeClosing_of_decides hline _ _
  | undecided hlines hothers =>
    rw [tokenBeforeClosing_of_undecided hlines, tokenBeforeClosing_of_undecided hothers]

/-! ## Section 3: The inserted text -/

/-- A line and a column in a text. -/
structure IsCursor (text : Text) (line character : Nat) : Prop where
  line_lt : line < text.lines.length
  character_le : character ≤ (text.lines.getD line []).length

/-- Where two texts have the same indentation at their cursors and are alike ahead of them, the same
is inserted. -/
theorem plan_eq_of_alikeAhead (kind : InsertionKind) {text other : Text}
    {line character otherLine otherCharacter : Nat} (htext : IsCursor text line character)
    (hother : IsCursor other otherLine otherCharacter)
    (hindentation : indentation (text.lines.getD line []) =
      indentation (other.lines.getD otherLine []))
    (hahead : AlikeAhead (text.lines.drop (line + 1)) (other.lines.drop (otherLine + 1))) :
    ∃ inserted, plan text line character kind = .ok ⟨inserted, line, character⟩ ∧
      plan other otherLine otherCharacter kind = .ok ⟨inserted, otherLine, otherCharacter⟩ := by
  -- the text is built from the indentation and from what the scan finds, and from nothing else
  obtain ⟨inserted, hbuild⟩ : ∃ inserted, build kind.dataType
      (indentation (text.lines.getD line []))
      (tokenBeforeClosing (text.lines.drop (line + 1))) = .ok inserted :=
    ⟨_, build_eq kind _ _⟩
  refine ⟨inserted, plan_eq_ok htext.line_lt htext.character_le hbuild, ?_⟩
  rw [hindentation, hahead.tokenBeforeClosing_eq] at hbuild
  exact plan_eq_ok hother.line_lt hother.character_le hbuild

/-- More properties follow a line exactly if there is a line with two quotation marks behind it, and
neither that line nor one in between closes.  So the insertion at a cursor depends on the
indentation of its line and on the lines behind it up to the first one that decides, and on nothing
else in the document. -/
theorem insertion_looks_ahead_only :
    (∀ (lines : List Text) (cursor : Nat), hasMoreProperties lines cursor = true ↔
      ∃ (j : Nat) (line : Text), cursor < j ∧ lines[j]? = some line ∧
        2 ≤ line.count (.scalar '"') ∧ ∀ (i : Nat) (passed : Text),
          cursor < i → i ≤ j → lines[i]? = some passed → ¬ Closes passed) ∧
    ∀ (kind : InsertionKind) (text other : Text)
      (line character otherLine otherCharacter : Nat),
      IsCursor text line character → IsCursor other otherLine otherCharacter →
      indentation (text.lines.getD line []) = indentation (other.lines.getD otherLine []) →
      AlikeAhead (text.lines.drop (line + 1)) (other.lines.drop (otherLine + 1)) →
      ∃ inserted, planFor text line character (.str kind.word) =
          .ok ⟨inserted, line, character⟩ ∧
        planFor other otherLine otherCharacter (.str kind.word) =
          .ok ⟨inserted, otherLine, otherCharacter⟩ := by
  refine ⟨hasMoreProperties_iff, ?_⟩
  intro kind text other line character otherLine otherCharacter htext hother hindentation hahead
  rw [planFor_word, planFor_word]
  exact plan_eq_of_alikeAhead kind htext hother hindentation hahead

/-- A document in which a quotation mark by itself and a closing brace between wide blanks stand
behind an opened data type. -/
def longDocument : Text :=
  "\x7b\n\t\"data_type\": \n  x \"\n\u00a0\x7d,\u2003\n\"key\": \"a\""

/-- A document that is the same from the data type to the brace. -/
def shortDocument : Text := "\t\"data_type\":\n  x \"\n\u00a0\x7d,\u2003\n]"

/-- Two documents that are alike up to the next closing brace get the same insertion. -/
theorem insertion_looks_ahead_to_brace :
    AlikeAhead (longDocument.lines.drop 2) (shortDocument.lines.drop 1) ∧
      ∃ inserted, planFor longDocument (1 : Nat) (14 : Nat) (.str "dropdown") =
          .ok ⟨inserted, 1, 14⟩ ∧
        planFor shortDocument (0 : Nat) (3 : Nat) (.str "dropdown") = .ok ⟨inserted, 0, 3⟩ := by
  have hshared : ∀ passed ∈ (["  x \""] : List Text), ¬ Decides passed :=
    List.forall_mem_singleton.mpr (not_decides_iff.mpr (by decide))
  have hbrace : Decides "\u00a0\x7d,\u2003" := .inl (.inr (by decide))
  have hahead : AlikeAhead (longDocument.lines.drop 2) (shortDocument.lines.drop 1) :=
    .decided hshared hbrace
  exact ⟨hahead, insertion_looks_ahead_only.2 .dropdown longDocument shortDocument 1 14 0 3
    ⟨by decide, by decide⟩ ⟨by decide, by decide⟩ (by decide) hahead⟩

end FormSchema.Insertion
