import FormSchema.Proofs.Text.Lines
import FormSchema.Rule
import Mathlib.Data.List.Basic
import Mathlib.Data.List.TakeWhile

/-!
# The form of rule identifiers

The check of an identifier accepts exactly what the pattern describes: two to four capitals, an
underscore, a word of capitals, digits and underscores that begins with a capital, another
underscore and three digits; and one line feed at the end, where the pattern asks for the end.
-/

namespace FormSchema.RuleId

variable {t : Text}

/-- Two to four capitals. -/
def IsArea (t : Text) : Prop := (2 ≤ t.length ∧ t.length ≤ 4) ∧ ∀ c ∈ t, isCapital c

/-- A word that begins with a capital. -/
def IsWord (t : Text) : Prop :=
  ∃ first rest, t = first :: rest ∧ isCapital first ∧ ∀ c ∈ rest, isWordPart c

/-- Three digits. -/
def IsNumber (t : Text) : Prop := t.length = 3 ∧ ∀ c ∈ t, c.isDigit

/-- Whether a text matches the pattern of identifiers. -/
def Matches (t : Text) : Prop :=
  ∃ area word number ending,
    t = area ++ .scalar '_' :: (word ++ .scalar '_' :: (number ++ ending)) ∧
    IsArea area ∧ IsWord word ∧ IsNumber number ∧ (ending = [] ∨ ending = [.lineFeed])

/-! ## Section 1: The parts -/

private theorem isNumberPart_iff :
    isNumberPart t = true ↔ ∃ number, t = .scalar '_' :: number ∧ IsNumber number := by
  constructor
  · intro h
    unfold isNumberPart at h
    split at h
    · next u a b c =>
      simp only [Bool.and_eq_true, decide_eq_true_eq] at h
      obtain ⟨⟨⟨rfl, ha⟩, hb⟩, hc⟩ := h
      exact ⟨[a, b, c], rfl, rfl, by simp [ha, hb, hc]⟩
    · cases h
  · rintro ⟨number, rfl, hlength, hdigits⟩
    -- three digits, as the definition reads them
    obtain ⟨a, b, c, rfl⟩ := List.length_eq_three.mp hlength
    simpa [isNumberPart, and_assoc] using hdigits

private theorem isWordPart_of_isCapital {c : CodePoint} (h : isCapital c = true) :
    isWordPart c = true := by
  rw [isWordPart, h, Bool.true_or, Bool.true_or]

private theorem isWord_iff :
    ((match t with
      | [] => false
      | c :: _ => isCapital c) && t.all isWordPart) = true ↔ IsWord t := by
  cases t with
  | nil => exact iff_of_false Bool.false_ne_true fun ⟨_, _, h, _⟩ => nomatch h
  | cons c t =>
    rw [Bool.and_eq_true, List.all_cons, Bool.and_eq_true, List.all_eq_true]
    constructor
    · rintro ⟨hc, -, ht⟩
      exact ⟨c, t, rfl, hc, ht⟩
    · rintro ⟨first, rest, heq, hfirst, hrest⟩
      cases heq
      exact ⟨hfirst, isWordPart_of_isCapital hfirst, hrest⟩

private theorem isTail_iff :
    isTail t = true ↔
      ∃ word number, t = word ++ .scalar '_' :: number ∧ IsWord word ∧ IsNumber number := by
  have hparts : isTail t = true ↔ IsWord (t.take (t.length - 4)) ∧
      ∃ number, t.drop (t.length - 4) = .scalar '_' :: number ∧ IsNumber number := by
    rw [isTail, Bool.and_eq_true]
    exact and_congr isWord_iff isNumberPart_iff
  rw [hparts]
  constructor
  · rintro ⟨hword, number, heq, hnumber⟩
    exact ⟨_, number, by rw [← heq, List.take_append_drop], hword, hnumber⟩
  · rintro ⟨word, number, rfl, hword, hnumber⟩
    -- a number has three digits, so that the word ends four before the end
    have hlength : (word ++ .scalar '_' :: number).length - 4 = word.length := by
      rw [List.length_append, List.length_cons, hnumber.1]
      rfl
    rw [hlength, List.take_left, List.drop_left]
    exact ⟨hword, number, rfl, hnumber⟩

/-! ## Section 2: The whole -/

private theorem isWhole_iff :
    isWhole t = true ↔
      ∃ area rest, t = area ++ .scalar '_' :: rest ∧ IsArea area ∧ isTail rest = true := by
  rw [isWhole]
  constructor
  · intro h
    simp only [Bool.and_eq_true, decide_eq_true_eq] at h
    obtain ⟨hlength, hrest⟩ := h
    have harea : IsArea (t.takeWhile isCapital) :=
      ⟨hlength, fun c hc => List.mem_takeWhile_imp hc⟩
    split at hrest
    · cases hrest
    · next u rest hdrop =>
      rw [Bool.and_eq_true, decide_eq_true_eq] at hrest
      obtain ⟨rfl, htail⟩ := hrest
      have hsplit := List.prefix_iff_eq_append.mp (List.takeWhile_prefix (l := t) isCapital)
      rw [hdrop] at hsplit
      exact ⟨_, rest, hsplit.symm, harea, htail⟩
  · rintro ⟨area, rest, rfl, ⟨hlength, hcapitals⟩, htail⟩
    -- no capital stands behind the area
    have harea : (area ++ .scalar '_' :: rest).takeWhile isCapital = area := by
      rw [List.takeWhile_append_of_pos hcapitals]
      simp [isCapital]
    simp only [harea, List.drop_left, hlength.1, hlength.2, htail, decide_true, Bool.and_true]

/-- A text is checked without one line feed at its end. -/
theorem exists_ending (t : Text) :
    ∃ ending : Text, t = t.dropFinalLineFeed ++ ending ∧ (ending = [] ∨ ending = [.lineFeed]) := by
  rw [Text.dropFinalLineFeed]
  split
  · next h => exact ⟨[.lineFeed], (List.dropLast_append_getLast? _ h).symm, .inr rfl⟩
  · exact ⟨[], (List.append_nil t).symm, .inl rfl⟩

private theorem IsNumber.getLast?_append_ne (h : IsNumber t) (s : Text) :
    (s ++ t).getLast? ≠ some .lineFeed := by
  obtain ⟨a, b, c, rfl⟩ := List.length_eq_three.mp h.1
  have hc := h.2 c (by simp)
  intro hlast
  rw [List.getLast?_append_cons, List.getLast?_cons_cons, List.getLast?_cons_cons,
    List.getLast?_singleton] at hlast
  rw [Option.some.inj hlast] at hc
  cases hc

/-- One line feed at the end is overlooked, and there is nothing else that could be. -/
private theorem dropFinalLineFeed_append {ending : Text} (h : t.getLast? ≠ some .lineFeed)
    (hending : ending = [] ∨ ending = [.lineFeed]) : Text.dropFinalLineFeed (t ++ ending) = t := by
  rcases hending with rfl | rfl
  · rw [List.append_nil, Text.dropFinalLineFeed, if_neg h]
  · rw [Text.dropFinalLineFeed, if_pos List.getLast?_concat, List.dropLast_concat]

/-- The test of an identifier is the pattern that it stands for. -/
theorem isValid_iff : isValid t = true ↔ Matches t := by
  rw [isValid, isWhole_iff]
  constructor
  · rintro ⟨area, rest, heq, harea, htail⟩
    obtain ⟨word, number, rfl, hword, hnumber⟩ := isTail_iff.mp htail
    obtain ⟨ending, ht, hending⟩ := exists_ending t
    refine ⟨area, word, number, ending, ?_, harea, hword, hnumber, hending⟩
    rw [ht, heq]
    simp only [List.append_assoc, List.cons_append]
  · rintro ⟨area, word, number, ending, rfl, harea, hword, hnumber, hending⟩
    -- the same text, with the word and the number together
    have hregroup : area ++ .scalar '_' :: (word ++ .scalar '_' :: (number ++ ending)) =
        area ++ .scalar '_' :: (word ++ [.scalar '_']) ++ number ++ ending := by
      simp only [List.append_assoc, List.cons_append, List.nil_append]
    rw [hregroup, dropFinalLineFeed_append (hnumber.getLast?_append_ne _) hending]
    refine ⟨area, word ++ .scalar '_' :: number, ?_, harea, ?_⟩
    · simp only [List.append_assoc, List.cons_append, List.nil_append]
    · exact isTail_iff.mpr ⟨word, number, rfl, hword, hnumber⟩

/-- The rules have identifiers of this form. -/
theorem matches_id (rule : Rule) : Matches rule.id := by
  apply isValid_iff.mp
  cases rule <;> decide

end FormSchema.RuleId
