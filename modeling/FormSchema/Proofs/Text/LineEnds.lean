import FormSchema.Proofs.Text.Lines
import Mathlib.Data.List.Infix

/-!
# Line ends

A text can end its lines with line feeds alone, or with a carriage return in front of each.  Cut at
the line feeds, the second text has the lines of the first with a carriage return at the end of all
but the last, and a search for something that does not end in a carriage return does not see it.
-/

namespace FormSchema.Text

/-! ## Section 1: Two code points for one -/

/-- A text with a carriage return in front of every line feed. -/
def withCrLf (t : Text) : Text :=
  t.flatMap fun c => if c = .lineFeed then [.carriageReturn, .lineFeed] else [c]

/-- A text without its carriage returns. -/
def withoutCr (t : Text) : Text :=
  t.flatMap fun c => if c = .carriageReturn then [] else [c]

private theorem withCrLf_cons_of_ne {c : CodePoint} (hc : c ≠ .lineFeed) (t : Text) :
    withCrLf (c :: t) = c :: withCrLf t := by
  rw [withCrLf, List.flatMap_cons, if_neg hc]
  rfl

private theorem withoutCr_cons_of_ne {c : CodePoint} (hc : c ≠ .carriageReturn) (t : Text) :
    withoutCr (c :: t) = c :: withoutCr t := by
  rw [withoutCr, List.flatMap_cons, if_neg hc]
  rfl

/-- Without the returns that were put in, the text is as before. -/
theorem withoutCr_withCrLf {t : Text} (h : CodePoint.carriageReturn ∉ t) :
    withoutCr (withCrLf t) = t := by
  induction t with
  | nil => rfl
  | cons c t ih =>
    rw [List.mem_cons, not_or] at h
    by_cases hc : c = .lineFeed
    · subst hc
      exact congrArg (CodePoint.lineFeed :: ·) (ih h.2)
    · rw [withCrLf_cons_of_ne hc, withoutCr_cons_of_ne (Ne.symm h.1), ih h.2]

/-! ## Section 2: Lines -/

/-- Lines with a carriage return at the end of all but the last. -/
def withReturns : List Text → List Text
  | [] => []
  | [l] => [l]
  | l :: m :: rest => (l ++ [.carriageReturn]) :: withReturns (m :: rest)

private theorem withReturns_cons_of_ne_nil (l : Text) {ls : List Text} (h : ls ≠ []) :
    withReturns (l :: ls) = (l ++ [.carriageReturn]) :: withReturns ls := by
  cases ls with
  | nil => exact absurd rfl h
  | cons m rest => rfl

private theorem withReturns_consPiece (c : CodePoint) {ls : List Text} (h : ls ≠ []) :
    withReturns (consPiece c ls) = consPiece c (withReturns ls) := by
  match ls with
  | [] => exact absurd rfl h
  | [l] => rfl
  | l :: m :: rest => rfl

/-- All lines but the last get a return at their end. -/
theorem lines_withCrLf (t : Text) : lines (withCrLf t) = withReturns (lines t) := by
  induction t with
  | nil => rfl
  | cons c t ih =>
    by_cases hc : c = .lineFeed
    · subst hc
      -- a carriage return on a line of its own, in front of the lines behind it
      have hends : lines (withCrLf (.lineFeed :: t)) = [.carriageReturn] :: lines (withCrLf t) :=
        lines_append_cons [.carriageReturn] (withCrLf t)
      have hlines : lines (.lineFeed :: t) = [] :: lines t := lines_append_cons [] t
      have hne : lines t ≠ [] := split_ne_nil .lineFeed t
      rw [hends, ih, hlines, withReturns_cons_of_ne_nil [] hne, List.nil_append]
    · rw [withCrLf_cons_of_ne hc, lines, split_cons, if_neg hc, lines, split_cons, if_neg hc,
        withReturns_consPiece c (split_ne_nil .lineFeed t)]
      exact congrArg (consPiece c) ih

/-! ## Section 3: Searching -/

section Searching

variable {c d : CodePoint} (hd : d ≠ c) (s t : Text)
include hd

private theorem isPrefixOf_concat : (s ++ [d]).isPrefixOf (t ++ [c]) = (s ++ [d]).isPrefixOf t := by
  rw [Bool.eq_iff_iff, List.isPrefixOf_iff_prefix, List.isPrefixOf_iff_prefix,
    List.prefix_concat_iff]
  -- the whole of `t ++ [c]` ends otherwise
  refine or_iff_right fun heq => hd ?_
  exact (List.cons.inj (List.append_inj' heq rfl).2).1

/-- One code point more at the end does not change what is found, unless what is sought ends with
it. -/
private theorem findFrom_concat (i : Nat) :
    findFrom (s ++ [d]) i (t ++ [c]) = findFrom (s ++ [d]) i t := by
  -- at every place the text is looked at, and what is added behind does not end the match
  induction t generalizing i with
  | nil =>
    have hfirst := isPrefixOf_concat hd s []
    have hnil : (s ++ [d]).isPrefixOf [] = false := by
      cases s <;> rfl
    rw [List.nil_append, hnil] at hfirst
    simp only [List.nil_append, findFrom, hnil, hfirst, Bool.false_eq_true, if_false]
  | cons e t ih =>
    have hfirst := isPrefixOf_concat hd s (e :: t)
    rw [List.cons_append] at hfirst ⊢
    rw [findFrom, findFrom, hfirst, ih]

/-- One more code point at the end of a text does not matter to a search for what ends in another
code point. -/
theorem find?_concat : find? (s ++ [d]) (t ++ [c]) = find? (s ++ [d]) t :=
  findFrom_concat hd s t 0

end Searching

/-! ## Section 4: Line ends made alike -/

private theorem unifyLineEnds_cons_return (t : Text) :
    unifyLineEnds (.carriageReturn :: t) =
      if (t.foldr unifyLineEndsStep (false, [])).1 then unifyLineEnds t
      else .lineFeed :: unifyLineEnds t := rfl

private theorem unifyLineEnds_cons_of_ne {c : CodePoint} (hc : c ≠ .carriageReturn) (t : Text) :
    unifyLineEnds (c :: t) = c :: unifyLineEnds t := if_neg hc

/-- A text without carriage returns has its line ends alike. -/
theorem unifyLineEnds_of_not_mem {t : Text} (h : CodePoint.carriageReturn ∉ t) :
    unifyLineEnds t = t := by
  induction t with
  | nil => rfl
  | cons c t ih =>
    rw [List.mem_cons, not_or] at h
    rw [unifyLineEnds_cons_of_ne (Ne.symm h.1), ih h.2]

/-- There is no return left. -/
theorem return_not_mem_unifyLineEnds (t : Text) : CodePoint.carriageReturn ∉ unifyLineEnds t := by
  induction t with
  | nil => exact List.not_mem_nil
  | cons c t ih =>
    -- a carriage return is dropped or replaced, and anything else stays
    by_cases hc : c = .carriageReturn
    · rw [hc, unifyLineEnds_cons_return]
      split
      · exact ih
      · simpa using ih
    · rw [unifyLineEnds_cons_of_ne hc, List.mem_cons, not_or]
      exact ⟨Ne.symm hc, ih⟩

end FormSchema.Text
