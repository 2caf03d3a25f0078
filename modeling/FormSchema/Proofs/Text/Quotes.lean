import FormSchema.Proofs.Text.Occurrences

/-!
# Quoted words in a text

Where a word between quotation marks occurs in a text, read from left to right.  Every quotation
mark of the text closes one stretch and opens the next, so the word has to be the whole of a stretch
between two neighbouring marks.
-/

namespace FormSchema.Text

variable {w body front t : Text}

private theorem inQuotes_infix_cons_of_ne {c : CodePoint} (hc : c ≠ .scalar '"') :
    w.inQuotes <:+: c :: t ↔ w.inQuotes <:+: t := by
  rw [List.infix_cons_iff]
  apply or_iff_right
  intro hprefix
  exact hc (List.cons_prefix_cons.mp hprefix).1.symm

/-- No quoted word begins before the first quotation mark. -/
theorem inQuotes_infix_append (hfront : .scalar '"' ∉ front) :
    w.inQuotes <:+: front ++ t ↔ w.inQuotes <:+: t := by
  induction front with
  | nil => rfl
  | cons c front ih =>
    rw [List.mem_cons, not_or] at hfront
    rw [List.cons_append, inQuotes_infix_cons_of_ne (Ne.symm hfront.1), ih hfront.2]

/-- Without quotation marks there is no quoted word. -/
theorem not_infix_inQuotes (ht : .scalar '"' ∉ t) : ¬ w.inQuotes <:+: t := by
  intro h
  exact ht (h.subset List.mem_cons_self)

/-- One quotation mark does not quote. -/
theorem not_infix_inQuotes_cons (ht : .scalar '"' ∉ t) : ¬ w.inQuotes <:+: .scalar '"' :: t := by
  rw [List.infix_cons_iff, not_or]
  refine ⟨fun hprefix => ht ?_, not_infix_inQuotes ht⟩
  exact (List.cons_prefix_cons.mp hprefix).2.subset (List.mem_append_right w List.mem_cons_self)

private theorem append_mark_prefix_iff (hw : .scalar '"' ∉ w) (hbody : .scalar '"' ∉ body) :
    w ++ [.scalar '"'] <+: body ++ .scalar '"' :: t ↔ w = body := by
  -- along both texts, up to the first mark
  induction w generalizing body with
  | nil =>
    cases body with
    | nil => exact iff_of_true ⟨t, rfl⟩ rfl
    | cons c body =>
      refine iff_of_false (fun h => hbody ?_) (List.cons_ne_nil c body).symm
      rw [(List.cons_prefix_cons.mp h).1]
      exact List.mem_cons_self
  | cons c w ih =>
    cases body with
    | nil =>
      refine iff_of_false (fun h => hw ?_) (List.cons_ne_nil c w)
      rw [← (List.cons_prefix_cons.mp h).1]
      exact List.mem_cons_self
    | cons d body =>
      rw [List.mem_cons, not_or] at hw hbody
      rw [List.cons_append, List.cons_append, List.cons_prefix_cons, ih hw.2 hbody.2,
        List.cons.injEq]

/-- A quoted word at a quotation mark or later is the stretch up to the next mark, or stands at that
mark or later. -/
theorem inQuotes_infix_stretch (hw : .scalar '"' ∉ w) (hbody : .scalar '"' ∉ body) :
    w.inQuotes <:+: .scalar '"' :: (body ++ .scalar '"' :: t) ↔
      w = body ∨ w.inQuotes <:+: .scalar '"' :: t := by
  rw [List.infix_cons_iff, inQuotes_infix_append hbody]
  apply or_congr_left
  rw [inQuotes, List.cons_append, List.cons_prefix_cons, append_mark_prefix_iff hw hbody]
  exact and_iff_right rfl

/-- A text with two quotation marks quotes a word. -/
theorem exists_quoted_iff :
    (∃ w : Text, .scalar '"' ∉ w ∧ w.inQuotes <:+: t) ↔ 2 ≤ t.count (.scalar '"') := by
  constructor
  · rintro ⟨w, -, hw⟩
    refine Nat.le_trans ?_ (hw.sublist.count_le _)
    simp [inQuotes]
  · intro h
    have hfirst : CodePoint.scalar '"' ∈ t := List.count_pos_iff.mp (by omega)
    obtain ⟨front, rest, rfl, hfront⟩ := List.eq_append_cons_of_mem hfirst
    rw [List.count_append, List.count_eq_zero_of_not_mem hfront, List.count_cons_self] at h
    -- the word ends at the next mark
    have hnext : CodePoint.scalar '"' ∈ rest := List.count_pos_iff.mp (by omega)
    obtain ⟨w, rest, rfl, hw⟩ := List.eq_append_cons_of_mem hnext
    refine ⟨w, hw, front, rest, ?_⟩
    simp [inQuotes]

/-- What follows the last quotation mark of a text, or the whole of a text without one. -/
def lastStretch (t : Text) : Text := (split (.scalar '"') t).getLast (split_ne_nil _ t)

/-- Without quotation marks the last stretch is the whole. -/
theorem lastStretch_of_not_mem (h : .scalar '"' ∉ t) : t.lastStretch = t := by
  simp only [lastStretch, split_of_not_mem h, List.getLast_singleton]

/-- The last stretch does not depend on what is in front of a quotation mark. -/
theorem lastStretch_append_cons (front t : Text) :
    lastStretch (front ++ .scalar '"' :: t) = t.lastStretch := by
  simp only [lastStretch, split_append_cons]
  exact List.getLast_append_of_right_ne_nil _ _ (split_ne_nil _ t)

end FormSchema.Text
