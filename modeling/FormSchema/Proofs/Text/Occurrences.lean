import FormSchema.Proofs.Text.Lines
import Mathlib.Data.List.Infix

/-!
# Occurrences

The search for a text finds an occurrence exactly if there is one.  What occurs in a text without a
line feed in it occurs on one of its lines.
-/

namespace FormSchema.Text

variable {needle t : Text}

/-! ## Section 1: The search -/

private theorem findFrom_eq_some {i j : Nat} (h : findFrom needle i t = some j) :
    ∃ before after, t = before ++ (needle ++ after) ∧ j = i + before.length := by
  -- the count goes up with every code point that is passed
  induction t generalizing i with
  | nil =>
    rw [findFrom] at h
    split at h
    · next hprefix =>
      obtain ⟨after, hafter⟩ := List.isPrefixOf_iff_prefix.mp hprefix
      exact ⟨[], after, hafter.symm, (Option.some.inj h).symm⟩
    · cases h
  | cons c t ih =>
    rw [findFrom] at h
    split at h
    · next hprefix =>
      obtain ⟨after, hafter⟩ := List.isPrefixOf_iff_prefix.mp hprefix
      exact ⟨[], after, hafter.symm, (Option.some.inj h).symm⟩
    · obtain ⟨before, after, rfl, rfl⟩ := ih h
      refine ⟨c :: before, after, rfl, ?_⟩
      rw [List.length_cons]
      omega

/-- What is found in a text stands in it. -/
theorem find?_eq_some {j : Nat} (h : find? needle t = some j) :
    ∃ before after, t = before ++ (needle ++ after) ∧ j = before.length := by
  obtain ⟨before, after, ht, hj⟩ := findFrom_eq_some h
  exact ⟨before, after, ht, hj.trans (Nat.zero_add _)⟩

private theorem findFrom_isSome (h : needle <:+: t) (i : Nat) : (findFrom needle i t).isSome := by
  -- at the first place where it does not begin, it has to begin later
  induction t generalizing i with
  | nil =>
    rw [findFrom, List.infix_nil.mp h]
    rfl
  | cons c t ih =>
    rw [findFrom]
    split
    · rfl
    · next hprefix =>
      rcases List.infix_cons_iff.mp h with hfirst | hlater
      · exact absurd (List.isPrefixOf_iff_prefix.mpr hfirst) hprefix
      · exact ih hlater (i + 1)

/-- A text is found exactly where it occurs. -/
theorem find?_isSome_iff : (find? needle t).isSome ↔ needle <:+: t := by
  constructor
  · intro h
    obtain ⟨j, hj⟩ := Option.isSome_iff_exists.mp h
    obtain ⟨before, after, rfl, _⟩ := find?_eq_some hj
    exact ⟨before, after, List.append_assoc before needle after⟩
  · intro h
    exact findFrom_isSome h 0

private theorem findFrom_leftmost {i j k : Nat} (h : findFrom needle i t = some j)
    (hk : i + k < j) :
    ¬ needle <+: t.drop k := by
  -- every place that is passed has been looked at, and the search went on
  induction t generalizing i k with
  | nil =>
    rw [findFrom] at h
    split at h
    · cases h
      omega
    · cases h
  | cons c t ih =>
    rw [findFrom] at h
    split at h
    · cases h
      omega
    · next hprefix =>
      cases k with
      | zero =>
        rw [List.drop_zero]
        exact fun hfirst => hprefix (List.isPrefixOf_iff_prefix.mpr hfirst)
      | succ k => exact ih h (by omega)

/-- In front of the place that is found the text does not occur. -/
theorem find?_leftmost {j k : Nat} (h : find? needle t = some j) (hk : k < j) :
    ¬ needle <+: t.drop k :=
  findFrom_leftmost h (by omega)

/-! ## Section 2: Lines -/

/-- One code point in front makes the first line longer and leaves the others. -/
private theorem mem_lines_cons {line : Text} (h : line ∈ lines t) (c : CodePoint) :
    ∃ longer ∈ lines (c :: t), line <:+: longer := by
  rw [lines, split_cons]
  split
  · exact ⟨line, List.mem_cons_of_mem [] h, List.infix_refl line⟩
  · obtain ⟨first, rest, ht⟩ := List.exists_cons_of_ne_nil (split_ne_nil .lineFeed t)
    rw [lines, ht, List.mem_cons] at h
    rw [ht, consPiece]
    -- the code point lengthens the first line, and leaves all others
    rcases h with rfl | hrest
    · exact ⟨c :: line, List.mem_cons_self, List.infix_cons (List.infix_refl line)⟩
    · exact ⟨line, List.mem_cons_of_mem _ hrest, List.infix_refl line⟩

/-- What occurs in a text and has no line feed occurs on a line. -/
theorem exists_line_of_infix (h : needle <:+: t) (hline : CodePoint.lineFeed ∉ needle) :
    ∃ line ∈ t.lines, needle <:+: line := by
  obtain ⟨before, after, rfl⟩ := h
  rw [List.append_assoc]
  -- what is in front of the occurrence only makes its line longer, or adds lines above
  induction before with
  | nil =>
    obtain ⟨first, rest, _, hlines⟩ := lines_append_of_not_mem hline after
    refine ⟨needle ++ first, ?_, (List.prefix_append needle first).isInfix⟩
    rw [List.nil_append, hlines]
    exact List.mem_cons_self
  | cons c before ih =>
    obtain ⟨line, hmem, hinfix⟩ := ih
    obtain ⟨longer, hlonger, hline⟩ := mem_lines_cons hmem c
    exact ⟨longer, hlonger, hinfix.trans hline⟩

end FormSchema.Text
