import FormSchema.Text.Lines

/-!
# Lines and joins

Cutting a text into its lines and joining lines again are inverse, and both follow the line feeds:
a text around a line feed has the lines of its two parts.  What is done to one line of a text is
therefore done in place.
-/

namespace FormSchema.Text

variable {sep : CodePoint} {a b : Text}

/-! ## Section 1: Cutting -/

/-- A code point is put in front of the first piece, whatever comes behind it. -/
theorem consPiece_append (c : CodePoint) {ps : List Text} (qs : List Text) (h : ps ≠ []) :
    consPiece c (ps ++ qs) = consPiece c ps ++ qs := by
  cases ps with
  | nil => exact absurd rfl h
  | cons p ps => rfl

/-- A code point in front adds no piece. -/
theorem length_consPiece (c : CodePoint) {ps : List Text} (h : ps ≠ []) :
    (consPiece c ps).length = ps.length := by
  cases ps with
  | nil => exact absurd rfl h
  | cons p ps => rfl

/-- Cutting gives one piece at least. -/
theorem split_ne_nil (sep : CodePoint) (t : Text) : split sep t ≠ [] := by
  cases t with
  | nil => exact List.cons_ne_nil _ _
  | cons c t =>
    rw [split_cons]
    split
    · exact List.cons_ne_nil _ _
    · cases split sep t with
      | nil => exact List.cons_ne_nil _ _
      | cons p ps => exact List.cons_ne_nil _ _

/-- The pieces of a text around a separator are those of its two parts. -/
theorem split_append_cons (a b : Text) :
    split sep (a ++ sep :: b) = split sep a ++ split sep b := by
  induction a with
  | nil => rw [List.nil_append, split_cons, if_pos rfl, split_nil, List.singleton_append]
  | cons c a ih =>
    rw [List.cons_append, split_cons, split_cons, ih]
    split
    · rfl
    · exact consPiece_append c _ (split_ne_nil sep a)

/-- Without a separator there is one piece. -/
theorem split_of_not_mem (h : sep ∉ a) : split sep a = [a] := by
  induction a with
  | nil => rfl
  | cons c a ih =>
    rw [List.mem_cons, not_or] at h
    rw [split_cons, if_neg (Ne.symm h.1), ih h.2]
    rfl

/-- There is one piece more than there are separators. -/
theorem length_split (sep : CodePoint) (t : Text) : (split sep t).length = t.count sep + 1 := by
  induction t with
  | nil => rfl
  | cons c t ih =>
    rw [split_cons]
    split
    · next hc => rw [hc, List.count_cons_self, List.length_cons, ih]
    · next hc => rw [List.count_cons_of_ne hc, length_consPiece c (split_ne_nil sep t), ih]

/-! ## Section 2: Joining -/

/-- Behind the first piece each comes with a separator in front of it. -/
theorem join_cons (sep p : Text) (ps : List Text) :
    join sep (p :: ps) = p ++ ps.flatMap (sep ++ ·) := by
  induction ps generalizing p with
  | nil => rw [join, List.intercalate_singleton, List.flatMap_nil, List.append_nil]
  | cons q ps ih =>
    rw [join, List.intercalate_cons_cons, List.flatMap_cons, List.append_assoc, List.append_assoc]
    exact congrArg _ (congrArg _ (ih q))

/-- Pieces without the separator are those of their join. -/
theorem split_join {ps : List Text} (hne : ps ≠ []) (h : ∀ p ∈ ps, sep ∉ p) :
    split sep (join [sep] ps) = ps := by
  induction ps with
  | nil => exact absurd rfl hne
  | cons p ps ih =>
    obtain ⟨hp, hps⟩ := List.forall_mem_cons.mp h
    have hpiece : split sep p = [p] := split_of_not_mem hp
    -- the separator stands between two parts, and not behind the last one
    by_cases hnil : ps = []
    · rw [hnil, join, List.intercalate_singleton, hpiece]
    · have hjoin : join [sep] (p :: ps) = p ++ sep :: join [sep] ps := by
        rw [join, List.intercalate_cons_of_ne_nil hnil, List.append_assoc]
        rfl
      rw [hjoin, split_append_cons, hpiece, ih hnil hps]
      rfl

/-- What is joined has nothing but what is in the pieces and the separator. -/
theorem mem_join {c : CodePoint} {s : Text} {ps : List Text} (h : c ∈ join s ps) :
    c ∈ s ∨ ∃ p ∈ ps, c ∈ p := by
  cases ps with
  | nil => cases h
  | cons p ps =>
    rw [join_cons, List.mem_append, List.mem_flatMap] at h
    rcases h with h | ⟨q, hq, h⟩
    · exact .inr ⟨p, List.mem_cons_self, h⟩
    · exact (List.mem_append.mp h).imp_right fun h => ⟨q, List.mem_cons_of_mem p hq, h⟩

/-- What is in a piece is in the whole. -/
theorem mem_join_of_mem {c : CodePoint} {s p : Text} {ps : List Text} (hp : p ∈ ps) (hc : c ∈ p) :
    c ∈ join s ps := by
  cases ps with
  | nil => cases hp
  | cons q ps =>
    rw [join_cons, List.mem_append, List.mem_flatMap]
    rcases List.mem_cons.mp hp with rfl | hp
    · exact .inl hc
    · exact .inr ⟨p, hp, List.mem_append_right s hc⟩

/-- A join seen from one of its pieces. -/
theorem join_append_cons (sep p : Text) (before after : List Text) :
    join sep (before ++ p :: after) =
      before.flatMap (· ++ sep) ++ p ++ after.flatMap (sep ++ ·) := by
  induction before with
  | nil => rw [List.nil_append, join_cons, List.flatMap_nil, List.nil_append]
  | cons q before ih =>
    have hne : before ++ p :: after ≠ [] :=
      List.append_ne_nil_of_right_ne_nil _ (List.cons_ne_nil _ _)
    rw [List.cons_append, join, List.intercalate_cons_of_ne_nil hne]
    rw [show List.intercalate sep (before ++ p :: after) = _ from ih, List.flatMap_cons]
    simp only [List.append_assoc]

/-- Behind a line that is not the last there is a line feed. -/
theorem unlines_cons_of_ne_nil (l : Text) {ls : List Text} (h : ls ≠ []) :
    unlines (l :: ls) = l ++ .lineFeed :: unlines ls := by
  rw [unlines, join, List.intercalate_cons_of_ne_nil h, List.append_assoc]
  rfl

/-- A code point in front of the first line is in front of the text. -/
theorem unlines_consPiece (c : CodePoint) {ls : List Text} (h : ls ≠ []) :
    unlines (consPiece c ls) = c :: unlines ls := by
  cases ls with
  | nil => exact absurd rfl h
  | cons l ls =>
    rw [consPiece, unlines, unlines, join_cons, join_cons]
    rfl

/-- A text comes back from its lines. -/
theorem unlines_lines (t : Text) : unlines t.lines = t := by
  -- a line feed begins another line, and anything else goes to the first one
  induction t with
  | nil => rfl
  | cons c t ih =>
    rw [lines, split_cons]
    split
    · next hc =>
      rw [unlines_cons_of_ne_nil [] (split_ne_nil _ t), hc]
      exact congrArg (CodePoint.lineFeed :: ·) ih
    · rw [unlines_consPiece c (split_ne_nil _ t)]
      exact congrArg (c :: ·) ih

/-- Lines behind others are behind a line feed. -/
theorem unlines_append {ls ms : List Text} (hl : ls ≠ []) (hm : ms ≠ []) :
    unlines (ls ++ ms) = unlines ls ++ .lineFeed :: unlines ms := by
  induction ls with
  | nil => exact absurd rfl hl
  | cons l ls ih =>
    by_cases h : ls = []
    · rw [h, List.singleton_append, unlines_cons_of_ne_nil l hm, unlines, unlines, join, join,
        List.intercalate_singleton]
    · rw [List.cons_append, unlines_cons_of_ne_nil l (List.append_ne_nil_of_left_ne_nil h ms), ih h,
        unlines_cons_of_ne_nil l h, List.append_assoc, List.cons_append]

/-! ## Section 3: One line of a text -/

/-- A line feed cuts a text in two. -/
theorem lines_append_cons (a b : Text) : lines (a ++ .lineFeed :: b) = lines a ++ lines b :=
  split_append_cons a b

/-- Every text has a first line. -/
theorem exists_first_line (t : Text) : ∃ first rest, lines t = first :: rest :=
  List.exists_cons_of_ne_nil (split_ne_nil .lineFeed t)

/-- There is one line more than there are line feeds. -/
theorem length_lines (t : Text) : t.lines.length = t.count .lineFeed + 1 := length_split _ t

/-- A piece of a line in front of a text lengthens the first line of the text. -/
theorem lines_append_of_not_mem {s : Text} (hs : CodePoint.lineFeed ∉ s) (t : Text) :
    ∃ first rest, lines t = first :: rest ∧ lines (s ++ t) = (s ++ first) :: rest := by
  -- without a line feed only the first line grows
  induction s with
  | nil =>
    obtain ⟨first, rest, h⟩ := exists_first_line t
    exact ⟨first, rest, h, h⟩
  | cons c s ih =>
    rw [List.mem_cons, not_or] at hs
    obtain ⟨first, rest, ht, hst⟩ := ih hs.2
    refine ⟨first, rest, ht, ?_⟩
    rw [lines] at hst
    rw [List.cons_append, lines, split_cons, if_neg (Ne.symm hs.1), hst]
    rfl

section OneLine

variable {before line after : Text} (hline : CodePoint.lineFeed ∉ line)
include hline

/-- The lines of a text around one that stands between two line feeds. -/
theorem lines_around :
    lines (before ++ .lineFeed :: (line ++ .lineFeed :: after)) =
      lines before ++ line :: lines after := by
  rw [lines_append_cons, lines_append_cons, lines, lines, lines, split_of_not_mem hline]
  rfl

/-- A line between two line feeds is counted by those in front of it. -/
theorem getD_lines_around :
    (lines (before ++ .lineFeed :: (line ++ .lineFeed :: after))).getD
      (before.count .lineFeed + 1) [] = line := by
  rw [lines_around hline, List.getD_eq_getElem?_getD, ← length_lines, List.getElem?_append_right
    (Nat.le_refl _), Nat.sub_self]
  rfl

/-- Behind that line are the lines of the rest. -/
theorem drop_lines_around :
    (lines (before ++ .lineFeed :: (line ++ .lineFeed :: after))).drop
      (before.count .lineFeed + 1 + 1) = lines after := by
  rw [lines_around hline, List.append_cons]
  apply List.drop_left'
  rw [List.length_append, length_lines]
  rfl

/-- What is done to one line is done in its place. -/
theorem unlines_modify_lines (f : Text → Text) :
    unlines ((lines (before ++ .lineFeed :: (line ++ .lineFeed :: after))).modify
      (before.count .lineFeed + 1) f) = before ++ .lineFeed :: (f line ++ .lineFeed :: after) := by
  have hmodify : (lines before ++ line :: lines after).modify (before.count .lineFeed + 1) f =
      lines before ++ f line :: lines after := by
    rw [← length_lines, List.modify_eq_take_cons_drop (by simp)]
    simp
  have hafter : lines after ≠ [] := split_ne_nil _ after
  have hbefore : lines before ≠ [] := split_ne_nil _ before
  rw [lines_around hline, hmodify, unlines_append hbefore (List.cons_ne_nil _ _),
    unlines_cons_of_ne_nil _ hafter, unlines_lines, unlines_lines]

end OneLine

/-- At the end a text is appended. -/
theorem spliceAt_length (t inserted : Text) : t.spliceAt t.length inserted = t ++ inserted := by
  rw [spliceAt, List.take_length, List.drop_length, List.append_nil]

/-! ## Section 4: What a text begins with -/

/-- Nothing is taken if the first code point is not wanted. -/
theorem takeWhile_eq_nil {p : CodePoint → Bool} {s : Text} (h : ∀ c ∈ s.head?, p c = false) :
    s.takeWhile p = [] := by
  cases s with
  | nil => rfl
  | cons c s => rw [List.takeWhile_cons_of_neg (by rw [h c rfl]; exact Bool.false_ne_true)]

/-- Nothing is dropped if the first code point is not to be dropped. -/
theorem dropWhile_eq_self {p : CodePoint → Bool} {s : Text} (h : ∀ c ∈ s.head?, p c = false) :
    s.dropWhile p = s := by
  cases s with
  | nil => rfl
  | cons c s => rw [List.dropWhile_cons_of_neg (by rw [h c rfl]; exact Bool.false_ne_true)]

end FormSchema.Text
