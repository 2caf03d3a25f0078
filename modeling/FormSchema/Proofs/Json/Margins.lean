import FormSchema.Proofs.Json.Blanks
import FormSchema.Proofs.Json.Messages
import FormSchema.Proofs.Json.Rows
import FormSchema.Proofs.Text.Cursor

/-!
# Values further to the right

A value that is laid out one level deeper has the same lines further to the right.  So the lines of
an object between its braces are those of its entries, with the spaces of one level in front of
each, and any other margin may stand there instead.
-/

namespace FormSchema

/-! ## Section 1: Margins -/

namespace Text

/-- A text with a margin in front of all its lines but the first. -/
def hang (t margin : Text) : Text :=
  t.flatMap fun c => if c = .lineFeed then .lineFeed :: margin else [c]

section Hang

variable (margin : Text)

private theorem hang_cons (c : CodePoint) (t : Text) :
    hang (c :: t) margin = (if c = .lineFeed then .lineFeed :: margin else [c]) ++ hang t margin :=
  List.flatMap_cons

/-- A hanging margin is put behind each line feed, wherever the text is cut. -/
theorem hang_append (s t : Text) : hang (s ++ t) margin = hang s margin ++ hang t margin :=
  List.flatMap_append

/-- A text on one line is left as it is. -/
theorem hang_of_isOneLine {t : Text} (h : t.IsOneLine) : hang t margin = t := by
  induction t with
  | nil => rfl
  | cons c t ih =>
    obtain ⟨hc, ht⟩ := isOneLine_cons.mp h
    rw [hang_cons, if_neg hc.symm, ih ht, List.singleton_append]

/-- A hanging margin can be put into the parts of a text and into what separates them. -/
private theorem hang_join (sep : Text) (ps : List Text) :
    hang (join sep ps) margin = join (hang sep margin) (ps.map (hang · margin)) := by
  cases ps with
  | nil => rfl
  | cons p ps =>
    rw [join_cons, hang_append, List.map_cons, join_cons, hang, hang, List.flatMap_assoc,
      List.flatMap_map]
    simp only [hang, List.flatMap_append]

/-- The lines of a text, each behind a margin, make up the text with the margin in front. -/
theorem unlines_map_margin (t : Text) :
    unlines (t.lines.map (margin ++ ·)) = margin ++ hang t margin := by
  obtain ⟨first, rest, hlines⟩ := exists_first_line t
  have hkept : t.lines.map (hang · margin) = t.lines.map id :=
    List.map_congr_left fun line hline => hang_of_isOneLine margin (not_mem_of_mem_split hline)
  have hbreak : hang [.lineFeed] margin = .lineFeed :: margin := List.append_nil _
  -- each break between two lines is followed by the margin
  have hhang : hang t margin = join (.lineFeed :: margin) (first :: rest) := by
    conv_lhs => rw [← unlines_lines t]
    rw [unlines, hang_join, hbreak, hkept, List.map_id, hlines]
  rw [hhang, hlines, unlines, List.map_cons, join_cons, join_cons, List.flatMap_map]
  simp only [List.append_assoc, List.cons_append, List.nil_append]

/-- With a hanging margin all lines of a text begin with the margin. -/
theorem lines_margin {margin : Text} (hmargin : margin.IsOneLine) (t : Text) :
    lines (margin ++ hang t margin) = t.lines.map (margin ++ ·) := by
  have hne : t.lines.map (margin ++ ·) ≠ [] :=
    fun hnil => split_ne_nil _ t (List.map_eq_nil_iff.mp hnil)
  rw [← unlines_map_margin]
  apply split_join hne
  rw [List.forall_mem_map]
  intro line hline
  exact isOneLine_append.mpr ⟨hmargin, not_mem_of_mem_split hline⟩

end Hang

end Text

namespace Json

/-! ## Section 2: Scalars -/

private theorem isOneLine_printAt {v : Json} (h : v.IsScalar) (style : Style) (depth : Nat) :
    (printAt style depth v).IsOneLine := by
  -- words, numbers and strings are written without a line feed
  cases v with
  | null => exact (by decide : Text.IsOneLine "null")
  | bool b =>
    cases b with
    | true => exact (by decide : Text.IsOneLine "true")
    | false => exact (by decide : Text.IsOneLine "false")
  | int n => exact Text.isOneLine_ofInt n
  | float x => exact (bare_float x).lineFeed_not_mem
  | str s => exact lineFeed_not_mem_printString style.ascii s
  | arr items => exact absurd h id
  | obj es => exact absurd h id

private theorem printAt_of_isScalar {v : Json} (h : v.IsScalar) (style : Style)
    (depth depth' : Nat) :
    printAt style depth v = printAt style depth' v := by
  cases v with
  | bool b => cases b <;> rfl
  | arr items => exact absurd h id
  | obj es => exact absurd h id
  | _ => rfl

/-! ## Section 3: One level deeper -/

/-- The margin of a level of `n` spaces. -/
def spaces (n : Nat) : Text := List.replicate n (.scalar ' ')

private theorem isOneLine_spaces (n : Nat) : (spaces n).IsOneLine :=
  Text.isOneLine_replicate (by decide) n

section Deeper

variable {style : Style} {n : Nat} (hindent : style.indent = some n)
include hindent

private theorem newline_eq (depth : Nat) :
    style.newline depth = .lineFeed :: spaces (n * depth) := by
  rw [Style.newline, hindent]
  rfl

private theorem separator_eq_newline (depth : Nat) :
    style.separator depth = .scalar ',' :: style.newline depth := by
  rw [Style.separator, hindent]

private theorem newline_succ (depth : Nat) :
    style.newline (depth + 1) = (style.newline depth).hang (spaces n) := by
  have hsum : spaces (n * (depth + 1)) = spaces n ++ spaces (n * depth) := by
    rw [spaces, spaces, spaces, List.replicate_append_replicate, Nat.mul_succ, Nat.add_comm]
  rw [newline_eq hindent, newline_eq hindent, hsum, Text.hang_cons, if_pos rfl,
    Text.hang_of_isOneLine _ (isOneLine_spaces _), List.cons_append]

private theorem separator_succ (depth : Nat) :
    style.separator (depth + 1) = (style.separator depth).hang (spaces n) := by
  rw [separator_eq_newline hindent, separator_eq_newline hindent, newline_succ hindent,
    Text.hang_cons]
  rfl

private theorem enclose_succ (depth : Nat) {opening closing : Char}
    (hopening : Text.IsOneLine [.scalar opening]) (hclosing : Text.IsOneLine [.scalar closing])
    (parts : List Text) :
    style.enclose (depth + 1) opening closing (parts.map (Text.hang · (spaces n))) =
      (style.enclose depth opening closing parts).hang (spaces n) := by
  rw [Style.enclose, Style.enclose, List.isEmpty_map]
  split
  · exact (Text.hang_of_isOneLine _ (Text.isOneLine_append.mpr ⟨hopening, hclosing⟩)).symm
  · rw [← List.singleton_append, ← List.singleton_append (l := style.newline (depth + 1))]
    simp only [Text.hang_append, Text.hang_join, Text.hang_of_isOneLine _ hopening,
      Text.hang_of_isOneLine _ hclosing, ← newline_succ hindent, ← separator_succ hindent]

variable (hgap : style.gap.IsOneLine)
include hgap

omit hindent in
private theorem entryText_succ {depth : Nat} (e : Text × Json)
    (h : printAt style (depth + 1) e.2 = (printAt style depth e.2).hang (spaces n)) :
    entryText style (depth + 1) e = (entryText style depth e).hang (spaces n) := by
  have hname : (printString style.ascii e.1 ++ .scalar ':' :: style.gap).IsOneLine :=
    Text.isOneLine_append.mpr ⟨lineFeed_not_mem_printString _ e.1,
      Text.isOneLine_cons.mpr ⟨by decide, hgap⟩⟩
  rw [entryText, entryText, printEntry, printEntry, Text.hang_append, h,
    Text.hang_of_isOneLine _ hname]

/-- A value at a level is printed like the value at the level above, further to the right. -/
theorem printAt_succ (v : Json) (depth : Nat) :
    printAt style (depth + 1) v = (printAt style depth v).hang (spaces n) := by
  have hscalar {w : Json} (hw : w.IsScalar) (depth : Nat) :
      printAt style (depth + 1) w = (printAt style depth w).hang (spaces n) := by
    rw [Text.hang_of_isOneLine _ (isOneLine_printAt hw style depth)]
    exact printAt_of_isScalar hw style _ _
  -- a scalar is on one line and has no margin; the parts of the others are moved in with them
  induction v using inductionOn generalizing depth with
  | null | bool _ | int _ | float _ | str _ => exact hscalar (by trivial) depth
  | arr items ih =>
    have hitems : items.map (printAt style (depth + 1 + 1)) =
        (items.map (printAt style (depth + 1))).map (Text.hang · (spaces n)) := by
      rw [List.map_map]
      exact List.map_congr_left fun v hv => ih v hv (depth + 1)
    rw [printAt, printAt, printItems_eq_map, printItems_eq_map, hitems,
      enclose_succ hindent depth (by decide) (by decide)]
  | obj es ih =>
    have hentries : es.map (entryText style (depth + 1 + 1)) =
        (es.map (entryText style (depth + 1))).map (Text.hang · (spaces n)) := by
      rw [List.map_map]
      exact List.map_congr_left fun e he => entryText_succ hgap e (ih e he (depth + 1))
    rw [printAt, printAt, printEntries_eq_map, printEntries_eq_map, hentries,
      enclose_succ hindent depth (by decide) (by decide)]

/-! ## Section 4: Between the braces -/

/-- The entries of an object with commas between them, as they stand without its braces. -/
def bodyText (style : Style) (es : Entries Json) : Text :=
  Text.join (style.separator 0) (es.map (entryText style 0))

/-- Between the lines of its braces, an object has the lines of its entries one level deeper. -/
theorem lines_print_obj {es : Entries Json} (hne : es ≠ []) :
    (print style (.obj es)).lines =
      [.scalar '\x7b'] ::
        ((bodyText style es).lines.map (spaces n ++ ·) ++ [[.scalar '\x7d']]) := by
  have hparts : ¬ (es.map (entryText style 1)).isEmpty = true := by
    rwa [List.isEmpty_iff, List.map_eq_nil_iff]
  have hentries : es.map (entryText style 1) =
      (es.map (entryText style 0)).map (Text.hang · (spaces n)) := by
    rw [List.map_map]
    exact List.map_congr_left fun e _ => entryText_succ hgap e (printAt_succ hindent hgap e.2 0)
  -- the body is that of the outermost level, hung at the margin
  have hbody : Text.join (style.separator 1) (es.map (entryText style 1)) =
      (bodyText style es).hang (spaces n) := by
    rw [hentries, separator_succ hindent 0, ← Text.hang_join, bodyText]
  have hprint : print style (.obj es) = [.scalar '\x7b'] ++
      .lineFeed :: ((spaces n ++ (bodyText style es).hang (spaces n)) ++
        .lineFeed :: [.scalar '\x7d']) := by
    rw [print, printAt, printEntries_eq_map, Style.enclose, if_neg hparts, hbody,
      newline_eq hindent, newline_eq hindent, Nat.zero_add, Nat.mul_one, Nat.mul_zero]
    simp only [spaces, List.replicate_zero, List.append_assoc, List.cons_append, List.nil_append]
  rw [hprint, Text.lines_append_cons, Text.lines_append_cons,
    Text.lines_margin (isOneLine_spaces n)]
  rfl

end Deeper

/-- An empty object has one line. -/
theorem lines_print_empty (style : Style) :
    (print style (.obj [])).lines = (["\x7b\x7d"] : List Text) := rfl

/-- A scalar has one line. -/
theorem lines_print_of_isScalar {v : Json} (h : v.IsScalar) (style : Style) :
    (print style v).lines = [print style v] :=
  Text.split_of_not_mem (isOneLine_printAt h style 0)

/-- Whatever white space is put in front of their lines, the entries between the braces are members
of an object. -/
theorem derives_hang {ms : Entries Json} {t margin : Text} (h : Derives (.members ms) t)
    (hmargin : IsBlank margin) : Derives (.members ms) (margin ++ t.hang margin) := by
  have hbreak : IsBlank (.lineFeed :: margin) := isBlank_lineFeed.append hmargin
  exact (h.respaced (respaces_replacing (by decide) hbreak)).blank_members hmargin

/-- The entries of an object without fractional numbers are derived from what is printed between its
braces. -/
theorem derives_bodyText {style : Style} {n : Nat} (hindent : style.indent = some n)
    (hblank : IsBlank style.gap) {es : Entries Json} (hne : es ≠ [])
    (hexact : (obj es).Every IsExact)
    (hjoined : style.ascii = true → (obj es).Every HasJoinedStrings) :
    Derives (.members es) (bodyText style es) := by
  -- each entry is a member of its own, and commas stand between them
  have htexts : List.Forall₂ (fun e t => Derives (.member e) t) es
      (es.map (entryText style 0)) := by
    refine List.forall₂_map_right_iff.mpr (List.forall₂_same.mpr fun e he => ?_)
    have hvalue := derives_joined hblank ((every_obj.mp hexact).2 e he)
      (fun hascii => (every_obj.mp (hjoined hascii)).2 e he) 0
    exact derives_joined_entry hblank (fun hascii => (hjoined hascii).self e he) hvalue
  have hsome : es.map (entryText style 0) ≠ [] := fun hnil => hne (List.map_eq_nil_iff.mp hnil)
  have hbody := derives_members (isBlank_newline style 0) isBlank_nil hsome htexts isBlank_nil
  rwa [List.nil_append, List.append_nil, ← separator_eq_newline hindent, ← bodyText] at hbody

end Json

end FormSchema
