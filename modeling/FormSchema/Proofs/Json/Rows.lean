import FormSchema.Proofs.Json.Spelling
import FormSchema.Proofs.Text.Quotes

/-!
# The rows of a laid out value

A laid out value has a line for each entry and each item, and one more where an array or object
that is not empty ends.  A row tells what a line prints: the name of an entry, if it begins one, and
a string, if the value is one.  From the row of a line it can be read off which words stand between
quotation marks on the line, a word being a string that is written without escapes.
-/

namespace FormSchema.Json

/-! ## Section 1: Rows -/

/-- What a line prints: the name of an entry and a string, each if there is one. -/
structure Row where
  name : Option Text
  string : Option Text
deriving DecidableEq

/-- The row of a line with neither, such as that of a closing bracket. -/
def Row.blank : Row := ⟨none, none⟩

/-- The row of an entry with a string. -/
def Row.property (name s : Text) : Row := ⟨some name, some s⟩

/-- What is printed in front of the value of an entry, and nothing in front of an item. -/
def Row.lead (name : Option Text) : Text :=
  match name with
  | none => []
  | some n => printString false n ++ ": "

/-- The text of a row. -/
def Row.text (row : Row) : Text :=
  Row.lead row.name ++
    match row.string with
    | none => []
    | some s => printString false s

/-- Whether a line prints a row: no other quotation marks stand on it than those of the row. -/
def Row.Prints (row : Row) (line : Text) : Prop :=
  ∃ front back, .scalar '"' ∉ front ∧ .scalar '"' ∉ back ∧ line = front ++ (row.text ++ back)

/-- The rows of an array or object, given those of its parts. -/
def Row.enclosed (name : Option Text) (parts : List (List Row)) : List Row :=
  if parts.isEmpty then [⟨name, none⟩] else ⟨name, none⟩ :: (parts.flatten ++ [Row.blank])

/-- The rows of a value under a name, or of an item. -/
def rowsUnder (name : Option Text) : Json → List Row
  | str s => [⟨name, some s⟩]
  | arr items => Row.enclosed name (rowsOfItems items)
  | obj es => Row.enclosed name (rowsOfEntries es)
  | _ => [⟨name, none⟩]
where
  /-- The rows of each item of an array. -/
  rowsOfItems : List Json → List (List Row)
    | [] => []
    | v :: rest => rowsUnder none v :: rowsOfItems rest
  /-- The rows of each entry of an object. -/
  rowsOfEntries : List (Text × Json) → List (List Row)
    | [] => []
    | (k, v) :: rest => rowsUnder (some k) v :: rowsOfEntries rest

private theorem rowsUnder_arr (name : Option Text) (items : List Json) :
    rowsUnder name (arr items) = Row.enclosed name (items.map (rowsUnder none)) := by
  suffices h : rowsUnder.rowsOfItems items = items.map (rowsUnder none) from
    congrArg (Row.enclosed name) h
  induction items with
  | nil => rfl
  | cons v rest ih => rw [rowsUnder.rowsOfItems, ih, List.map_cons]

private theorem rowsUnder_obj (name : Option Text) (es : Entries Json) :
    rowsUnder name (obj es) = Row.enclosed name (es.map fun e => rowsUnder (some e.1) e.2) := by
  suffices h : rowsUnder.rowsOfEntries es = es.map fun e => rowsUnder (some e.1) e.2 from
    congrArg (Row.enclosed name) h
  induction es with
  | nil => rfl
  | cons e rest ih => rw [rowsUnder.rowsOfEntries, ih, List.map_cons]

/-- The rows of the canonical text of a value, which ends with an empty line. -/
def rows (v : Json) : List Row := rowsUnder none v.sortNames ++ [Row.blank]

private theorem Row.mem_enclosed {name : Option Text} {parts : List (List Row)} {part : List Row}
    {row : Row} (hpart : part ∈ parts) (hrow : row ∈ part) : row ∈ Row.enclosed name parts := by
  rw [enclosed, if_neg (by rw [List.isEmpty_iff]; exact List.ne_nil_of_mem hpart)]
  exact List.mem_cons_of_mem _ (List.mem_append_left _ (List.mem_flatten_of_mem hpart hrow))

/-- Every entry with a string has its row. -/
theorem HasEntry.property_mem {v : Json} {name s : Text} (h : v.HasEntry name (str s))
    (under : Option Text) : Row.property name s ∈ rowsUnder under v := by
  -- the entry is one of an object that is printed here or somewhere inside
  induction v using inductionOn generalizing under with
  | null | bool _ | int _ | float _ | str _ => exact absurd h (not_hasEntry rfl rfl)
  | arr items ih =>
    obtain ⟨v, hv, hentry⟩ := hasEntry_arr.mp h
    rw [rowsUnder_arr]
    exact Row.mem_enclosed (List.mem_map_of_mem hv) (ih v hv hentry none)
  | obj es ih =>
    rw [rowsUnder_obj]
    rcases hasEntry_obj.mp h with hmem | ⟨e, he, hentry⟩
    · exact Row.mem_enclosed (List.mem_map_of_mem hmem) List.mem_cons_self
    · exact Row.mem_enclosed (List.mem_map_of_mem he) (ih e he hentry (some e.1))

/-! ## Section 2: The lines of a laid out value -/

/-- A text without quotation marks and line feeds. -/
def Bare (t : Text) : Prop := ∀ c ∈ t, c ≠ .scalar '"' ∧ c ≠ .lineFeed

instance (t : Text) : Decidable (Bare t) :=
  inferInstanceAs (Decidable (∀ c ∈ t, c ≠ .scalar '"' ∧ c ≠ .lineFeed))

private theorem bare_append {s t : Text} : Bare (s ++ t) ↔ Bare s ∧ Bare t := List.forall_mem_append

private theorem Bare.mark_not_mem {t : Text} (h : Bare t) :
    .scalar '"' ∉ t := fun hmem => (h _ hmem).1 rfl

/-- What is bare is on one line. -/
theorem Bare.lineFeed_not_mem {t : Text} (h : Bare t) : CodePoint.lineFeed ∉ t :=
  fun hmem => (h _ hmem).2 rfl

private theorem WritesNumeral.bare {n : Numeral} {s : Text} (h : WritesNumeral n s) : Bare s := by
  have hothers : Bare "+-.eE" := by decide
  intro c hc
  rcases h.isNumeralPart c hc with hdigit | hother
  · exact ⟨(ne_of_isDigit hdigit rfl).symm, (ne_of_isDigit hdigit rfl).symm⟩
  · exact hothers c hother

/-- So is a double. -/
theorem bare_float (x : Binary64) : Bare (x.text .json) := by
  cases x with
  | finite negative m e =>
    obtain ⟨n, hn⟩ := Binary64.writesNumeral_text negative m e .json
    exact hn.bare
  | nan => decide
  | infinite negative => cases negative <;> decide

/-- Whether a text prints rows on its lines, whatever stands in front of it and behind it there. -/
def PrintsRows (rows : List Row) (t : Text) : Prop :=
  ∀ front back, Bare front → Bare back →
    List.Forall₂ Row.Prints rows (Text.lines (front ++ (t ++ back)))

private theorem Row.lineFeed_not_mem_text (row : Row) : CodePoint.lineFeed ∉ row.text := by
  obtain ⟨name, string⟩ := row
  rw [text, List.mem_append, not_or]
  constructor
  · -- a line feed of a name or of a string is written with a backslash
    cases name with
    | none => exact List.not_mem_nil
    | some n =>
      rw [lead, List.mem_append, not_or]
      exact ⟨lineFeed_not_mem_printString _ n, by decide⟩
  · cases string with
    | none => exact List.not_mem_nil
    | some s => exact lineFeed_not_mem_printString _ s

/-- The text of a row and anything else on the line print the row. -/
theorem printsRows_singleton (row : Row) {t : Text} (ht : Bare t) :
    PrintsRows [row] (row.text ++ t) := by
  intro front back hfront hback
  have hrest : Bare (t ++ back) := bare_append.mpr ⟨ht, hback⟩
  have hline : CodePoint.lineFeed ∉ front ++ (row.text ++ (t ++ back)) := by
    rw [List.mem_append, List.mem_append, not_or, not_or]
    exact ⟨hfront.lineFeed_not_mem, row.lineFeed_not_mem_text, hrest.lineFeed_not_mem⟩
  rw [List.append_assoc, Text.lines, Text.split_of_not_mem hline, List.forall₂_cons]
  exact ⟨⟨front, t ++ back, hfront.mark_not_mem, hrest.mark_not_mem, rfl⟩, .nil⟩

private theorem printsRows_lead (name : Option Text) {t : Text} (ht : Bare t) :
    PrintsRows [⟨name, none⟩] (Row.lead name ++ t) := by
  have hrow := printsRows_singleton ⟨name, none⟩ ht
  rwa [Row.text, List.append_nil] at hrow

/-- A text goes on with more rows behind the end of a line. -/
theorem PrintsRows.append {rows more : List Row} {s t u w : Text} (hs : PrintsRows rows s)
    (hu : Bare u) (hw : Bare w) (ht : PrintsRows more t) :
    PrintsRows (rows ++ more) (s ++ (u ++ .lineFeed :: (w ++ t))) := by
  intro front back hfront hback
  have hlines : front ++ (s ++ (u ++ .lineFeed :: (w ++ t)) ++ back) =
      (front ++ (s ++ u)) ++ .lineFeed :: (w ++ (t ++ back)) := by
    simp only [List.append_assoc, List.cons_append]
  rw [hlines, Text.lines_append_cons]
  exact List.rel_append (hs front u hfront hu) (ht w back hw hback)

private theorem printsRows_join {parts : List (List Row)} {texts : List Text}
    (h : List.Forall₂ PrintsRows parts texts) (hne : texts ≠ []) {w : Text} (hw : Bare w) :
    PrintsRows parts.flatten (Text.join (.scalar ',' :: .lineFeed :: w) texts) := by
  -- part by part; all but the last one are followed by a comma and a new line
  induction h with
  | nil => exact absurd rfl hne
  | @cons part t parts texts hpart hrest ih =>
    cases hrest with
    | nil =>
      rw [List.flatten_singleton, Text.join, List.intercalate_singleton]
      exact hpart
    | cons hnext hmore =>
      have hcomma : Bare [.scalar ','] := by decide
      rw [List.flatten_cons, Text.join, List.intercalate_cons_cons, List.append_assoc]
      exact hpart.append hcomma hw (ih (List.cons_ne_nil _ _))

section Style

variable {style : Style} {n : Nat} (hindent : style.indent = some n)
include hindent

/-- A line begins with spaces, and ends with a comma if more follows. -/
theorem exists_newline (depth : Nat) :
    ∃ w, Bare w ∧ style.newline depth = .lineFeed :: w ∧
      style.separator depth = .scalar ',' :: .lineFeed :: w := by
  refine ⟨List.replicate (n * depth) (.scalar ' '), ?_, ?_, ?_⟩
  · intro c hc
    rw [List.eq_of_mem_replicate hc]
    decide
  · rw [Style.newline, hindent]
  · rw [Style.separator, Style.newline, hindent]

private theorem printsRows_enclose (name : Option Text) {parts : List (List Row)}
    {texts : List Text}
    (h : List.Forall₂ PrintsRows parts texts) (depth : Nat) {opening closing : Char}
    (hopening : Bare [.scalar opening]) (hclosing : Bare [.scalar closing]) :
    PrintsRows (Row.enclosed name parts)
      (Row.lead name ++ style.enclose depth opening closing texts) := by
  cases h with
  | nil =>
    have hbrackets : Bare ([.scalar opening] ++ [.scalar closing]) :=
      bare_append.mpr ⟨hopening, hclosing⟩
    exact printsRows_lead name hbrackets
  | @cons part t parts texts hpart hparts =>
    obtain ⟨inner, hinner, hnewline, hseparator⟩ := exists_newline hindent (depth + 1)
    obtain ⟨outer, houter, hlast, -⟩ := exists_newline hindent depth
    have hnil : Bare [] := nofun
    -- the line with the opening bracket, the lines of the parts, and that of the closing bracket
    have hfirst := printsRows_lead name hopening
    have hjoin := printsRows_join (.cons hpart hparts) (List.cons_ne_nil t texts) hinner
    have hend : PrintsRows [Row.blank] [.scalar closing] := printsRows_lead none hclosing
    have hall := hfirst.append hnil hinner (hjoin.append hnil houter hend)
    rw [Row.enclosed, if_neg (by simp), Style.enclose, if_neg (by simp), hnewline, hseparator,
      hlast]
    simpa using hall

/-- A value is printed with its rows on its lines. -/
theorem printsRows_printAt (hascii : style.ascii = false) (hgap : style.gap = " ") (v : Json)
    (name : Option Text) (depth : Nat) :
    PrintsRows (rowsUnder name v) (Row.lead name ++ printAt style depth v) := by
  -- a value prints one row, or the rows of its parts between two brackets
  induction v using inductionOn generalizing name depth with
  | null => exact printsRows_lead name (t := "null") (by decide)
  | bool b =>
    cases b with
    | true => exact printsRows_lead name (t := "true") (by decide)
    | false => exact printsRows_lead name (t := "false") (by decide)
  | int n => exact printsRows_lead name (writesNumeral_ofInt n).bare
  | float x => exact printsRows_lead name (bare_float x)
  | str s =>
    have hnil : Bare [] := nofun
    have hrow := printsRows_singleton ⟨name, some s⟩ hnil
    rw [List.append_nil] at hrow
    rw [printAt, hascii]
    exact hrow
  | arr items ih =>
    rw [rowsUnder_arr, printAt, printItems_eq_map]
    refine printsRows_enclose hindent name ?_ depth (by decide) (by decide)
    rw [List.forall₂_map_left_iff, List.forall₂_map_right_iff]
    exact List.forall₂_same.mpr fun v hv => ih v hv none (depth + 1)
  | obj es ih =>
    rw [rowsUnder_obj, printAt, printEntries_eq_map]
    refine printsRows_enclose hindent name ?_ depth (by decide) (by decide)
    rw [List.forall₂_map_left_iff, List.forall₂_map_right_iff]
    refine List.forall₂_same.mpr fun e he => ?_
    have hentry := ih e he (some e.1) (depth + 1)
    have hlead : Row.lead (some e.1) = printString style.ascii e.1 ++ .scalar ':' :: style.gap := by
      rw [hascii, hgap]
      rfl
    rwa [hlead] at hentry

end Style

/-- The lines of a canonical text that is laid out print the rows of the value. -/
theorem prints_rows_canonical (v : Json) (n : Nat) :
    List.Forall₂ Row.Prints v.rows (Text.lines (v.canonical (some n))) := by
  have hnil : Bare [] := nofun
  have hindent : (canonicalStyle (some n)).indent = some n := rfl
  have hvalue : PrintsRows (rowsUnder none v.sortNames)
      (print (canonicalStyle (some n)) v.sortNames) :=
    printsRows_printAt hindent rfl rfl v.sortNames none 0
  have hend : PrintsRows [Row.blank] [] := printsRows_lead none hnil
  have hall : PrintsRows v.rows (v.canonical (some n)) := hvalue.append hnil hnil hend
  simpa using hall [] [] hnil hnil

/-! ## Section 3: Words on a line -/

/-- The stretches between quotation marks on the line of a row that can be words: the ends of the
name and of the string, behind all quotation marks in them, and what stands between the two. -/
def Row.words : Row → List Text
  | ⟨none, none⟩ => []
  | ⟨some n, none⟩ => [n.lastStretch]
  | ⟨none, some s⟩ => [s.lastStretch]
  | ⟨some n, some s⟩ => [n.lastStretch, ": ", s.lastStretch]

section Words

variable {w : Text} (hw : Unescaped w)
include hw

private theorem Unescaped.mark_not_mem : .scalar '"' ∉ w := fun hmem => (hw _ hmem).1 rfl

/-- A word stands in a printed string as the end of the string, or else at its closing quotation
mark or later. -/
theorem inQuotes_infix_printString (s t : Text) :
    w.inQuotes <:+: printString false s ++ t ↔
      w = s.lastStretch ∨ w.inQuotes <:+: .scalar '"' :: t := by
  -- the mark at the front begins the first of the stretches between two marks
  have hprint (s : Text) : printString false s ++ t =
      .scalar '"' :: (s.flatMap (escapeInString false) ++ .scalar '"' :: t) := by
    rw [printString_eq, Text.inQuotes, List.append_assoc]
    rfl
  by_cases hmark : .scalar '"' ∈ s
  · -- what is printed up to the first quotation mark in the string ends with a backslash
    obtain ⟨front, rest, rfl, hfront⟩ := List.eq_append_cons_of_mem hmark
    have hstretch : .scalar '"' ∉ front.flatMap (escapeInString false) ++ [.scalar '\\'] := by
      rw [List.mem_append, not_or]
      exact ⟨mark_not_mem_escaped _ hfront, by decide⟩
    have hne : w ≠ front.flatMap (escapeInString false) ++ [.scalar '\\'] := by
      rintro rfl
      exact (hw _ (List.mem_append_right _ List.mem_cons_self)).2.1 rfl
    have hsplit : printString false (front ++ .scalar '"' :: rest) ++ t =
        .scalar '"' :: (front.flatMap (escapeInString false) ++ [.scalar '\\'] ++
          (printString false rest ++ t)) := by
      rw [hprint, hprint, List.flatMap_append, List.append_assoc, List.append_assoc]
      rfl
    have hrest := inQuotes_infix_printString rest t
    rw [hprint] at hsplit hrest
    rw [hprint, hsplit, hprint, Text.inQuotes_infix_stretch hw.mark_not_mem hstretch,
      or_iff_right hne, hrest, Text.lastStretch_append_cons]
  · rw [hprint, Text.inQuotes_infix_stretch hw.mark_not_mem (mark_not_mem_escaped _ hmark), eq_comm,
      escaped_eq_iff hw, Text.lastStretch_of_not_mem hmark, eq_comm]
termination_by s.length

/-- Which words stand between quotation marks on a line can be read off its row. -/
theorem Row.Prints.inQuotes_infix_iff {row : Row} {line : Text} (h : row.Prints line) :
    w.inQuotes <:+: line ↔ w ∈ row.words := by
  obtain ⟨front, back, hfront, hback, rfl⟩ := h
  rw [Text.inQuotes_infix_append hfront]
  obtain ⟨name, string⟩ := row
  cases name with
  | none =>
    cases string with
    | none => exact iff_of_false (Text.not_infix_inQuotes hback) List.not_mem_nil
    | some s =>
      rw [text, lead, List.nil_append, inQuotes_infix_printString hw,
        or_iff_left (Text.not_infix_inQuotes_cons hback), words, List.mem_singleton]
  | some n =>
    rw [text, lead, List.append_assoc, List.append_assoc, inQuotes_infix_printString hw]
    cases string with
    | none =>
      have hrest : .scalar '"' ∉ Text.ofString ": " ++ ([] ++ back) := by
        rw [List.mem_append, not_or]
        exact ⟨by decide, hback⟩
      rw [or_iff_left (Text.not_infix_inQuotes_cons hrest), words, List.mem_singleton]
    | some s =>
      have hcolon : .scalar '"' ∉ Text.ofString ": " := by decide
      have hprint : ∃ rest, printString false s ++ back = .scalar '"' :: rest := ⟨_, rfl⟩
      have hstring := inQuotes_infix_printString hw s back
      -- the words of the string are those at its opening quotation mark or later
      obtain ⟨rest, hrest⟩ := hprint
      rw [hrest, or_iff_left (Text.not_infix_inQuotes_cons hback)] at hstring
      rw [hrest, Text.inQuotes_infix_stretch hw.mark_not_mem hcolon, hstring, words, List.mem_cons,
        List.mem_pair]

end Words

/-! ## Section 4: The first line with two words -/

/-- The row of an entry with a string that is a word under a name that is one shows both. -/
theorem Row.mem_words_property {name s : Text} (hname : Unescaped name) (hs : Unescaped s) :
    name ∈ (property name s).words ∧ s ∈ (property name s).words := by
  rw [property, words, Text.lastStretch_of_not_mem hname.mark_not_mem,
    Text.lastStretch_of_not_mem hs.mark_not_mem]
  exact ⟨List.mem_cons_self, List.mem_cons_of_mem _ (List.mem_cons_of_mem _ List.mem_cons_self)⟩

/-- Whether a row shows a name and a string as words without being the row of the entry that has
this string under this name. -/
def Row.Misleads (row : Row) (name s : Text) : Prop :=
  row ≠ property name s ∧ name ∈ row.words ∧ s ∈ row.words

instance (row : Row) (name s : Text) : Decidable (row.Misleads name s) :=
  inferInstanceAs (Decidable (row ≠ .property name s ∧ name ∈ row.words ∧ s ∈ row.words))

/-- If a row is the first that shows a name and a string, then it is the row of the entry exactly if
no misleading row stands above some row of the entry. -/
theorem Row.eq_property_iff {name s : Text} (hname : Unescaped name) (hs : Unescaped s)
    {above below : List Row} {row : Row} (hrow : name ∈ row.words ∧ s ∈ row.words)
    (habove : ∀ r ∈ above, ¬ (name ∈ r.words ∧ s ∈ r.words)) :
    row = property name s ↔
      ∃ before after, above ++ row :: below = before ++ property name s :: after ∧
        ∀ r ∈ before, ¬ r.Misleads name s := by
  constructor
  · rintro rfl
    exact ⟨above, below, rfl, fun r hr hmisleads => habove r hr hmisleads.2⟩
  · rintro ⟨before, after, hsplit, hbefore⟩
    have hproperty := mem_words_property hname hs
    rcases List.append_eq_append_iff.mp hsplit with ⟨between, rfl, heq⟩ | ⟨between, rfl, heq⟩
    · -- the row of the entry stands here or below
      cases between with
      | nil => exact (List.cons.inj heq).1
      | cons first between =>
        rw [(List.cons.inj heq).1]
        by_contra hne
        have hfirst : first ∈ above ++ first :: between := by simp
        exact hbefore first hfirst ⟨hne, (List.cons.inj heq).1 ▸ hrow⟩
    · -- and not above
      cases between with
      | nil => exact (List.cons.inj heq).1.symm
      | cons first between =>
        have hfirst : first ∈ before ++ first :: between := by simp
        rw [(List.cons.inj heq).1] at hproperty
        exact absurd hproperty (habove first hfirst)

/-- The first line of a kind is that of the first row of a kind, if the kinds agree. -/
theorem exists_row_of_first {P : Text → Prop} {Q : Row → Prop}
    (hPQ : ∀ row line, row.Prints line → (P line ↔ Q row)) {rows : List Row} {lines : List Text}
    (h : List.Forall₂ Row.Prints rows lines) {i : Nat} {line : Text} (hline : lines[i]? = some line)
    (hP : P line) (habove : ∀ l ∈ lines.take i, ¬ P l) :
    ∃ above row below, rows = above ++ row :: below ∧ above.length = i ∧ Q row ∧
      ∀ r ∈ above, ¬ Q r := by
  -- along the rows and the lines, up to the line with the number
  induction h generalizing i with
  | nil => cases hline
  | @cons row first rows lines hfirst hrest ih =>
    cases i with
    | zero =>
      cases hline
      exact ⟨[], row, rows, rfl, rfl, (hPQ row _ hfirst).mp hP, nofun⟩
    | succ i =>
      rw [List.take_succ_cons, List.forall_mem_cons] at habove
      obtain ⟨above, found, below, rfl, rfl, hfound, hnone⟩ := ih hline habove.2
      have hnot : ¬ Q row := fun hrow => habove.1 ((hPQ row first hfirst).mpr hrow)
      exact ⟨row :: above, found, below, rfl, rfl, hfound, List.forall_mem_cons.mpr ⟨hnot, hnone⟩⟩

end FormSchema.Json
