import FormSchema.Proofs.Assist.Cursor
import FormSchema.Proofs.Assist.Insertion
import FormSchema.Proofs.Json.Places
import FormSchema.Proofs.Json.Slot

/-!
# The comma behind an insertion

A text in which a string can stand at the cursor, behind a `"data_type":`, shows whether a comma has
to follow what is inserted there.  The lines behind the cursor tell the same if the text is laid
out, and with an insertion the text is parsed exactly if they do and there is room for brackets.
-/

namespace FormSchema.Json

/-! ## Section 1: Parsed texts with a slot -/

/-- A text that is parsed. -/
def Parses (s : Text) : Prop := ∃ v, parse s = .ok v

/-- A text that is derived is parsed as a value of some kind, unless it is beyond the limits. -/
private theorem parses_iff {v : Json} {s : Text} (h : Derives (.element v) s) :
    Parses s ↔ v.Readable := by
  constructor
  · rintro ⟨w, hw⟩
    obtain ⟨v', hv', hreadable, _⟩ := parse_eq_ok_iff.mp hw
    cases h.element_unique hv'
    exact hreadable
  · intro hreadable
    exact ⟨v.merge, parse_eq_ok_iff.mpr ⟨v, h, hreadable, rfl⟩⟩

/-- What can follow a value cannot carry on a number. -/
theorem Follows.endsNumeral {z : Text} (h : Follows z) : EndsNumeral z := by
  cases h with
  | brace hl => exact endsNumeral_blank_append hl (endsNumeral_brace _)
  | comma hl hm hs => exact endsNumeral_blank_append hl (endsNumeral_comma _)

/-- In a text that is parsed, a value behind a name and a colon is in a slot, provided that no other
value can be read there. -/
theorem Parses.exists_slot {a w y z : Text} {u : Json} (h : Parses (a ++ (w ++ (y ++ z))))
    (ha : Opens a) (hw : IsBlank w) (hy : Derives (.value u) y)
    (hunique : ∀ ⦃u' x z'⦄, Derives (.value u') x → EndsNumeral z' → y ++ z = x ++ z' →
      u = u' ∧ z = z') :
    ∃ f n, (f ⟨u, []⟩).Readable ∧ Slot (.element f) n (a ++ w) z := by
  obtain ⟨v', hv'⟩ := h
  obtain ⟨v, hv, hreadable, _⟩ := parse_eq_ok_iff.mp hv'
  obtain ⟨w', x, z', u', f, n, hw', heq, hx, rfl, hslot⟩ := hv.hasSlotAt rfl ha
  -- behind the white space both values begin at the same place
  have hskip := congrArg skipSpace heq
  rw [skipSpace_append hw, skipSpace_append hw', hy.beginsValue.skipSpace_eq,
    hx.beginsValue.skipSpace_eq] at hskip
  obtain ⟨rfl, rfl⟩ := hunique hx hslot.followed.endsNumeral hskip
  rw [hskip] at heq
  have hblank : w = w' := List.append_cancel_right heq
  subst hblank
  exact ⟨f, n, hreadable, hslot⟩

private theorem Spells.string_unique {s t z : Text} (h : Spells s t) ⦃u : Json⦄ ⦃x z' : Text⦄
    (hx : Derives (.value u) x) (_ : EndsNumeral z') (heq : s.inQuotes ++ z = x ++ z') :
    .str t = u ∧ z = z' := by
  obtain ⟨y, t', rfl, hy, hrest⟩ := hx.of_quote heq
  obtain ⟨rfl, hz⟩ := h.unique hy (by simpa using hrest)
  exact ⟨rfl, hz⟩

/-- What is put into the slot of a readable tree gives a text that is parsed exactly if it is within
the limits that are left. -/
theorem Slot.parses_iff {f : Filling → Json} {n : Nat} {a z s : Text}
    (h : Slot (.element f) n a z) (hreadable : (f ⟨.str s, []⟩).Readable) {v : Json} {y m : Text}
    {es : Entries Json} {texts : List Text} (hv : Derives (.value v) y) (hm : IsBlank m)
    (htexts : List.Forall₂ (fun e t => Derives (.member e) t) es texts) :
    Parses (a ++ (y ++ (texts.flatMap ((.scalar ',' :: m) ++ ·) ++ z))) ↔
      Filling.Fits (maxDepth - n) ⟨v, es⟩ := by
  rw [Json.parses_iff (h.derives hv hm htexts)]
  exact (h.fits maxDepth s ⟨v, es⟩).trans (and_iff_right hreadable)

/-! ## Section 2: What follows the cursor -/

/-- Behind the value of a member comes a brace or a comma. -/
theorem Follows.skipSpace_eq {z : Text} (h : Follows z) :
    ∃ c t, skipSpace z = c :: t ∧ (c = .scalar '\x7d' ∨ c = .scalar ',') := by
  cases h with
  | brace hl =>
    rw [skipSpace_append hl, skipSpace_cons rfl]
    exact ⟨_, _, rfl, .inl rfl⟩
  | comma hl hm hs =>
    rw [skipSpace_append hl, skipSpace_cons rfl]
    exact ⟨_, _, rfl, .inr rfl⟩

/-- Behind a comma comes a quoted name. -/
theorem Follows.of_comma {z : Text} (h : Follows (.scalar ',' :: z)) :
    ∃ s t : Text, CodePoint.lineFeed ∉ s ∧ skipSpace z = s.inQuotes ++ t := by
  generalize hz : CodePoint.scalar ',' :: z = y at h
  -- neither white space nor a brace is the comma in front
  cases h with
  | @brace l t hl =>
    have hskip := congrArg skipSpace hz
    rw [skipSpace_append hl, skipSpace_cons rfl, skipSpace_cons rfl] at hskip
    exact absurd (List.cons.inj hskip).1 (by decide)
  | @comma l m s t hl hm hs =>
    have hskip := congrArg skipSpace hz
    rw [skipSpace_append hl, skipSpace_cons rfl, skipSpace_cons rfl] at hskip
    refine ⟨s, t, hs, ?_⟩
    rw [(List.cons.inj hskip).2, skipSpace_append hm]
    exact skipSpace_cons rfl _

end FormSchema.Json

namespace FormSchema.Insertion

open Json (Derives Follows IsBlank Parses Opens Slot skipSpace)

/-- Without a comma the object ends or has its own comma; behind one there is a quoted token. -/
theorem follows_cases {more : Bool} {z : Text} (h : Follows (comma more ++ z)) :
    (more = false ∧ ∃ c t, skipSpace z = c :: t ∧ (c = .scalar '\x7d' ∨ c = .scalar ',')) ∨
      more = true ∧ ∃ s t : Text, CodePoint.lineFeed ∉ s ∧ skipSpace z = s.inQuotes ++ t := by
  cases more with
  | false => exact .inl ⟨rfl, Follows.skipSpace_eq h⟩
  | true => exact .inr ⟨rfl, Follows.of_comma h⟩

/-- A quotation mark is what comes next exactly if there is a comma in front of it. -/
theorem eq_true_iff_quote {more : Bool} {z : Text} (h : Follows (comma more ++ z)) :
    more = true ↔ (skipSpace z).head? = some (.scalar '"') := by
  rcases follows_cases h with ⟨rfl, c, t, hz, rfl | rfl⟩ | ⟨rfl, s, t, _, hz⟩
  · rw [hz]
    exact ⟨nofun, fun hquote => absurd (Option.some.inj hquote) (by decide)⟩
  · rw [hz]
    exact ⟨nofun, fun hquote => absurd (Option.some.inj hquote) (by decide)⟩
  · rw [hz]
    exact ⟨fun _ => rfl, fun _ => rfl⟩

/-- A text takes either a comma in front of it or none. -/
theorem comma_unique {b c : Bool} {z : Text} (h : Follows (comma b ++ z))
    (h' : Follows (comma c ++ z)) : b = c :=
  Bool.eq_iff_iff.mpr ((eq_true_iff_quote h).trans (eq_true_iff_quote h').symm)

/-- Neither with a comma nor without one can the rest of the text carry on a number. -/
theorem endsNumeral_comma {b : Bool} {z : Text} (h : Follows (comma b ++ z)) (c : Bool) :
    Json.EndsNumeral (comma c ++ z) := by
  -- what follows the blanks is never a digit
  have hskip : Json.EndsNumeral (skipSpace z) := by
    rcases follows_cases h with ⟨-, d, t, hz, rfl | rfl⟩ | ⟨-, s, t, _, hz⟩
    · exact hz ▸ Json.endsNumeral_brace t
    · exact hz ▸ Json.endsNumeral_comma t
    · exact hz ▸ Json.endsNumeral_cons _ rfl (by decide)
  cases c with
  | false =>
    obtain ⟨l, hl, hz⟩ := Json.exists_blank z
    show Json.EndsNumeral z
    rw [hz]
    exact Json.endsNumeral_blank_append hl hskip
  | true => exact Json.endsNumeral_comma z

/-! ## Section 3: Laid out texts -/

/-- Nothing but white space comes behind the cursor up to a line that begins with a quoted token or
is a closing one. -/
def LaidOut (after : Text) : Prop :=
  ∃ w l t, after = w ++ .lineFeed :: (l ++ t) ∧ IsBlank w ∧ IsBlank l ∧ CodePoint.lineFeed ∉ l ∧
    (t.head? = some (.scalar '"') ∨ isClosing ((Text.lines (l ++ t)).headD []) = true)

private theorem brace_mem_of_isClosing {line : Text} (h : isClosing line = true) :
    CodePoint.scalar '\x7d' ∈ line := by
  have hmem : CodePoint.scalar '\x7d' ∈ line.strip := by
    rw [isClosing, Bool.or_eq_true, decide_eq_true_iff, decide_eq_true_iff] at h
    rcases h with h | h <;> rw [h] <;> decide
  -- stripping takes away code points at the ends only
  rw [Text.strip, Text.stripEnd, List.mem_reverse] at hmem
  have hend := (List.dropWhile_suffix _).subset hmem
  exact (List.dropWhile_suffix _).subset (List.mem_reverse.mp hend)

private theorem tokenBeforeClosing_blank {lines : List Text} (h : ∀ l ∈ lines, IsBlank l)
    (rest : List Text) : tokenBeforeClosing (lines ++ rest) = tokenBeforeClosing rest := by
  refine tokenBeforeClosing_append (fun l hl => ⟨?_, ?_⟩) rest
  · rw [Bool.eq_false_iff]
    intro hclosing
    exact absurd (h l hl _ (brace_mem_of_isClosing hclosing)) (by decide)
  · rw [hasToken, List.count_eq_zero_of_not_mem fun hmem => absurd (h l hl _ hmem) (by decide)]
    rfl

private theorem isBlank_of_mem_lines {w line : Text} (hw : IsBlank w) (h : line ∈ w.lines) :
    IsBlank line := by
  have hpart : line <:+: Text.unlines w.lines := Json.infix_join h
  rw [Text.unlines_lines] at hpart
  intro c hc
  exact hw c (hpart.subset hc)

/-- On a line with a brace stands what comes next in the text behind white space. -/
theorem mem_line_of_head {s line : Text} {rest : List Text} {c : CodePoint}
    (hlines : Text.lines s = line :: rest) (hbrace : CodePoint.scalar '\x7d' ∈ line)
    (hhead : (skipSpace s).head? = some c) : c ∈ line := by
  have hs : s = line ++ rest.flatMap ([.lineFeed] ++ ·) := by
    conv_lhs => rw [← Text.unlines_lines s, hlines, Text.unlines, Text.join_cons]
  have hne : line.dropWhile Json.isSpace ≠ [] := by
    intro hnil
    exact absurd (List.dropWhile_eq_nil_iff.mp hnil _ hbrace) (by decide)
  rw [hs, skipSpace, List.dropWhile_append, if_neg (by simpa using hne),
    List.head?_append_of_ne_nil _ hne] at hhead
  exact (List.dropWhile_suffix _).subset (List.mem_of_head? hhead)

/-- In a laid out text the lines behind the cursor tell whether a comma has to stand there. -/
theorem tokenBeforeClosing_of_laidOut {more : Bool} {after : Text} (h : LaidOut after)
    (hfollows : Follows (comma more ++ after)) :
    tokenBeforeClosing after.lines.tail = more := by
  obtain ⟨w, l, t, hafter, hw, hl, hfree, hline⟩ := h
  have hskip : skipSpace after = skipSpace (l ++ t) := by
    rw [hafter, Json.skipSpace_append hw]
    exact Json.skipSpace_append Json.isBlank_lineFeed (l ++ t)
  -- the lines in between are skipped
  obtain ⟨first, blanks, hlines⟩ := Text.exists_first_line w
  have htail : tokenBeforeClosing after.lines.tail = tokenBeforeClosing (Text.lines (l ++ t)) := by
    have hblanks : ∀ line ∈ blanks, IsBlank line := by
      intro line hline
      apply isBlank_of_mem_lines hw
      rw [hlines]
      exact List.mem_cons_of_mem first hline
    rw [hafter, Text.lines_append_cons, hlines, List.cons_append, List.tail_cons,
      tokenBeforeClosing_blank hblanks]
  rw [htail]
  rcases hline with hquote | hclosing
  · -- the quoted token follows a comma, and it is on the line
    have hnext : skipSpace (l ++ t) = t := by
      rw [Json.skipSpace_append hl, skipSpace, Text.dropWhile_eq_self]
      intro c hc
      rw [Option.mem_def, hquote] at hc
      cases hc
      rfl
    rw [hnext] at hskip
    obtain rfl := (eq_true_iff_quote hfollows).mpr (by rw [hskip, hquote])
    have hcomma : Follows (.scalar ',' :: after) := hfollows
    obtain ⟨s, u, hs, htoken⟩ := hcomma.of_comma
    rw [← hskip, htoken]
    exact tokenBeforeClosing_quoted hfree hs u
  · -- a quoted token would be on the closing line
    obtain ⟨line, rest, hline⟩ := Text.exists_first_line (l ++ t)
    have hclosing : isClosing line = true := by rwa [hline] at hclosing
    have hmore : more ≠ true := by
      intro hmore
      have hquote := (eq_true_iff_quote hfollows).mp hmore
      rw [hskip] at hquote
      have hmem := mem_line_of_head hline (brace_mem_of_isClosing hclosing) hquote
      rw [isClosing_of_mem hmem] at hclosing
      cases hclosing
    rw [hline, tokenBeforeClosing, hclosing, Bool.eq_false_iff.mpr hmore]
    rfl

/-! ## Section 4: The fragment at the cursor -/

/-- What comes before it does not keep a text from opening a slot. -/
theorem Opens.append {a : Text} (h : Opens a) (x : Text) : Opens (x ++ a) := by
  obtain ⟨e, he, hsuffix⟩ := h
  exact ⟨e, he, hsuffix.trans (List.suffix_append x a)⟩

/-- What is inserted on a line with an indentation, but for a comma at the end. -/
def fragment (kind : InsertionKind) (l : Text) : Text :=
  kind.dataType.identifier.inQuotes ++
    (sampleTexts kind (.lineFeed :: l)).flatMap ((.scalar ',' :: .lineFeed :: l) ++ ·)

/-- A text that ends with a printed entry ends with a value that is in a slot. -/
theorem exists_opened_entry (s : Text) {name y : Text} {u : Json}
    (hname : Opens (Json.printString false name ++ [.scalar ':'])) (hy : Derives (.value u) y) :
    ∃ a x v, s ++ Json.printEntry (Json.canonicalStyle none) name y = a ++ ([.scalar ' '] ++ x) ∧
      Opens a ∧ Derives (.value v) x := by
  refine ⟨s ++ (Json.printString false name ++ [.scalar ':']), y, u, ?_, Opens.append hname s, hy⟩
  have hgap : (Json.canonicalStyle none).gap = [.scalar ' '] := rfl
  have hascii : (Json.canonicalStyle none).ascii = false := rfl
  simp only [Json.printEntry, hgap, hascii, List.append_assoc, List.cons_append, List.nil_append]

/-- So do the sample entries. -/
theorem exists_opened_sample (kind : InsertionKind) {l : Text} (hl : IsBlank l) :
    ∃ a y u, (sampleTexts kind (.lineFeed :: l)).flatMap ((.scalar ',' :: .lineFeed :: l) ++ ·) =
      a ++ ([.scalar ' '] ++ y) ∧ Opens a ∧ Derives (.value u) y := by
  have hstart : IsBlank (.lineFeed :: l) := Json.isBlank_lineFeed.append hl
  -- of both samples the name is written without a blank before the colon
  cases kind with
  | dropdown =>
    have hname : Opens (Json.printString false "choices" ++ [.scalar ':']) :=
      ⟨.scalar 's', by decide, ⟨"\"choice", rfl⟩⟩
    rw [sampleTexts, List.flatMap_singleton]
    exact exists_opened_entry _ hname (derives_choicesText hstart)
  | htmlEditor =>
    have hname : Opens (Json.printString false "display" ++ [.scalar ':']) :=
      ⟨.scalar 'y', by decide, ⟨"\"displa", rfl⟩⟩
    rw [sampleTexts, List.flatMap_singleton]
    exact exists_opened_entry _ hname (.string (Json.spells_printed _))

/-- A text that ends with `"data_type":`, perhaps with spaces and tabs behind it. -/
def OpensType (before : Text) : Prop :=
  ∃ front gap, before = front ++ ("\"data_type\":" ++ gap) ∧
    ∀ c ∈ gap, c = .scalar ' ' ∨ c = .scalar '\t'

private theorem OpensType.exists_opens {before : Text} (h : OpensType before) :
    ∃ a w, before = a ++ w ∧ Opens a ∧ IsBlank w := by
  obtain ⟨front, gap, rfl, hgap⟩ := h
  refine ⟨front ++ "\"data_type\":", gap, (List.append_assoc _ _ _).symm, ?_, ?_⟩
  · exact Opens.append ⟨.scalar 'e', by decide, ⟨"\"data_typ", rfl⟩⟩ front
  · intro c hc
    rcases hgap c hc with rfl | rfl <;> rfl

section Cursor

variable {before after : Text} {more : Bool} (hbefore : OpensType before)
  (hsample : Parses (before ++ ("\"x\"" ++ (comma more ++ after))))
include hbefore hsample

/-- In front of what follows the cursor there is the slot of the data type. -/
theorem exists_type_slot :
    ∃ f n, (f ⟨.str "x", []⟩).Readable ∧
      Slot (.element f) n before (comma more ++ after) := by
  obtain ⟨a, w, rfl, ha, hw⟩ := hbefore.exists_opens
  have hspells : Json.Spells "x" "x" := Json.spells_printed "x"
  have hstring : Derives (.value (.str "x")) (Text.inQuotes "x") := .string hspells
  rw [List.append_assoc] at hsample
  exact Parses.exists_slot hsample ha hw hstring hspells.string_unique

/-- A comma behind the fragment, or none, is what has to stand there if the text is parsed. -/
theorem eq_of_parses_fragment (kind : InsertionKind) {l : Text} (hl : IsBlank l) {c : Bool}
    (h : Parses (before ++ (fragment kind l ++ (comma c ++ after)))) : c = more := by
  obtain ⟨f, n, -, hslot⟩ := exists_type_slot hbefore hsample
  have hfollows : Follows (comma more ++ after) := hslot.followed
  -- behind the last sample entry the text goes on as behind the string
  obtain ⟨a, y, u, heq, ha, hy⟩ := exists_opened_sample kind hl
  have hopened : Parses ((before ++ (kind.dataType.identifier.inQuotes ++ a)) ++
      ([.scalar ' '] ++ (y ++ (comma c ++ after)))) := by
    rw [fragment, heq] at h
    simpa only [List.append_assoc] using h
  have hspace : IsBlank [.scalar ' '] := Json.isBlank_canonical_gap none
  obtain ⟨g, m, -, hlast⟩ := Parses.exists_slot hopened
    (Opens.append (Opens.append ha _) _) hspace hy fun _ _ _ hx hz heq =>
      Json.unique_of_derives hy hx (endsNumeral_comma hfollows c) hz heq
  exact comma_unique hlast.followed hfollows

/-- With what has to stand behind the fragment, the text is parsed exactly if there is room for the
brackets of the fragment. -/
theorem parses_fragment_iff (kind : InsertionKind) {l : Text} (hl : IsBlank l) :
    Parses (before ++ (fragment kind l ++ (comma more ++ after))) ↔
      kind = .htmlEditor ∨ Parses (before ++ ("\x7b\x7d" ++ (comma more ++ after))) := by
  obtain ⟨f, n, hreadable, hslot⟩ := exists_type_slot hbefore hsample
  have hstart : IsBlank (.lineFeed :: l) := Json.isBlank_lineFeed.append hl
  have hidentifier : Derives (.value (.str kind.dataType.identifier))
      kind.dataType.identifier.inQuotes := by
    rw [← printString_identifier]
    exact .string (Json.spells_printed _)
  have hfragment : Json.Filling.Fits (Json.maxDepth - n)
      ⟨.str kind.dataType.identifier, kind.sampleEntries⟩ ↔
        kind = .htmlEditor ∨ 0 < Json.maxDepth - n :=
    (and_iff_right (Json.fits_str _ _)).trans InsertionKind.sampleEntries_fit
  -- a pair of braces takes as much room as the sample of a dropdown
  have hempty : Json.Filling.Fits (Json.maxDepth - n) ⟨.obj [], []⟩ ↔ 0 < Json.maxDepth - n := by
    refine (and_iff_left nofun).trans ?_
    cases Json.maxDepth - n with
    | zero => exact ⟨fun h => absurd h (Json.not_fits_zero_obj []), nofun⟩
    | succ room => exact ⟨fun _ => room.succ_pos, fun _ => Json.fits_empty_obj room⟩
  have hbraces : Parses (before ++ ("\x7b\x7d" ++ (comma more ++ after))) ↔
      Json.Filling.Fits (Json.maxDepth - n) ⟨.obj [], []⟩ :=
    hslot.parses_iff hreadable (.emptyObject Json.isBlank_nil) Json.isBlank_nil .nil
  rw [fragment, List.append_assoc, hslot.parses_iff hreadable hidentifier hstart
    (derives_sampleTexts kind hstart), hbraces, hfragment, hempty]

end Cursor

/-! ## Section 5: Insertion at the cursor -/

private theorem isBlank_indentation (line : Text) : IsBlank (indentation line) := by
  intro c hc
  have hspace := List.all_eq_true.mp List.all_takeWhile c hc
  rw [Bool.or_eq_true, decide_eq_true_iff, decide_eq_true_iff] at hspace
  rcases hspace with rfl | rfl <;> rfl

/-- At a cursor an insertion can always be planned: the fragment for the indentation of the line,
with the comma that the lines behind it ask for. -/
theorem plan_at_cursor (kind : InsertionKind) (before after : Text) :
    ∃ i l, plan (before ++ after) (before.count .lineFeed : Nat) before.lastLine.length kind =
        .ok i ∧
      i.applyTo (before ++ after) = before ++ (i.text ++ after) ∧ IsBlank l ∧
      i.text = fragment kind l ++ comma (tokenBeforeClosing after.lines.tail) := by
  obtain ⟨first, rest, hafter, hline, hdrop⟩ := Text.getD_lines_append before after
  -- the cursor divides its line in two, and the comma depends on the lines behind that
  have hinside : before.count .lineFeed < (Text.lines (before ++ after)).length := by
    rw [Text.length_lines, List.count_append]
    omega
  have hcolumn : before.lastLine.length ≤
      ((Text.lines (before ++ after)).getD (before.count .lineFeed) []).length := by
    rw [hline, List.length_append]
    omega
  have hbuild : build kind.dataType
      (indentation ((Text.lines (before ++ after)).getD (before.count .lineFeed) []))
      (tokenBeforeClosing ((Text.lines (before ++ after)).drop (before.count .lineFeed + 1))) =
        .ok (fragment kind (indentation (before.lastLine ++ first)) ++
          comma (tokenBeforeClosing after.lines.tail)) := by
    rw [hline, hdrop, hafter, build_eq, fragment, List.append_assoc]
    rfl
  exact ⟨_, _, plan_eq_ok hinside hcolumn hbuild, applyTo_append rfl rfl after,
    isBlank_indentation _, rfl⟩

/-- Where a string can stand at the cursor, with a comma behind it or without one, the text with an
insertion is parsed exactly if the lines behind the cursor tell which of the two it is, and there is
room for the brackets of the fragment.  In a laid out text the lines do tell it. -/
theorem plan_parses_iff (kind : InsertionKind) {before after : Text} {more : Bool}
    (hbefore : OpensType before)
    (hsample : Parses (before ++ ("\"x\"" ++ (comma more ++ after)))) :
    ∃ i, plan (before ++ after) (before.count .lineFeed : Nat) before.lastLine.length kind = .ok i ∧
      i.applyTo (before ++ after) = before ++ (i.text ++ after) ∧
      (Parses (before ++ (i.text ++ after)) ↔
        tokenBeforeClosing after.lines.tail = more ∧
          (kind = .htmlEditor ∨
            Parses (before ++ ("\x7b\x7d" ++ (comma more ++ after))))) ∧
      (LaidOut after → tokenBeforeClosing after.lines.tail = more) := by
  obtain ⟨i, l, hplan, happly, hl, htext⟩ := plan_at_cursor kind before after
  obtain ⟨_, _, _, hslot⟩ := exists_type_slot hbefore hsample
  refine ⟨i, hplan, happly, ?_, fun h => tokenBeforeClosing_of_laidOut h hslot.followed⟩
  rw [htext, List.append_assoc]
  constructor
  · -- a text that is parsed has the comma that the grammar asks for
    intro h
    have hmore := eq_of_parses_fragment hbefore hsample kind hl h
    rw [hmore] at h
    exact ⟨hmore, (parses_fragment_iff hbefore hsample kind hl).mp h⟩
  · rintro ⟨hmore, hroom⟩
    rw [hmore]
    exact (parses_fragment_iff hbefore hsample kind hl).mpr hroom

/-- A text in front of a cursor on a line of its own, and what follows it on the next lines. -/
def fieldBefore : Text := "\x7b\n  \"data_type\": "

def fieldAfter : Text := "\n  \"key\": \"a\"\n\x7d"

/-- A field whose data type is missing is completed, and the text is parsed. -/
theorem plan_parses_field :
    ∃ i, plan (fieldBefore ++ fieldAfter) 1 15 .dropdown = .ok i ∧
      i.applyTo (fieldBefore ++ fieldAfter) = fieldBefore ++ (i.text ++ fieldAfter) ∧
      Parses (fieldBefore ++ (i.text ++ fieldAfter)) := by
  have hopens : OpensType fieldBefore := ⟨"\x7b\n  ", " ", rfl, by decide⟩
  -- both texts are canonical, so that they are parsed without being read here
  have hstring : Parses (fieldBefore ++ ("\"x\"" ++ (comma true ++ fieldAfter))) :=
    ⟨_, Json.parse_print_canonicalStyle (.obj [typeEntry (.str "x"), ("key", .str "a")]) (some 2)
      (by decide) (by decide) (by decide)⟩
  have hbraces : Parses (fieldBefore ++ ("\x7b\x7d" ++ (comma true ++ fieldAfter))) :=
    ⟨_, Json.parse_print_canonicalStyle (.obj [typeEntry (.obj []), ("key", .str "a")]) (some 2)
      (by decide) (by decide) (by decide)⟩
  obtain ⟨i, hplan, happly, hparses, -⟩ := plan_parses_iff .dropdown hopens hstring
  exact ⟨i, hplan, happly, hparses.mpr ⟨by decide, .inr hbraces⟩⟩

/-! ## Section 6: Misjudged commas -/

/-- A text in front of a cursor, and what follows it on the same line. -/
def lineBefore : Text := "\x7b\"data_type\": "

def lineAfter : Text := " \"key\": \"a\"\x7d"

/-- An object inside others, up to the value of its data type. -/
def depthBefore : Nat → Text
  | 0 => lineBefore
  | n + 1 => "\x7b\"schema\":" ++ depthBefore n

/-- The ends of these objects, each on a line of its own. -/
def depthAfter : Nat → Text
  | 0 => "\n\x7d"
  | n + 1 => depthAfter n ++ "\n\x7d"

/-- The tree of such a text. -/
def depthTree : Nat → Json.Filling → Json
  | 0, x => .obj (("data_type", x.value) :: x.more)
  | n + 1, x => .obj [("schema", depthTree n x)]

private theorem slot_depth (n : Nat) :
    Slot (.value (depthTree n)) (n + 1) (depthBefore n) (depthAfter n) := by
  -- one object around the place for each level
  induction n with
  | zero =>
    have hspace : IsBlank " " := Json.isBlank_canonical_gap none
    have hhole := Slot.hole Json.isBlank_nil (Json.spells_printed "data_type") Json.isBlank_nil
      hspace Json.isBlank_lineFeed
    exact hhole.inObject
  | succ n ih =>
    have helement := Slot.inElement Json.isBlank_nil ih Json.isBlank_lineFeed
    have hmember := Slot.inMember Json.isBlank_nil (Json.spells_printed "schema") Json.isBlank_nil
      helement
    have hobject := hmember.inObject
    rw [List.append_assoc] at hobject
    exact hobject

/-- The tree is nested by one level more than there are objects around the slot. -/
private theorem fits_depthTree (n : Nat) (t : Text) : (depthTree n ⟨.str t, []⟩).Fits (n + 1) := by
  induction n with
  | zero => exact Json.fits_obj.mpr (List.forall_mem_singleton.mpr (Json.fits_str 0 t))
  | succ n ih => exact Json.fits_obj.mpr (List.forall_mem_singleton.mpr ih)

private theorem opensType_depthBefore (n : Nat) : OpensType (depthBefore n) := by
  induction n with
  | zero => exact ⟨"\x7b", " ", rfl, by decide⟩
  | succ n ih =>
    obtain ⟨front, gap, hbefore, hgap⟩ := ih
    refine ⟨"\x7b\"schema\":" ++ front, gap, ?_, hgap⟩
    rw [depthBefore, hbefore, List.append_assoc]

/-- Behind the innermost field comes a line with its brace, however many braces follow. -/
theorem exists_depthAfter (n : Nat) :
    ∃ u, depthAfter n = .lineFeed :: u ∧ (Text.lines u).headD [] = "\x7d" := by
  -- every level is closed on lines of its own, so that the next line stays the first
  induction n with
  | zero => exact ⟨"\x7d", rfl, rfl⟩
  | succ n ih =>
    obtain ⟨u, hafter, hhead⟩ := ih
    refine ⟨u ++ "\n\x7d", by rw [depthAfter, hafter, List.cons_append], ?_⟩
    obtain ⟨first, rest, hlines⟩ := Text.exists_first_line u
    have happend : Text.lines (u ++ "\n\x7d") = Text.lines u ++ Text.lines "\x7d" :=
      Text.lines_append_cons u "\x7d"
    rw [hlines] at happend hhead
    rw [happend]
    exact hhead

private theorem laidOut_depthAfter (n : Nat) : LaidOut (depthAfter n) := by
  obtain ⟨u, hafter, hhead⟩ := exists_depthAfter n
  refine ⟨[], [], u, hafter, Json.isBlank_nil, Json.isBlank_nil, List.not_mem_nil, .inr ?_⟩
  show isClosing ((Text.lines u).headD []) = true
  rw [hhead]
  rfl

private theorem merge_depthTree (n : Nat) (x : Json.Filling) :
    ∃ es, (depthTree n x).merge = .obj es := by
  cases n with
  | zero => exact ⟨_, Json.merge_obj _⟩
  | succ n => exact ⟨_, Json.merge_obj _⟩

/-- On the last level a string can be the value of the data type, but an object cannot. -/
theorem parse_deepest {n : Nat} (hn : n + 1 = Json.maxDepth) :
    (∃ es, Json.parse (depthBefore n ++ ("\"x\"" ++ depthAfter n)) = .ok (.obj es)) ∧
      ¬ Parses (depthBefore n ++ ("\x7b\x7d" ++ depthAfter n)) := by
  have helement : Slot (.element (depthTree n)) (n + 1) (depthBefore n) (depthAfter n) := by
    have hslot := Slot.inElement Json.isBlank_nil (slot_depth n) Json.isBlank_nil
    rwa [List.nil_append, List.append_nil] at hslot
  have hreadable : (depthTree n ⟨.str "x", []⟩).Readable := by
    rw [Json.Readable, ← hn]
    exact fits_depthTree n "x"
  constructor
  · have hstring : Derives (.value (.str "x")) "\"x\"" := .string (Json.spells_printed "x")
    have htree := helement.derives hstring Json.isBlank_nil .nil
    obtain ⟨es, hes⟩ := merge_depthTree n ⟨.str "x", []⟩
    exact ⟨es, Json.parse_eq_ok_iff.mpr ⟨_, htree, hreadable, hes.symm⟩⟩
  · -- the braces need a level of their own, and all are used up
    intro hparses
    have hfits := (helement.parses_iff hreadable (.emptyObject Json.isBlank_nil) Json.isBlank_nil
      .nil).mp hparses
    rw [hn, Nat.sub_self] at hfits
    exact Json.not_fits_zero_obj [] hfits.1

/-- There an insertion for a dropdown can be planned, but the text with it is not parsed. -/
theorem dropdown_too_deep {n : Nat} (hn : n + 1 = Json.maxDepth) :
    ∃ i, plan (depthBefore n ++ depthAfter n) ((depthBefore n).count .lineFeed : Nat)
        (depthBefore n).lastLine.length .dropdown = .ok i ∧
      ¬ Parses (depthBefore n ++ (i.text ++ depthAfter n)) := by
  obtain ⟨⟨es, hes⟩, hbraces⟩ := parse_deepest hn
  obtain ⟨i, l, hplan, _, hl, htext⟩ := plan_at_cursor .dropdown (depthBefore n) (depthAfter n)
  refine ⟨i, hplan, fun hparses => ?_⟩
  -- the comma is right, so that only the depth can be wrong
  have hsample : Parses (depthBefore n ++ ("\"x\"" ++ (comma false ++ depthAfter n))) := ⟨_, hes⟩
  have hopens := opensType_depthBefore n
  rw [htext, List.append_assoc] at hparses
  rw [eq_of_parses_fragment hopens hsample .dropdown hl hparses] at hparses
  rcases (parses_fragment_iff hopens hsample .dropdown hl).mp hparses with hkind | hroom
  · cases hkind
  · exact hbraces hroom

/-- The lines behind the cursor do not tell what follows on its own line.  And on the last level of
a laid out text there is no room for the choices of a dropdown. -/
theorem comma_misjudged :
    (OpensType lineBefore ∧
      (∃ es, Json.parse (lineBefore ++ ("\"x\"" ++ ("," ++ lineAfter))) = .ok (.obj es)) ∧
      ∀ kind, ∃ i, plan (lineBefore ++ lineAfter) 0 14 kind = .ok i ∧
        ¬ Parses (lineBefore ++ (i.text ++ lineAfter))) ∧
    (OpensType (depthBefore 987) ∧ LaidOut (depthAfter 987) ∧
      (∃ es, Json.parse (depthBefore 987 ++ ("\"x\"" ++ depthAfter 987)) = .ok (.obj es)) ∧
      ∃ i, plan (depthBefore 987 ++ depthAfter 987) ((depthBefore 987).count .lineFeed : Nat)
          (depthBefore 987).lastLine.length .dropdown = .ok i ∧
        ¬ Parses (depthBefore 987 ++ (i.text ++ depthAfter 987))) := by
  have hopens : OpensType lineBefore := ⟨"\x7b", " ", rfl, by decide⟩
  have hline := Json.parse_print_canonicalStyle (.obj [typeEntry (.str "x"), ("key", .str "a")])
    none (by decide) (by decide) (by decide)
  refine ⟨⟨hopens, ⟨_, hline⟩, ?_⟩, opensType_depthBefore 987, laidOut_depthAfter 987,
    (parse_deepest rfl).1, dropdown_too_deep rfl⟩
  intro kind
  obtain ⟨i, l, hplan, _, hl, htext⟩ := plan_at_cursor kind lineBefore lineAfter
  refine ⟨i, hplan, fun hparses => ?_⟩
  -- there are no lines behind the cursor, so there is no comma
  have hcomma : tokenBeforeClosing lineAfter.lines.tail = false := rfl
  have hsample : Parses (lineBefore ++ ("\"x\"" ++ (comma true ++ lineAfter))) := ⟨_, hline⟩
  rw [htext, hcomma, List.append_assoc] at hparses
  cases eq_of_parses_fragment hopens hsample kind hl hparses

end FormSchema.Insertion
