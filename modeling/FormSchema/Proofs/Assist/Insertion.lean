import FormSchema.Proofs.Assist.Completed
import FormSchema.Proofs.Json.Limits

/-!
# Insertion into a laid out document

A field of a canonical text whose line ends behind its `"data_type": ` is completed by an insertion
at the end of that line: what comes out is a text of the document in which that field has its data
type and, right behind it, the entries of the sample, and in which nothing else is changed.
-/

namespace FormSchema

/-! ## Section 1: What is opened and what is completed -/

/-- A line up to the end of the first occurrence of a token in it. -/
def Text.upTo (token line : Text) : Text :=
  match Text.find? token line with
  | none => line
  | some i => line.take (i + token.length)

namespace Insertion

/-- The style of a canonical text that is laid out on lines. -/
abbrev laidOut (indent : Nat) : Json.Style := Json.canonicalStyle (some indent)

/-- What stands in front of the value of a data type on its line, but for the indentation. -/
def typeToken : Text := "\"data_type\": "

/-- The line, in the canonical text, of the data type of the field behind a route. -/
def typeLine (indent : Nat) (route : Json.Route) (document : Json) : Nat :=
  (Json.textBefore (laidOut indent) 0 (route ++ [.entry "data_type"])
    document.sortNames).count .lineFeed

/-- The canonical text of a document, opened for an insertion: on the line of a data type, the value
and all that follows it is deleted. -/
def opened (indent : Nat) (route : Json.Route) (document : Json) : Text :=
  Text.unlines ((document.canonical (some indent)).lines.modify (typeLine indent route document)
    (Text.upTo typeToken))

/-- The place of the cursor in an opened text: the end of the line of the data type. -/
def typeColumn (indent : Nat) (route : Json.Route) (document : Json) : Nat :=
  ((opened indent route document).lines.getD (typeLine indent route document) []).length

/-! ## Section 2: One line of a text -/

private theorem findFrom_spaces {token : Text} (h : ∃ c t, token = c :: t ∧ c ≠ .scalar ' ')
    (n i : Nat)
    (rest : Text) :
    Text.findFrom token i (List.replicate n (.scalar ' ') ++ (token ++ rest)) = some (i + n) := by
  obtain ⟨c, t, rfl, hc⟩ := h
  -- the token is at the front behind the spaces, and no space begins it
  induction n generalizing i with
  | zero =>
    rw [List.replicate_zero, List.nil_append, List.cons_append, Text.findFrom, if_pos]
    · rfl
    · exact List.isPrefixOf_iff_prefix.mpr (List.prefix_append (c :: t) rest)
  | succ n ih =>
    have hprefix : ¬ (c :: t).isPrefixOf
        (.scalar ' ' :: (List.replicate n (.scalar ' ') ++ (c :: t ++ rest))) = true := by
      rw [List.isPrefixOf_cons_cons, Bool.and_eq_true, beq_iff_eq]
      intro hand
      exact hc hand.1
    rw [List.replicate_succ, List.cons_append, Text.findFrom, if_neg hprefix, ih (i + 1),
      Nat.add_assoc, Nat.add_comm 1 n]

private theorem lineFeed_not_mem_indented (n : Nat) :
    CodePoint.lineFeed ∉ List.replicate n (CodePoint.scalar ' ') ++ typeToken := by
  rw [List.mem_append, not_or]
  exact ⟨lineFeed_not_mem_spaces n, by decide⟩

private theorem upTo_indented (n : Nat) (rest : Text) :
    Text.upTo typeToken (List.replicate n (.scalar ' ') ++ (typeToken ++ rest)) =
      List.replicate n (.scalar ' ') ++ typeToken := by
  have htoken : ∃ c t, typeToken = c :: t ∧ c ≠ .scalar ' ' := ⟨.scalar '"', _, rfl, by decide⟩
  rw [Text.upTo, Text.find?, findFrom_spaces htoken n 0 rest]
  show List.take (0 + n + typeToken.length) _ = _
  rw [← List.append_assoc]
  apply List.take_left'
  rw [List.length_append, List.length_replicate, Nat.zero_add]

/-- The margin of the line of a data type is what stands in front of the token. -/
private theorem indentation_indented (n : Nat) :
    indentation (List.replicate n (.scalar ' ') ++ typeToken) = List.replicate n (.scalar ' ') := by
  have hspaces : ∀ c ∈ List.replicate n (CodePoint.scalar ' '),
      (c = .scalar ' ' || c = .scalar '\t') = true := by
    intro c hc
    rw [List.eq_of_mem_replicate hc]
    rfl
  rw [indentation, List.takeWhile_append_of_pos hspaces, Text.takeWhile_eq_nil (by decide),
    List.append_nil]

/-- The lines behind a line of the text are those of greater numbers. -/
theorem linesAfter_natCast (lines : List Text) (line : Nat) :
    linesAfter lines line = lines.drop (line + 1) := by
  have hstart : ¬ (line : Int) + 1 < 0 := by omega
  simp only [linesAfter, if_neg hstart]
  rfl

/-- A cursor in a text gives the insertion whose text is made for the line and for what follows. -/
theorem plan_eq_ok {text inserted : Text} {line character : Nat} {kind : InsertionKind}
    (hline : line < text.lines.length) (hcharacter : character ≤ (text.lines.getD line []).length)
    (hbuild : build kind.dataType (indentation (text.lines.getD line []))
      (tokenBeforeClosing (text.lines.drop (line + 1))) = .ok inserted) :
    plan text line character kind = .ok ⟨inserted, line, character⟩ := by
  -- the two tests on the cursor are passed
  have hinside : ¬ ((line : Int) < 0 || (text.lines.length : Int) ≤ line) = true := by
    simp only [Bool.or_eq_true, decide_eq_true_iff]
    omega
  have hcolumn : ¬ ((character : Int) < 0 ||
      ((text.lines.getD line []).length : Int) < character) = true := by
    simp only [Bool.or_eq_true, decide_eq_true_iff]
    omega
  have hafter : hasMoreProperties text.lines line =
      tokenBeforeClosing (text.lines.drop (line + 1)) := by
    rw [hasMoreProperties, linesAfter_natCast]
  rw [plan]
  simp only [if_neg hinside, Int.toNat_natCast, if_neg hcolumn, hafter, hbuild]

section OneLine

variable (before : Text) {after : Text} {n : Nat}

/-- The text around an opened line. -/
def aroundOpened (before : Text) (n : Nat) (after : Text) : Text :=
  before ++ .lineFeed :: ((List.replicate n (.scalar ' ') ++ typeToken) ++ .lineFeed :: after)

private theorem unlines_modify_upTo {rest : Text} (hrest : CodePoint.lineFeed ∉ rest) :
    Text.unlines ((Text.lines (before ++ .lineFeed ::
      ((List.replicate n (.scalar ' ') ++ (typeToken ++ rest)) ++ .lineFeed :: after))).modify
        (before.count .lineFeed + 1) (Text.upTo typeToken)) = aroundOpened before n after := by
  have hline :
      CodePoint.lineFeed ∉ List.replicate n (CodePoint.scalar ' ') ++ (typeToken ++ rest) := by
    rw [List.mem_append, List.mem_append, not_or, not_or]
    exact ⟨lineFeed_not_mem_spaces n, by decide, hrest⟩
  rw [Text.unlines_modify_lines hline, upTo_indented, aroundOpened]

/-- At the end of the opened line the insertion is made, with the look-ahead on the lines below. -/
private theorem plan_aroundOpened {kind : InsertionKind} {inserted : Text}
    (hbuild : build kind.dataType (List.replicate n (.scalar ' '))
      (tokenBeforeClosing (Text.lines after)) = .ok inserted) :
    ∃ i, plan (aroundOpened before n after) (before.count .lineFeed + 1 : Nat)
        ((aroundOpened before n after).lines.getD (before.count .lineFeed + 1) []).length kind =
          .ok i ∧
      i.applyTo (aroundOpened before n after) =
        before ++ .lineFeed ::
          ((List.replicate n (.scalar ' ') ++ typeToken ++ inserted) ++ .lineFeed :: after) := by
  have hline := lineFeed_not_mem_indented n
  have hcurrent : (Text.lines (before ++ .lineFeed ::
      -- the cursor is on the opened line, and the lines behind that are those of `after`
      ((List.replicate n (.scalar ' ') ++ typeToken) ++ .lineFeed :: after))).getD
        (before.count .lineFeed + 1) [] = List.replicate n (.scalar ' ') ++ typeToken :=
    Text.getD_lines_around hline
  have hcount : before.count .lineFeed + 1 < (aroundOpened before n after).lines.length := by
    rw [aroundOpened, Text.lines_around hline, List.length_append, Text.length_lines]
    simp
  have hfragment : build kind.dataType
      (indentation ((aroundOpened before n after).lines.getD (before.count .lineFeed + 1) []))
      (tokenBeforeClosing ((aroundOpened before n after).lines.drop
        (before.count .lineFeed + 1 + 1))) = .ok inserted := by
    rw [aroundOpened, hcurrent, indentation_indented, Text.drop_lines_around hline]
    exact hbuild
  refine ⟨_, plan_eq_ok hcount (Nat.le_refl _) hfragment, ?_⟩
  rw [applyTo, aroundOpened, hcurrent, Text.unlines_modify_lines hline, Text.spliceAt_length]

end OneLine

/-! ## Section 3: The surroundings of a data type -/

section Surroundings

open Json (entryText printEntry)

variable (indent depth : Nat)

/-- The spaces in front of the parts of a value at a depth. -/
def margin (indent depth : Nat) : Text := List.replicate (indent * depth) (.scalar ' ')

private theorem isBlank_margin : Json.IsBlank (margin indent depth) := by
  intro c hc
  rw [List.eq_of_mem_replicate hc]
  rfl

private theorem newline_laidOut :
    (laidOut indent).newline depth = .lineFeed :: margin indent depth := rfl

private theorem separator_laidOut :
    (laidOut indent).separator depth = .scalar ',' :: .lineFeed :: margin indent depth :=
  rfl

/-- In front of a part stands the margin, on a line of its own. -/
theorem exists_margin (start : Text) (texts : List Text) :
    ∃ before, start ++ (laidOut indent).newline depth ++
        texts.flatMap (· ++ (laidOut indent).separator depth) =
      before ++ .lineFeed :: margin indent depth := by
  -- the last separator has the margin, or the start if there is no separator; the start stays
  -- general
  induction texts generalizing start with
  | nil => exact ⟨start, List.append_nil _⟩
  | cons t texts ih =>
    obtain ⟨before, hbefore⟩ := ih (start ++ .lineFeed :: margin indent depth ++ t ++ [.scalar ','])
    refine ⟨before, hbefore ▸ ?_⟩
    rw [List.flatMap_cons, separator_laidOut, newline_laidOut]
    simp only [List.append_assoc, List.cons_append, List.nil_append]

/-- A text that begins with a quoted token. -/
def BeginsQuoted (t : Text) : Prop := ∃ s tail, CodePoint.lineFeed ∉ s ∧ t = Text.inQuotes s ++ tail

private theorem beginsQuoted_entryText (style : Json.Style) (hascii : style.ascii = false)
    (e : Text × Json) : BeginsQuoted (entryText style depth e) := by
  have hquoted : entryText style depth e =
      Text.inQuotes (e.1.flatMap (Json.escapeInString false)) ++
        (.scalar ':' :: style.gap ++ Json.printAt style depth e.2) := by
    rw [entryText, printEntry, hascii, Json.printString_eq, List.append_assoc]
  exact ⟨_, _, Json.lineFeed_not_mem_escaped _ e.1, hquoted⟩

/-- What follows the line of a part: behind a comma the next part, and otherwise the closing brace;
the lines from there on tell which of the two it is. -/
theorem exists_following {texts : List Text} (htexts : ∀ t ∈ texts, BeginsQuoted t) {after : Text}
    (h : Json.LeavesLine after) :
    ∃ (more : Bool) (rest : Text),
      (laidOut indent).behind depth '\x7d' texts ++ (after ++ [.lineFeed]) =
        (if more then [.scalar ','] else []) ++ .lineFeed :: rest ∧
      tokenBeforeClosing (Text.lines rest) = more := by
  -- without a part behind it the brace comes next, alone on its line but for a comma
  cases texts with
  | nil =>
    refine ⟨false, margin indent depth ++ .scalar '\x7d' :: (after ++ [.lineFeed]), ?_,
      tokenBeforeClosing_brace _ h⟩
    rw [Json.Style.behind, List.flatMap_nil, newline_laidOut]
    simp only [List.nil_append, List.append_assoc, List.cons_append, Bool.false_eq_true, if_false]
  | cons t texts =>
    obtain ⟨s, tail, hs, rfl⟩ := htexts t List.mem_cons_self
    have hquoted := tokenBeforeClosing_quoted (lineFeed_not_mem_spaces (indent * (depth + 1))) hs
      (tail ++ ((laidOut indent).behind depth '\x7d' texts ++ (after ++ [.lineFeed])))
    refine ⟨true, _, ?_, hquoted⟩
    rw [← List.singleton_append, Json.Style.behind_append, separator_laidOut,
      List.flatMap_singleton]
    simp only [List.append_assoc, List.cons_append, if_true, List.nil_append]
    rfl

end Surroundings

open Json (entryText printEntry Derives)

/-! ## Section 4: The completed document -/

private theorem printEntry_data_type (indent : Nat) (t : Text) :
    printEntry (laidOut indent) "data_type" t = typeToken ++ t := rfl

/-- A comma, if more follows. -/
def comma (more : Bool) : Text := if more then [.scalar ','] else []

/-- The text of a document with `t` behind the `"data_type": ` of a line. -/
def aroundType (indent depth : Nat) (before t rest : Text) (more : Bool) : Text :=
  before ++ .lineFeed ::
    ((margin indent (depth + 1) ++ (typeToken ++ (t ++ comma more))) ++ .lineFeed :: rest)

/-- The data type is on the line that begins with the margin in front of it. -/
theorem typeLine_eq {indent : Nat} {document : Json} {route : Json.Route} {es : Entries Json}
    {type before : Text} (hat : document.sortNames.at? route = some (.obj es))
    (hget : Entries.get? "data_type" es = some (.str type))
    (hbefore : Json.textBefore (laidOut indent) 0 route document.sortNames ++ [.scalar '\x7b'] ++
      (laidOut indent).newline (route.length + 1) ++
        ((es.takeWhile fun e => e.1 ≠ Text.ofString "data_type").map
          (entryText (laidOut indent) (route.length + 1))).flatMap
            (· ++ (laidOut indent).separator (route.length + 1)) =
      before ++ .lineFeed :: margin indent (route.length + 1)) :
    typeLine indent route document = before.count .lineFeed + 1 := by
  have hnil : Json.textBefore (laidOut indent) (route.length + 1) [] (.str type) = [] := rfl
  have hfront : Json.textBefore (laidOut indent) 0 (route ++ [.entry "data_type"])
      document.sortNames =
        before ++ .lineFeed :: (margin indent (route.length + 1) ++ typeToken) := by
    have htoken := congrArg (· ++ typeToken) hbefore
    rw [Json.textBefore_append hat, Json.textBefore, hget, Option.getD_some, Nat.zero_add,
      printEntry_data_type, hnil, List.append_nil]
    simpa only [List.flatMap_map, List.append_assoc, List.cons_append, List.nil_append] using htoken
  -- the line feed of the margin is the last one in front of the data type
  have hfree : CodePoint.lineFeed ∉ margin indent (route.length + 1) ++ typeToken :=
    lineFeed_not_mem_indented _
  rw [typeLine, hfront, List.count_append, List.count_cons_self,
    List.count_eq_zero_of_not_mem hfree]

/-- The text around a value whose last part is a data type with more entries behind it. -/
theorem text_aroundType {indent depth : Nat} {start before after rest : Text}
    {ahead behind : List Text} {more : Bool}
    (hbefore : start ++ [.scalar '\x7b'] ++ (laidOut indent).newline (depth + 1) ++
      ahead.flatMap (· ++ (laidOut indent).separator (depth + 1)) =
        before ++ .lineFeed :: margin indent (depth + 1))
    (hrest : (laidOut indent).behind depth '\x7d' behind ++ (after ++ [.lineFeed]) =
      comma more ++ .lineFeed :: rest) (t : Text) (texts : List Text) :
    start ++ ((laidOut indent).enclose depth '\x7b' '\x7d'
        (ahead ++ printEntry (laidOut indent) "data_type" t :: (texts ++ behind)) ++
          after) ++ [.lineFeed] =
      aroundType indent depth before
        (t ++ texts.flatMap ((laidOut indent).separator (depth + 1) ++ ·)) rest more := by
  -- what is ahead ends with the margin of the cursor, and what is behind begins with its comma
  calc _ = start ++ [.scalar '\x7b'] ++ (laidOut indent).newline (depth + 1) ++
        ahead.flatMap (· ++ (laidOut indent).separator (depth + 1)) ++
        (typeToken ++ t ++ texts.flatMap ((laidOut indent).separator (depth + 1) ++ ·) ++
          ((laidOut indent).behind depth '\x7d' behind ++ (after ++ [.lineFeed]))) := by
        rw [Json.enclose_append_cons, Json.Style.behind_append, printEntry_data_type]
        simp only [List.append_assoc, List.cons_append, List.nil_append]
    _ = aroundType indent depth before
        (t ++ texts.flatMap ((laidOut indent).separator (depth + 1) ++ ·)) rest more := by
        rw [hbefore, hrest, aroundType]
        simp only [List.append_assoc, List.cons_append]

/-- The canonical text of a document, seen from the line of the data type of a field: which line it
is, what follows it, and which texts may stand on it instead. -/
structure Opening (indent depth : Nat) (document : Json) (route : Json.Route)
    (ahead behind : Entries Json) (type before rest : Text) (more : Bool) : Prop where
  line : typeLine indent route document = before.count .lineFeed + 1
  follows : tokenBeforeClosing (Text.lines rest) = more
  text : document.canonical (some indent) =
    aroundType indent depth before (Json.printString false type) rest more
  derives : ∀ {v : Json} {t : Text} {extra : Entries Json} {texts : List Text} (f : Json → Json),
    Derives (.value v) t →
    List.Forall₂ (fun e t => Derives (.member e) t) extra texts →
    f (.obj (ahead ++ typeEntry (.str type) :: behind)) =
      .obj (ahead ++ typeEntry v :: (extra ++ behind)) →
    Derives (.element (document.sortNames.modifyAt f route))
      (aroundType indent depth before
        (t ++ texts.flatMap ((laidOut indent).separator (depth + 1) ++ ·)) rest more)

/-- Around the data type of a field in a laid out text there is its own line, with the lines of
other entries before and behind. -/
private theorem exists_opening (indent : Nat) {document : Json} {route : Json.Route}
    {es ahead behind : Entries Json} {type : Text}
    (hnames : document.sortNames.Every Json.HasDistinctNames)
    (hexact : document.sortNames.Every Json.IsExact)
    (hat : document.sortNames.at? route = some (.obj es))
    (hget : Entries.get? "data_type" es = some (.str type))
    (hahead : ahead = es.takeWhile fun e => e.1 ≠ Text.ofString "data_type")
    (hes : es = ahead ++ typeEntry (.str type) :: behind) :
    ∃ before rest more,
      Opening indent route.length document route ahead behind type before rest more := by
  obtain ⟨after, hafter⟩ : ∃ after,
      Json.Surrounds (laidOut indent) 0 route document.sortNames (.obj es) after :=
    Json.exists_surrounds rfl rfl (Json.isBlank_canonical_gap _) hnames hexact hat 0
  have hfield := (Json.every_obj.mp (hexact.at? hat)).2
  rw [hes, List.forall_mem_append, List.forall_mem_cons] at hfield
  have hquoted : ∀ t ∈ behind.map (entryText (laidOut indent) (route.length + 1)),
      BeginsQuoted t := List.forall_mem_map.mpr fun e _ => beginsQuoted_entryText _ _ rfl e
  -- the margin in front of the data type, and the line behind it
  obtain ⟨before, hbefore⟩ := exists_margin indent (route.length + 1)
    (Json.textBefore (laidOut indent) 0 route document.sortNames ++ [.scalar '\x7b'])
    (ahead.map (entryText (laidOut indent) (route.length + 1)))
  obtain ⟨more, rest, hrest, hfollows⟩ :=
    exists_following indent route.length hquoted hafter.leaves
  have htext (t : Text) (texts : List Text) := text_aroundType hbefore hrest t texts
  refine ⟨before, rest, more, ?_, hfollows, ?_, ?_⟩
  · exact typeLine_eq hat hget (hahead ▸ hbefore)
  · have htype := htext (Json.printString false type) []
    rw [List.flatMap_nil, List.append_nil] at htype
    rw [← htype, Json.canonical, Json.print]
    refine congrArg (· ++ [CodePoint.lineFeed]) (hafter.print.trans ?_)
    rw [Nat.zero_add, Json.printAt, Json.printEntries_eq_map, hes, List.map_append, List.map_cons]
    rfl
  · intro v t extra texts f ht htexts hf
    -- the field is derived from the texts of its entries, and the document from that of the field
    rw [← htext]
    refine .element Json.isBlank_nil (hafter.derives f ?_) Json.isBlank_lineFeed
    have hahead' := Json.derives_entryTexts (Json.isBlank_canonical_gap (some indent)) rfl hfield.1
      (route.length + 1)
    have hbehind := Json.derives_entryTexts (Json.isBlank_canonical_gap (some indent)) rfl
      hfield.2.2 (route.length + 1)
    have hmember := Json.derives_printEntry (Json.isBlank_canonical_gap (some indent)) rfl
      "data_type" ht
    rw [hes, hf]
    exact Json.derives_enclose_object (Json.isBlank_canonical_gap _) route.length
      (List.rel_append hahead' (.cons hmember (List.rel_append htexts hbehind)))

/-- The identifier of a data type needs no escapes. -/
theorem printString_identifier (kind : InsertionKind) :
    Json.printString false kind.dataType.identifier = kind.dataType.identifier.inQuotes := by
  cases kind <;> rfl

/-- In an opened text an insertion can be made, and it gives a text of the completed document. -/
theorem plan_opened (kind : InsertionKind) (indent : Nat) {document : Json} {route : Json.Route}
    {fields : Entries Json} {type : Text} (hnames : document.Every Json.HasDistinctNames)
    (hexact : document.Every Json.IsExact) (hfield : document.at? route = some (.obj fields))
    (htype : Entries.get? "data_type" fields = some (.str type)) :
    ∃ i, plan (opened indent route document) (typeLine indent route document)
        (typeColumn indent route document) kind = .ok i ∧
      Derives (.element (kind.completed route document))
        (i.applyTo (opened indent route document)) := by
  have hdistinct := (Json.every_sortNames Json.hasDistinctNames_sortNames).mpr hnames
  have hsorted := (Json.every_sortNames Json.isExact_sortNames).mpr hexact
  obtain ⟨es, hat, hd, hget, _⟩ := InsertionKind.exists_sorted_field hnames hfield htype
  obtain ⟨behind, hes, hbehind⟩ := Entries.exists_around hd hget
  obtain ⟨before, rest, more, hopening⟩ := exists_opening indent hdistinct hsorted hat hget rfl hes
  have hstart : Json.IsBlank (.lineFeed :: margin indent (route.length + 1)) :=
    Json.isBlank_lineFeed.append (isBlank_margin indent (route.length + 1))
  have htexts := derives_sampleTexts kind hstart
  have hbuild := build_eq kind (margin indent (route.length + 1))
  generalize sampleTexts kind (.lineFeed :: margin indent (route.length + 1)) = texts
    at htexts hbuild
  -- deleting what follows the token leaves the line as the cursor has it
  have hopened : opened indent route document =
      aroundOpened before (indent * (route.length + 1)) rest := by
    rw [opened, hopening.text, hopening.line, aroundType]
    apply unlines_modify_upTo before
    rw [List.mem_append, not_or]
    exact ⟨Json.lineFeed_not_mem_printString _ type, by cases more <;> decide⟩
  -- the lines behind the cursor tell whether entries follow
  have hfragment := hbuild more
  rw [← hopening.follows] at hfragment
  obtain ⟨i, hplan, happly⟩ := plan_aroundOpened before hfragment
  have hcompleted := hopening.derives kind.complete (.string (Json.spells_printed _)) htexts
    (congrArg Json.obj
      (kind.completeEntries_around (fun e he => Entries.ne_of_mem_takeWhile he) hbehind))
  rw [typeColumn, hopened, hopening.line]
  refine ⟨i, hplan, ?_⟩
  -- the same text, as it is written by the insertion
  have htext : aroundType indent route.length before
        (Json.printString false kind.dataType.identifier ++
          texts.flatMap ((laidOut indent).separator (route.length + 1) ++ ·)) rest more =
      before ++ .lineFeed :: ((margin indent (route.length + 1) ++ typeToken ++
        (kind.dataType.identifier.inQuotes ++
          (texts.flatMap ((.scalar ',' :: .lineFeed :: margin indent (route.length + 1)) ++ ·) ++
            comma more))) ++ .lineFeed :: rest) := by
    rw [aroundType, printString_identifier, separator_laidOut]
    simp only [List.append_assoc]
  rw [happly, hopening.follows]
  exact htext ▸ hcompleted

/-! ## Section 5: Completion by an insertion -/

/-- In an opened text an insertion can always be made, also if the text is laid out for a document
that could not be written.  The text with the insertion is parsed as the document with the field
completed, exactly if the document is within the limits of the reader and the sample of a dropdown,
which opens a bracket below the field, does not exceed the depth. -/
theorem plan_completes_layout (kind : InsertionKind) (indent : Nat) {document : Json}
    {route : Json.Route} {fields : Entries Json} {type : Text}
    (hnames : document.Every Json.HasDistinctNames) (hexact : document.Every Json.IsExact)
    (hfield : document.at? route = some (.obj fields))
    (htype : Entries.get? "data_type" fields = some (.str type))
    (hnew : ∀ e ∈ kind.sampleEntries, e.1 ∉ fields.names) :
    ∃ i, plan (opened indent route document) (typeLine indent route document)
        (typeColumn indent route document) kind = .ok i ∧
      (Json.parse (i.applyTo (opened indent route document)) =
          .ok (kind.completed route document) ↔
        document.Readable ∧ (kind = .htmlEditor ∨ route.length + 1 < Json.maxDepth)) := by
  obtain ⟨i, hplan, hderives⟩ := plan_opened kind indent hnames hexact hfield htype
  have hdistinct := kind.every_completed hnames hfield htype hnew
  refine ⟨i, hplan, ?_⟩
  rw [Json.parse_of_derives_iff hderives hdistinct]
  exact kind.fits_completed_iff hnames hfield htype hnew

/-- A field in a document that can be written leaves room for any sample. -/
theorem room_of_fits {document : Json} {route : Json.Route} {fields : Entries Json}
    (hfits : document.Fits Json.conversionDepth)
    (hfield : document.at? route = some (.obj fields)) : route.length + 1 < Json.maxDepth := by
  obtain ⟨m, hm, hroom⟩ := hfits.at? hfield
  obtain ⟨n, rfl⟩ := hroom.pos_of_obj
  have hdepth : Json.conversionDepth < Json.maxDepth := by decide
  omega

/-- A document of two fields, the second of which is behind a route through an array. -/
def sampleDocument : Json :=
  .obj [("fields", .arr [.obj [typeEntry (.str "text")],
    .obj [typeEntry (.str "text"), ("key", .str "second")]])]

/-- A field inside others. -/
def nested : Nat → Json
  | 0 => .obj [typeEntry (.str "text")]
  | n + 1 => .obj [("schema", nested n)]

/-- The route to the innermost field. -/
def inward (n : Nat) : Json.Route := List.replicate n (.entry "schema")

/-- What holds of an object with one entry and of the innermost string holds of every part. -/
private theorem every_nested {p : Json → Prop} (hobj : ∀ e : Text × Json, p (.obj [e]))
    (hstr : p (.str "text")) (n : Nat) : (nested n).Every p := by
  induction n with
  | zero =>
    refine Json.every_obj.mpr ⟨hobj _, List.forall_mem_singleton.mpr ?_⟩
    exact Json.every_of_parts_eq rfl hstr
  | succ n ih => exact Json.every_obj.mpr ⟨hobj _, List.forall_mem_singleton.mpr ih⟩

private theorem depth_nested (n : Nat) : (nested n).depth = n + 1 := by
  induction n with
  | zero => rfl
  | succ n ih =>
    show max (nested n).depth 0 + 1 = n + 1 + 1
    rw [ih, Nat.max_zero]

/-- The route inward leads to the innermost field. -/
theorem at?_nested (n : Nat) :
    (nested n).at? (inward n) = some (.obj [typeEntry (.str "text")]) := by
  induction n with
  | zero => rfl
  | succ n ih => exact ih

/-- A field with an integer of one digit more than is read. -/
def longNumber : Json :=
  .obj [typeEntry (.str "text"), ("max", .int (10 ^ Json.maxIntegerDigits : Nat))]

private theorem not_fitsDigits_longNumber : ¬ longNumber.Every Json.FitsDigits := by
  intro h
  have hentries := (Json.every_obj.mp h).2
  rw [List.forall_mem_cons, List.forall_mem_singleton] at hentries
  exact Nat.lt_irrefl _ hentries.2.self

end Insertion

end FormSchema
