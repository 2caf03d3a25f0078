import FormSchema.Proofs.Assist.Insertion
import FormSchema.Proofs.Json.Margins
import FormSchema.Proofs.Json.Slot
import FormSchema.Proofs.Json.Spelling
import FormSchema.Proofs.Json.Unambiguous

/-!
# Shaping a sample

A sample is printed, its braces are cut off, and its lines are moved to the margin of the cursor.
Nothing of the sample is lost by that, whatever it holds: the field that is completed is parsed as
its data type followed by the entries of the sample, and by any members that come behind them.
-/

namespace FormSchema

/-! ## Section 1: Members between braces -/

namespace Json

private theorem readable_obj {es : Entries Json} :
    (obj es).Readable ↔ ∀ e ∈ es, e.2.Fits (maxDepth - 1) :=
  @fits_obj (maxDepth - 1) es

/-- Members between braces are parsed as the entries that they describe. -/
theorem parse_members {ms : List (Text × Json)} {t : Text} (h : Derives (.members ms) t)
    (hreadable : (obj ms).Readable) :
    parse (.scalar '\x7b' :: (t ++ [.scalar '\x7d'])) =
      .ok (.obj (Entries.ofMembers (ms.map fun m => (m.1, m.2.merge)))) := by
  have helement := Derives.element isBlank_nil (.object h) isBlank_nil
  rw [List.nil_append, List.append_nil] at helement
  exact parse_eq_ok_iff.mpr ⟨_, helement, hreadable, (merge_obj ms).symm⟩

/-- White space is not what a text begins with if it begins with another code point. -/
theorem IsBlank.eq_nil_of_append_eq_cons {l s t : Text} {c : CodePoint} (hl : IsBlank l)
    (hc : ¬ isSpace c) (h : l ++ s = c :: t) : l = [] := by
  cases l with
  | nil => rfl
  | cons d l =>
    obtain rfl := (List.cons.inj h).1
    exact absurd (hl d List.mem_cons_self) hc

private theorem IsBlank.eq_nil_of_append_eq_concat {r s t : Text} {c : CodePoint} (hr : IsBlank r)
    (hc : ¬ isSpace c) (h : s ++ r = t ++ [c]) : r = [] := by
  rcases List.eq_nil_or_concat r with hnil | ⟨r', d, rfl⟩
  · exact hnil
  · rw [List.concat_eq_append] at hr h
    rw [← List.append_assoc] at h
    obtain rfl := List.singleton_inj.mp (List.append_inj' h rfl).2
    exact absurd (hr d (List.mem_append_right r' List.mem_cons_self)) hc

/-- What is parsed as an object with entries between braces consists of members. -/
theorem members_of_parse {t : Text} {es : Entries Json} (hne : es ≠ [])
    (h : parse (.scalar '\x7b' :: (t ++ [.scalar '\x7d'])) = .ok (.obj es)) :
    ∃ ms, Derives (.members ms) t ∧ (obj ms).Readable ∧
      es = Entries.ofMembers (ms.map fun m => (m.1, m.2.merge)) := by
  obtain ⟨v, hv, hreadable, hmerge⟩ := parse_eq_ok_iff.mp h
  generalize htext : CodePoint.scalar '\x7b' :: (t ++ [.scalar '\x7d']) = text at hv
  cases hv with
  | @element l s r _ hl hs hr =>
    -- neither brace is white space
    obtain rfl := hl.eq_nil_of_append_eq_cons (by decide) htext.symm
    rcases hs.of_brace htext with ⟨rfl, -⟩ | ⟨ms, x, rfl, hms, hx⟩
    · cases hmerge
      exact absurd rfl hne
    · have hclosed : (x ++ [.scalar '\x7d']) ++ r = t ++ [.scalar '\x7d'] := by
        rw [hx, List.append_assoc, List.singleton_append]
      obtain rfl := hr.eq_nil_of_append_eq_concat (by decide) hclosed
      rw [List.append_cancel_right hx]
      refine ⟨ms, hms, hreadable, ?_⟩
      rw [merge_obj] at hmerge
      exact Json.obj.inj hmerge

end Json

namespace Insertion

open Json (Derives IsBlank)

/-! ## Section 2: The lines of a sample -/

/-- How samples are printed. -/
def sampleStyle : Json.Style := ⟨some sampleIndent, true, " "⟩

private theorem indent_sampleStyle : sampleStyle.indent = some sampleIndent := rfl

private theorem isBlank_sampleStyle_gap : IsBlank sampleStyle.gap := Json.isBlank_canonical_gap none

/-- The lines of a sample that can be written are those of its text. -/
theorem sampleLines_eq {d : DataType} {v : Json} (hd : d.sample = some v)
    (hv : v.Fits Json.conversionDepth) (l : Text) :
    sampleLines d l =
      if (v.print sampleStyle).lines.length < 3 then .error (.emptySample d.identifier)
      else .ok ((v.print sampleStyle).lines.tail.dropLast.map fun line =>
        l ++ line.drop sampleIndent) := by
  have hwrite : v.writeFault? = none := Json.writeFault?_eq_none_iff.mpr hv
  rw [sampleLines, hd]
  simp only [hwrite]
  rfl

/-- The lines of a sample at another margin are those of its entries, each behind that margin. -/
theorem sampleLines_obj {d : DataType} {es : Entries Json} (hd : d.sample = some (.obj es))
    (hfits : (Json.obj es).Fits Json.conversionDepth) (hne : es ≠ []) (l : Text) :
    sampleLines d l = .ok ((Json.bodyText sampleStyle es).lines.map (l ++ ·)) := by
  have hlines := Json.lines_print_obj indent_sampleStyle (by decide) hne
  have hlong : ¬ ((Json.obj es).print sampleStyle).lines.length < 3 := by
    have hpos := List.length_pos_iff.mpr
      (Text.split_ne_nil .lineFeed (Json.bodyText sampleStyle es))
    rw [hlines, List.length_cons, List.length_append, List.length_map, List.length_singleton,
      Text.lines]
    omega
  -- what is cut off in front of a line are the spaces of one level
  have hcut : (fun line => l ++ List.drop sampleIndent line) ∘ (Json.spaces sampleIndent ++ ·) =
      (l ++ ·) := by
    funext line
    exact congrArg (l ++ ·) (List.drop_left' List.length_replicate)
  rw [sampleLines_eq hd hfits, if_neg hlong, hlines, List.tail_cons, List.dropLast_concat,
    List.map_map, hcut]

/-- What is inserted for a sample with entries. -/
def shaped (d : DataType) (es : Entries Json) (l : Text) : Text :=
  (d.identifier.inQuotes ++ ",") ++ .lineFeed :: (l ++ (Json.bodyText sampleStyle es).hang l)

private theorem build_obj {d : DataType} {es : Entries Json} (hd : d.sample = some (.obj es))
    (hfits : (Json.obj es).Fits Json.conversionDepth) (hne : es ≠ []) (l : Text) (hasMore : Bool) :
    build d l hasMore = .ok (shaped d es l ++ comma hasMore) := by
  rw [build, sampleLines_obj hd hfits hne, shaped, List.append_assoc d.identifier.inQuotes]
  simp only [Text.unlines_map_margin, List.append_assoc d.identifier.inQuotes]
  rfl

/-- A sample without entries has no lines to insert. -/
theorem build_of_one_line {d : DataType} {v : Json} (hd : d.sample = some v)
    (hv : v = .obj [] ∨ v.IsScalar) (hdigits : v.Every Json.FitsDigits) (l : Text)
    (hasMore : Bool) : build d l hasMore = .error (.emptySample d.identifier) := by
  have hdepth : v.depth ≤ Json.conversionDepth := by
    rcases hv with rfl | hscalar
    · decide
    · cases v with
      | arr _ | obj _ => exact hscalar.elim
      | _ => exact Nat.zero_le _
  -- fewer than three lines, and nothing is left without the first and the last one
  have hshort : (v.print sampleStyle).lines.length < 3 := by
    rcases hv with rfl | hscalar
    · rw [Json.lines_print_empty, List.length_singleton]
      decide
    · rw [Json.lines_print_of_isScalar hscalar, List.length_singleton]
      decide
  rw [build, sampleLines_eq hd ⟨hdepth, hdigits⟩, if_pos hshort]

/-- A sample that cannot be written stops an insertion with what the writer fails with. -/
theorem build_of_writeFault {d : DataType} {v : Json} (hd : d.sample = some v)
    {fault : Json.WriteFault} (hfault : v.writeFault? = some fault) (l : Text) (hasMore : Bool) :
    build d l hasMore = .error (.unwritable fault) := by
  rw [build, sampleLines, hd]
  simp only [hfault]

private theorem build_of_no_sample {d : DataType} (hd : d.sample = none) (l : Text)
    (hasMore : Bool) :
    build d l hasMore = .error (.noSample d.identifier) := by
  rw [build, sampleLines, hd]

/-! ## Section 3: The text of a field -/

/-- Spaces and tabs. -/
def IsIndentation (l : Text) : Prop := ∀ c ∈ l, c = .scalar ' ' ∨ c = .scalar '\t'

instance (l : Text) : Decidable (IsIndentation l) :=
  inferInstanceAs (Decidable (∀ c ∈ l, c = .scalar ' ' ∨ c = .scalar '\t'))

/-- Spaces and tabs are white space of the reader. -/
theorem IsIndentation.isBlank {l : Text} (h : IsIndentation l) : IsBlank l := by
  intro c hc
  rcases h c hc with rfl | rfl <;> rfl

private theorem IsIndentation.isOneLine {l : Text} (h : IsIndentation l) : l.IsOneLine := by
  intro hmem
  rcases h _ hmem with hc | hc
  · exact absurd hc (by decide)
  · exact absurd hc (by decide)

/-- What a sample has to be for its text to be read back: an object with entries and without
fractional numbers, within the limits of the conversion, whose strings have no surrogate pair in two
halves. -/
structure Rereadable (es : Entries Json) : Prop where
  ne_nil : es ≠ []
  exact : (Json.obj es).Every Json.IsExact
  distinct : (Json.obj es).Every Json.HasDistinctNames
  joined : (Json.obj es).Every Json.HasJoinedStrings
  fits : (Json.obj es).Fits Json.conversionDepth

private theorem Rereadable.readable {es : Entries Json} (h : Rereadable es) :
    (Json.obj es).Readable :=
  h.fits.mono Json.conversionDepth_le

/-- The entries of a field that has a data type and the entries of its sample. -/
def shapedField (d : DataType) (es : Entries Json) : Entries Json :=
  Entries.ofMembers (typeEntry (.str d.identifier) :: es)

/-- A field with an inserted text behind its `"data_type": `, and with what follows it there. -/
def fieldText (inserted following : Text) : Text :=
  .scalar '\x7b' :: (typeToken ++ (inserted ++ following) ++ [.scalar '\x7d'])

private theorem readable_shaped (d : DataType) {es more : Entries Json}
    (hes : (Json.obj es).Readable)
    (hmore : (Json.obj more).Readable) :
    (Json.obj (typeEntry (.str d.identifier) :: es ++ more)).Readable := by
  rw [Json.readable_obj] at hes hmore ⊢
  rw [List.cons_append, List.forall_mem_cons, List.forall_mem_append]
  exact ⟨Json.fits_str _ _, hes, hmore⟩

section Field

variable {d : DataType} (hid : d.identifier ∈ Catalog.dataTypeIds) {l : Text}
  (hl : IsIndentation l)
include hid

private theorem unescaped_identifier : Json.Unescaped d.identifier := by
  have hall : ∀ t ∈ Catalog.dataTypeIds, Json.Unescaped t := by decide
  exact hall _ hid

include hl

/-- Behind the first line of an inserted text, every line begins at the margin. -/
theorem prefix_of_mem_lines {es : Entries Json} {hasMore : Bool} {line : Text}
    (h : line ∈ (Text.lines (shaped d es l ++ comma hasMore)).tail) : l <+: line := by
  have hline : d.identifier.IsOneLine :=
    fun hmem => (unescaped_identifier hid _ hmem).2.2 (by decide)
  -- what stands on the first line has no line feed, so that all others begin with the margin
  have hfirst : Text.IsOneLine (d.identifier.inQuotes ++ ",") := by
    rw [Text.inQuotes, Text.isOneLine_append, Text.isOneLine_append, Text.isOneLine_cons]
    exact ⟨⟨⟨by decide, hline⟩, by decide⟩, by decide⟩
  have hcomma : (comma hasMore).IsOneLine := by cases hasMore <;> decide
  have htext : shaped d es l ++ comma hasMore = (d.identifier.inQuotes ++ ",") ++
      .lineFeed :: (l ++ (Json.bodyText sampleStyle es ++ comma hasMore).hang l) := by
    rw [shaped, Text.hang_append, Text.hang_of_isOneLine l hcomma]
    simp only [List.append_assoc, List.cons_append]
  rw [htext, Text.lines_append_cons, Text.lines, Text.split_of_not_mem hfirst,
    List.singleton_append, List.tail_cons, Text.lines_margin hl.isOneLine, List.mem_map] at h
  obtain ⟨line, -, rfl⟩ := h
  exact List.prefix_append l line

/-- The members of a field with an inserted text. -/
theorem derives_shaped {es : Entries Json} (hes : Rereadable es) :
    Derives (.members (typeEntry (.str d.identifier) :: es)) (typeToken ++ shaped d es l) := by
  have hspells : Json.Spells d.identifier d.identifier := by
    have hprinted := Json.spells_printed d.identifier
    rwa [Json.escaped_of_unescaped (unescaped_identifier hid)] at hprinted
  -- the type is a member, and the body of the sample are the other ones
  have htype := Json.derives_printEntry (Json.isBlank_canonical_gap none) rfl "data_type"
    (.string hspells)
  have hbody := Json.derives_bodyText indent_sampleStyle isBlank_sampleStyle_gap hes.ne_nil
    hes.exact fun _ => hes.joined
  have hmembers := Derives.moreMembers htype
    ((Json.derives_hang hbody hl.isBlank).blank_members Json.isBlank_lineFeed)
  have htext : typeToken ++ shaped d es l =
      Json.printEntry (Json.canonicalStyle none) "data_type" d.identifier.inQuotes ++
        .scalar ',' :: ([.lineFeed] ++ (l ++ (Json.bodyText sampleStyle es).hang l)) := by
    rw [shaped, List.append_assoc, ← List.append_assoc]
    rfl
  rwa [htext]

omit hid hl in
private theorem map_merge_field {es : Entries Json} (hes : Rereadable es) :
    (typeEntry (.str d.identifier) :: es).map (fun e => (e.1, e.2.merge)) =
      typeEntry (.str d.identifier) :: es := by
  rw [List.map_cons, Json.map_merge_of_distinct (Json.every_obj.mp hes.distinct).2]
  rfl

/-- A field with an inserted text is parsed as its data type and the entries of the sample. -/
theorem parse_shaped {es : Entries Json} (hes : Rereadable es) :
    Json.parse (fieldText (shaped d es l ++ comma false) []) = .ok (.obj (shapedField d es)) := by
  have hnothing : (Json.obj []).Readable := by decide
  have hreadable := readable_shaped d hes.readable hnothing
  rw [List.append_nil] at hreadable
  have hparse := Json.parse_members (derives_shaped hid hl hes) hreadable
  rw [map_merge_field hes] at hparse
  simpa [fieldText, comma, shapedField] using hparse

/-- Behind a comma, what follows adds its entries. -/
theorem parse_shaped_more {es more : Entries Json} {following : Text} (hes : Rereadable es)
    (hne : more ≠ [])
    (hfollowing : Json.parse (.scalar '\x7b' :: (following ++ [.scalar '\x7d'])) = .ok (.obj more))
    (hnew : ∀ name ∈ more.names, name ∉ (shapedField d es).names) :
    Json.parse (fieldText (shaped d es l ++ comma true) following) =
      .ok (.obj (shapedField d es ++ more)) := by
  obtain ⟨ms, hms, hreadable, rfl⟩ := Json.members_of_parse hne hfollowing
  have hmembers := (derives_shaped hid hl hes).members_append hms
  have hparse := Json.parse_members hmembers (readable_shaped d hes.readable hreadable)
  have hapart : ∀ m ∈ ms.map (fun m => (m.1, m.2.merge)), m.1 ∉ (shapedField d es).names :=
    fun m hm => hnew m.1 (Entries.mem_names_ofMembers.mpr (List.mem_map_of_mem hm))
  rw [List.map_append, map_merge_field hes, Entries.ofMembers_append hapart] at hparse
  simpa [fieldText, comma, shapedField] using hparse

end Field

/-! ## Section 4: Shaping loses nothing -/

/-- The data type for the HTML editor with another sample. -/
def areaWith (sample : Json) : DataType := { Catalog.area with sample := some sample }

/-- A sample with empty brackets, with a brace and a line feed in a string, and with a data type of
its own. -/
def miscellany : Entries Json :=
  [("choices", .obj [("none", .arr []), ("more", .obj [])]), ("hint", .str "\x7b\n\"b\" \x7d"),
    typeEntry (.str "other")]

/-- A property behind the inserted text. -/
def keyEntry : Entries Json := [("key", .bool true)]

/-- Whether the entries of a sample come back from the text of a field with the sample. -/
def Keeps (es : Entries Json) : Prop :=
  ∃ inserted, build (areaWith (.obj es)) [] false = .ok inserted ∧
    Json.parse (fieldText inserted []) = .ok (.obj (shapedField (areaWith (.obj es)) es))

/-- A sample that is nested more deeply than can be converted. -/
def deepSample : Entries Json := [("choices", Json.arrays 600)]

/-- A sample with an integer of one digit more than is written. -/
def longSample : Entries Json := [("max", .int (10 ^ Json.maxIntegerDigits : Nat))]

/-- A sample whose string has a surrogate pair in two halves. -/
def splitSample : Entries Json := [("mark", .str [.surrogate 0x3D, .surrogate 0x600])]

/-- The sample whose string has the code point of that pair. -/
def joinedSample : Entries Json := [("mark", .str [.ofNat 0x1F600])]

private theorem depth_deepSample : (Json.obj deepSample).depth = 602 := by
  rw [deepSample, Json.depth, Json.depth.depthOfEntries, Json.depth.depthOfEntries,
    Json.depth_arrays]
  rfl

private theorem build_deepSample : build (areaWith (.obj deepSample)) [] false =
    .error (.unwritable .tooDeepToConvert) := by
  refine build_of_writeFault rfl (Json.writeFault?_of_too_deep ?_) [] false
  rw [depth_deepSample]
  decide

private theorem build_longSample : build (areaWith (.obj longSample)) [] false =
    .error (.unwritable .longInteger) := by
  refine build_of_writeFault rfl (Json.writeFault?_of_long_integer (by decide) ?_) [] false
  intro hdigits
  exact Nat.lt_irrefl _ ((Json.every_obj.mp hdigits).2 _ List.mem_cons_self).self

private theorem not_keeps_splitSample : ¬ Keeps splitSample := by
  rintro ⟨inserted, hbuild, hparse⟩
  have hsplit := build_obj (d := areaWith (.obj splitSample)) rfl (by decide) (List.cons_ne_nil _ _)
    [] false
  -- the halves of the pair are escaped like the code point that they stand for
  have htext : shaped (areaWith (.obj splitSample)) splitSample [] =
      shaped (areaWith (.obj joinedSample)) joinedSample [] := rfl
  have hsample : Rereadable joinedSample :=
    ⟨List.cons_ne_nil _ _, by decide, by decide, by decide, by decide⟩
  have hjoined := parse_shaped (d := areaWith (.obj joinedSample)) (l := []) (by decide) (by decide)
    hsample
  rw [hsplit, htext] at hbuild
  cases hbuild
  rw [hjoined] at hparse
  have hmark : some (Json.str [.ofNat 0x1F600]) =
      some (Json.str [.surrogate 0x3D, .surrogate 0x600]) :=
    congrArg (Entries.get? "mark") (Json.obj.inj (Except.ok.inj hparse))
  have hlength := congrArg List.length (Json.str.inj (Option.some.inj hmark))
  exact absurd hlength (by decide)

end Insertion

end FormSchema
