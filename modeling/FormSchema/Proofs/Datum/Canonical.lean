import FormSchema.Datum.Records
import FormSchema.Proofs.Datum.Faults
import FormSchema.Proofs.Json.Order

/-!
# Canonical texts of data are read back

Whatever a host hands over without fractional numbers and can be converted is written as a text that
is parsed as its normal form with sorted names.  Data that are nested little enough can be converted
if their records can be copied.  A record that holds a view of the catalog cannot, although a view
outside a record is written like any mapping.
-/

namespace FormSchema

/-! ## Section 1: Values that are read back -/

namespace Json

/-- A value that is read back from its canonical text: one within limits, without fractional
numbers, and with each name once in every object. -/
structure ReadBack (room : Nat) (v : Json) : Prop where
  fits : v.Fits room
  isExact : v.Every IsExact
  distinct : v.Every HasDistinctNames

variable {room : Nat}

/-- With more room a value still is read back. -/
theorem ReadBack.mono {room' : Nat} {v : Json} (h : v.ReadBack room) (hle : room ≤ room') :
    v.ReadBack room' :=
  ⟨h.fits.mono hle, h.isExact, h.distinct⟩

/-- A scalar takes no room. -/
theorem readBack_scalar {v : Json} (hdepth : v.depth = 0) (hparts : v.parts = [v])
    (hfits : v.FitsDigits) (hexact : v.IsExact) (hdistinct : v.HasDistinctNames) :
    v.ReadBack room :=
  ⟨fits_scalar hdepth hparts hfits room, every_of_parts_eq hparts hexact,
    every_of_parts_eq hparts hdistinct⟩

/-- Every string is read back. -/
theorem readBack_str (s : Text) : (str s).ReadBack room :=
  readBack_scalar rfl rfl trivial trivial trivial

private theorem fitsDigits_iff_length {n : Int} :
    fitsDigits n = true ↔ (Text.ofNat n.natAbs).length ≤ maxIntegerDigits := by
  rw [(isWhole_ofNat _).length_le_iff (by decide), digitsValue_ofNat]
  exact fitsDigits_int.symm

/-- An integer is read back if it is written with no more digits than are read. -/
theorem readBack_int {n : Int} (h : (Text.ofNat n.natAbs).length ≤ maxIntegerDigits) :
    (int n).ReadBack room :=
  readBack_scalar rfl rfl (fitsDigits_int.mpr (fitsDigits_iff_length.mpr h)) trivial trivial

/-- An array takes one level more than its items. -/
theorem readBack_arr {items : List Json} (h : ∀ v ∈ items, v.ReadBack room) :
    (arr items).ReadBack (room + 1) where
  fits := fits_arr.mpr fun v hv => (h v hv).fits
  isExact := every_arr.mpr ⟨trivial, fun v hv => (h v hv).isExact⟩
  distinct := every_arr.mpr ⟨trivial, fun v hv => (h v hv).distinct⟩

/-- An object takes one level more than its values. -/
theorem readBack_obj {es : Entries Json} (hd : es.Distinct) (h : ∀ e ∈ es, e.2.ReadBack room) :
    (obj es).ReadBack (room + 1) where
  fits := fits_obj.mpr fun e he => (h e he).fits
  isExact := every_obj.mpr ⟨trivial, fun e he => (h e he).isExact⟩
  distinct := every_obj.mpr ⟨hd, fun e he => (h e he).distinct⟩

/-- What is read back comes with its names sorted. -/
theorem parse_of_readBack {v : Json} (h : v.ReadBack maxDepth) (indent : Option Nat) :
    parse (v.canonical indent) = .ok v.sortNames :=
  (parse_canonical_iff h.isExact h.distinct indent).mpr h.fits

/-- A reader that takes more than the grammar has reads the canonical text alike. -/
theorem parseLenient_of_readBack {v : Json} (h : v.ReadBack maxDepth) (indent : Option Nat) :
    parseLenient (v.canonical indent) = .ok v.sortNames := by
  have hsorted : v.sortNames.Every HasDistinctNames :=
    (every_sortNames hasDistinctNames_sortNames).mpr h.distinct
  have hreadable : v.sortNames.Readable := by
    rw [Readable, fits_sortNames]
    exact h.fits
  rw [parseLenient, parseDialect_of_derives .lenient (derives_canonical h.isExact indent) hreadable,
    merge_of_distinct hsorted]

/-- The text of a value ends with a bracket, a quotation mark, a letter or a digit, so that the line
feed behind it is the only one there. -/
theorem getLast?_printAt {style : Style} {v : Json} (hv : v.IsExact) (depth : Nat) :
    (printAt style depth v).getLast? ≠ some .lineFeed := by
  have hconcat (front : Text) {c : CodePoint} (hc : c ≠ .lineFeed) :
      (front ++ [c]).getLast? ≠ some .lineFeed := by
    rw [List.getLast?_concat]
    exact fun h => hc (Option.some.inj h)
  have henclose (opening closing : Char) (hc : CodePoint.scalar closing ≠ .lineFeed)
      (parts : List Text) : (style.enclose depth opening closing parts).getLast? ≠
        some .lineFeed := by
    rw [Style.enclose]
    split
    · exact hconcat [.scalar opening] hc
    · exact hconcat _ hc
  cases v with
  | null => exact of_decide_eq_true rfl
  | bool b => cases b <;> exact of_decide_eq_true rfl
  | int n =>
    -- the last code point is the last digit
    obtain ⟨hne, hdigits⟩ := isDigits_ofNat n.natAbs
    have hlast : (Text.ofInt n).getLast? = (Text.ofNat n.natAbs).getLast? := by
      rw [Text.ofInt]
      split
      · exact List.getLast?_cons_of_ne_nil hne
      · rfl
    rw [printAt, hlast]
    intro h
    exact absurd (hdigits _ (List.mem_of_getLast? h)) (by decide)
  | float x => exact absurd hv id
  | str s => exact hconcat _ (by decide)
  | arr items => exact henclose _ _ (by decide) _
  | obj es => exact henclose _ _ (by decide) _

end Json

namespace Datum

/-! ## Section 2: Normal forms -/

private theorem normalItems_eq_map (items : List Datum) :
    normalItems items = items.map normalForm := by
  induction items with
  | nil => rfl
  | cons d rest ih => rw [normalItems, ih, List.map_cons]

private theorem normalEntries_eq_map (es : List (Datum × Datum)) :
    normalEntries es = es.map fun e => (e.1.display, e.2.normalForm) := by
  induction es with
  | nil => rfl
  | cons e rest ih => rw [normalEntries, ih, List.map_cons]

private theorem normalFields_eq_map (fields : Entries Datum) :
    normalFields fields = fields.map fun f => (f.1, f.2.normalForm) := by
  induction fields with
  | nil => rfl
  | cons f rest ih => rw [normalFields, ih, List.map_cons]

/-- Data without fractional numbers among their values, and with integers of no more digits than are
read.  Keys of mappings can be anything. -/
inductive Writable : Datum → Prop
  | null : Writable .null
  | bool (b : Bool) : Writable (.bool b)
  | int {n : Int} (h : (Text.ofNat n.natAbs).length ≤ Json.maxIntegerDigits) : Writable (.int n)
  | str (s : Text) : Writable (.str s)
  | octets (content : Octets) : Writable (.octets content)
  | path (p : Path) : Writable (.path p)
  | wordMember (type member word : Text) : Writable (.wordMember type member word)
  | numberMember (type member : Text) {n : Int}
      (h : (Text.ofNat n.natAbs).length ≤ Json.maxIntegerDigits) :
      Writable (.numberMember type member n)
  | typeName (name : Text) : Writable (.typeName name)
  | items (kind : ItemsKind) {items : List Datum} (h : ∀ d ∈ items, Writable d) :
      Writable (kind.make items)
  | entries (kind : EntriesKind) {es : List (Datum × Datum)} (h : ∀ e ∈ es, Writable e.2) :
      Writable (kind.make es)
  -- the names of fields are those of the type, which differ
  | record (type : Text) (ownForm : Bool) {fields : Entries Datum} (hnames : fields.Distinct)
      (h : ∀ f ∈ fields, Writable f.2) : Writable (.record type ownForm fields)

/-- All collections of items have arrays as their normal forms. -/
theorem normalForm_items (kind : ItemsKind) (items : List Datum) :
    (kind.make items).normalForm = .arr (items.map normalForm) := by
  rw [← normalItems_eq_map]
  cases kind <;> rfl

/-- A mapping and a view of it have the same normal form. -/
theorem normalForm_entries (kind : EntriesKind) (es : List (Datum × Datum)) :
    (kind.make es).normalForm =
      .obj (Entries.ofMembers (es.map fun e => (e.1.display, e.2.normalForm))) := by
  rw [← normalEntries_eq_map]
  cases kind <;> rfl

/-- The normal form of a record has its fields in their order. -/
theorem normalForm_record (type : Text) (ownForm : Bool) (fields : Entries Datum) :
    (record type ownForm fields).normalForm =
      .obj (fields.map fun f => (f.1, f.2.normalForm)) := by
  rw [normalForm, normalFields_eq_map]

/-- Each level of the normal form takes two of the calls with which a datum is converted. -/
theorem conversion_succ {calls : Nat} (h : Json.conversionCalls ≤ calls) :
    calls / Json.conversionCalls =
      (calls - Json.conversionCalls) / Json.conversionCalls + 1 :=
  Nat.div_eq_sub_div (by decide) h

/-- The normal form of a datum that is converted is nested at most half as deeply as calls are left,
so that it is within the limits of the reader. -/
theorem Writable.readBack {d : Datum} (h : d.Writable) {calls : Nat}
    (hfault : d.fault? calls = none) :
    d.normalForm.ReadBack (calls / Json.conversionCalls) := by
  -- every level takes the calls of a conversion, and so a level of what is read back
  induction h generalizing calls with
  | null => exact Json.readBack_scalar rfl rfl trivial trivial trivial
  | bool b => exact Json.readBack_scalar rfl rfl trivial trivial trivial
  | int h => exact Json.readBack_int h
  | numberMember type member h => exact Json.readBack_int h
  | str _ | octets _ | path _ | wordMember _ _ _ | typeName _ => exact Json.readBack_str _
  | items kind h ih =>
    obtain ⟨hcalls, hitems⟩ := (fault?_items_eq_none_iff kind).mp hfault
    rw [normalForm_items, conversion_succ hcalls]
    exact Json.readBack_arr (List.forall_mem_map.mpr fun d hd => ih d hd (hitems d hd))
  | entries kind h ih =>
    obtain ⟨hcalls, hentries⟩ := (fault?_entries_eq_none_iff kind).mp hfault
    rw [normalForm_entries, conversion_succ hcalls]
    refine Json.readBack_obj (Entries.distinct_ofMembers _) ?_
    refine Json.forall_mem_ofMembers (·.ReadBack _) (List.forall_mem_map.mpr fun e he => ?_)
    exact ih e he (hentries e he).2
  | record type ownForm hnames h ih =>
    obtain ⟨hcalls, -, hfields⟩ := fault?_record_eq_none_iff.mp hfault
    have hconversion : Json.conversionCalls ≤ calls := Nat.le_trans (by decide) hcalls
    rw [normalForm_record, conversion_succ hconversion]
    refine Json.readBack_obj ?_ (List.forall_mem_map.mpr fun f hf => ?_)
    · rw [Entries.Distinct, Entries.names_map]
      exact hnames
    · -- the object takes two of the calls, and making it one more
      refine (ih f hf (hfields f hf)).mono (Nat.div_le_div_right ?_)
      exact Nat.sub_le_sub_left (by decide) calls

/-! ## Section 3: JSON values as data -/

private theorem normalForm_ofJson {v : Json} (hd : v.Every Json.HasDistinctNames) :
    (ofJson v).normalForm = v := by
  -- only the names of objects could be lost, and they are distinct
  induction v using Json.inductionOn with
  | null | bool _ | int _ | float _ | str _ => rfl
  | arr items ih =>
    rw [ofJson, normalForm, normalItems_eq_map, ofJsonItems_eq_map, List.map_map]
    refine congrArg Json.arr ((List.map_congr_left fun v hv => ?_).trans items.map_id)
    exact ih v hv ((Json.every_arr.mp hd).2 v hv)
  | obj es ih =>
    have hentries : normalEntries (ofJsonEntries es) = es := by
      rw [normalEntries_eq_map, ofJsonEntries_eq_map, List.map_map]
      refine (List.map_congr_left fun e he => ?_).trans es.map_id
      exact Prod.ext rfl (ih e he ((Json.every_obj.mp hd).2 e he))
    rw [ofJson, normalForm, hentries, Entries.ofMembers_of_distinct hd.self]

/-- The canonical text of a datum that is converted and whose normal form is written. -/
theorem canonical_of_fits {d : Datum} (hfault : d.fault? Json.callsLeft = none)
    (hfits : d.normalForm.Fits Json.maxDepth) (indent : Option Nat) :
    d.canonical indent = .ok (d.normalForm.canonical indent) := by
  have hencode : d.normalForm.sortNames.encodeFault? Json.callsLeft = none :=
    Json.scanFault?_eq_none_iff.mpr (Json.fits_sortNames.mpr hfits)
  rw [canonical, hfault, hencode]

/-- An integer is converted if it has no more digits than are written. -/
theorem convertible_int {copied : Bool} {levels : Nat} {n : Int}
    (h : (Text.ofNat n.natAbs).length ≤ Json.maxIntegerDigits) :
    Convertible copied levels (.int n) := by
  refine .leaf ?_
  rw [showFault?, if_pos (Json.fitsDigits_iff_length.mpr h)]

/-- A datum that is nested little enough and has no fractional numbers is written. -/
theorem Convertible.canonical_eq {levels : Nat} {d : Datum} (h : Convertible false levels d)
    (hlevels : rebuildCalls * levels ≤ Json.callsLeft) (hd : d.Writable) (indent : Option Nat) :
    d.canonical indent = .ok (d.normalForm.canonical indent) := by
  have hfault := (h.no_fault hlevels).2.2
  have hread : d.normalForm.ReadBack Json.conversionDepth := hd.readBack hfault
  exact canonical_of_fits hfault (hread.mono Json.conversionDepth_le).fits indent

/-- A JSON value has a canonical text as a datum exactly if it has one as it is, and that is the
same. -/
theorem canonical_ofJson_eq_ok_iff {v : Json} (hd : v.Every Json.HasDistinctNames)
    {indent : Option Nat} {text : Text} :
    (ofJson v).canonical indent = .ok text ↔ v.dump indent = .ok text := by
  rw [Json.dump_eq_ok_iff, canonical, normalForm_ofJson hd]
  by_cases hdepth : v.depth ≤ Json.conversionDepth
  · have hfits : v.sortNames.encodeFault? Json.callsLeft = none ↔ v.Fits Json.conversionDepth := by
      rw [Json.encodeFault?, Json.scanFault?_eq_none_iff, Json.fits_sortNames]
      exact ⟨fun h => ⟨hdepth, h.2⟩, fun h => h.mono Json.conversionDepth_le⟩
    rw [fault?_ofJson_eq_none_iff.mpr hdepth, ← hfits]
    -- after the conversion only an integer can be at fault
    cases v.sortNames.encodeFault? Json.callsLeft with
    | none => exact ⟨fun h => ⟨rfl, (Except.ok.inj h).symm⟩, fun h => congrArg _ h.2.symm⟩
    | some f => simp only [reduceCtorEq, false_and]
  · obtain ⟨f, hf⟩ := Option.ne_none_iff_exists'.mp (mt fault?_ofJson_eq_none_iff.mp hdepth)
    simp only [hf, reduceCtorEq, false_iff]
    exact fun h => hdepth h.1.1

/-- A JSON value within the limits is written as a document is. -/
theorem canonical_ofJson {v : Json} (hd : v.Every Json.HasDistinctNames)
    (hfits : v.Fits Json.conversionDepth) (indent : Option Nat) :
    (ofJson v).canonical indent = .ok (v.canonical indent) :=
  (canonical_ofJson_eq_ok_iff hd).mpr (Json.dump_of_fits hfits indent)

/-! ## Section 4: Reading back -/

/-- A mapping with keys that are no strings, a path, a member of an enumeration, a record with a
form of its own and one that is copied. -/
def miscellany : Datum :=
  .mapping [(.int 10, .tuple [.path (Path.ofText "a//b/./c"), Severity.error.toDatum]),
    (.str "at", Position.toDatum ⟨0, 7⟩), (.null, Config.default.toDatum)]

private theorem writable_miscellany : miscellany.Writable := by
  have htuple : Writable (.tuple [.path (Path.ofText "a//b/./c"), Severity.error.toDatum]) := by
    refine .items .tuple (List.forall_mem_cons.mpr ⟨.path _, List.forall_mem_singleton.mpr ?_⟩)
    exact .wordMember _ _ _
  have hposition : Writable (Position.toDatum ⟨0, 7⟩) := by
    refine .record _ _ (by decide) (List.forall_mem_cons.mpr ⟨.int (by decide), ?_⟩)
    exact List.forall_mem_singleton.mpr (.int (by decide))
  -- a record with a collection in each of the first two fields
  have hconfig : Writable Config.default.toDatum := by
    refine .record _ _ (by decide) (List.forall_mem_cons.mpr ⟨?_, List.forall_mem_cons.mpr ⟨?_, ?_⟩⟩)
    · exact .items .tuple (List.forall_mem_singleton.mpr (.str _))
    · exact .items .tuple (List.forall_mem_singleton.mpr (.str _))
    · exact List.forall_mem_singleton.mpr (.int (by decide))
  refine .entries .mapping
    (List.forall_mem_cons.mpr ⟨htuple, List.forall_mem_cons.mpr ⟨hposition, ?_⟩⟩)
  exact List.forall_mem_singleton.mpr hconfig

/-- The sample of data is nested three levels deep, and its record can be copied. -/
private theorem convertible_miscellany : Convertible false 3 miscellany := by
  -- each part is nested two levels deep at most
  have htuple : Convertible false 2 (.tuple [.path (Path.ofText "a//b/./c"),
      Severity.error.toDatum]) :=
    .items .tuple (List.forall_mem_cons.mpr ⟨.leaf rfl, List.forall_mem_singleton.mpr (.leaf rfl)⟩)
  have hposition : Convertible false 2 (Position.toDatum ⟨0, 7⟩) :=
    .record _ _ (List.forall_mem_cons.mpr ⟨convertible_int (by decide),
      List.forall_mem_singleton.mpr (convertible_int (by decide))⟩)
  have hconfig : Convertible false 2 Config.default.toDatum := by
    refine .record _ _ (List.forall_mem_cons.mpr ⟨?_, List.forall_mem_cons.mpr ⟨?_, ?_⟩⟩)
    · exact .items .tuple (List.forall_mem_singleton.mpr (.leaf rfl))
    · exact .items .tuple (List.forall_mem_singleton.mpr (.leaf rfl))
    · exact List.forall_mem_singleton.mpr (convertible_int (by decide))
  refine .entries .mapping nofun ?_ ?_
  · exact List.forall_mem_cons.mpr ⟨convertible_int (by decide), List.forall_mem_cons.mpr ⟨.leaf rfl,
      List.forall_mem_singleton.mpr (.leaf rfl)⟩⟩
  · exact List.forall_mem_cons.mpr ⟨htuple, List.forall_mem_cons.mpr ⟨hposition,
      List.forall_mem_singleton.mpr hconfig⟩⟩

end Datum

end FormSchema
