import FormSchema.Proofs.Assist.Fragment

/-!
# Completed documents

What an insertion is to make of a document: one of its fields gets the data type of the insertion,
with the entries of the sample right behind it, and everything else stays as it is.  If the sample
has no name in common with the field, no name is repeated, and what comes out is within the limits
of the reader if the document is and if there is room for the sample.
-/

namespace FormSchema

/-! ## Section 1: Completion of a field -/

/-- The entry for the data type of a field. -/
abbrev typeEntry (v : Json) : Text × Json := ("data_type", v)

namespace InsertionKind

/-- Entries with the data type of a kind, and with the sample of the kind right behind it. -/
def completeEntries (kind : InsertionKind) (es : Entries Json) : Entries Json :=
  es.flatMap fun e =>
    if e.1 = Text.ofString "data_type" then
      typeEntry (.str kind.dataType.identifier) :: kind.sampleEntries
    else [e]

/-- A field that a kind completes; other values stay as they are. -/
def complete (kind : InsertionKind) : Json → Json
  | .obj es => .obj (kind.completeEntries es)
  | v => v

/-- A document with sorted names in which the field behind a route is completed. -/
def completed (kind : InsertionKind) (route : Json.Route) (document : Json) : Json :=
  document.sortNames.modifyAt kind.complete route

/-! ## Section 2: The entries of a completed field -/

/-- Entries that are not the data type of the field stay as they are. -/
theorem completeEntries_of_ne (kind : InsertionKind) {es : Entries Json}
    (h : ∀ e ∈ es, e.1 ≠ Text.ofString "data_type") : kind.completeEntries es = es := by
  induction es with
  | nil => rfl
  | cons e es ih =>
    rw [List.forall_mem_cons] at h
    rw [completeEntries, List.flatMap_cons, if_neg h.1]
    exact congrArg (e :: ·) (ih h.2)

/-- The data type of a field is exchanged, and the sample stands right behind it. -/
theorem completeEntries_around (kind : InsertionKind) {before after : Entries Json} {v : Json}
    (hbefore : ∀ e ∈ before, e.1 ≠ Text.ofString "data_type")
    (hafter : ∀ e ∈ after, e.1 ≠ Text.ofString "data_type") :
    kind.completeEntries (before ++ typeEntry v :: after) =
      before ++ typeEntry (.str kind.dataType.identifier) :: (kind.sampleEntries ++ after) := by
  rw [completeEntries, List.flatMap_append, List.flatMap_cons, if_pos rfl]
  show kind.completeEntries before ++ (_ ++ kind.completeEntries after) = _
  rw [kind.completeEntries_of_ne hbefore, kind.completeEntries_of_ne hafter]
  rfl

section Entries

variable (kind : InsertionKind) {es : Entries Json} {v : Json} (hd : es.Distinct)
  (htype : Entries.get? "data_type" es = some v)
include hd htype

/-- A field with a data type can be split at it, and completion keeps both parts. -/
private theorem exists_completeEntries : ∃ before after : Entries Json,
    es = before ++ typeEntry v :: after ∧ kind.completeEntries es =
      before ++ typeEntry (.str kind.dataType.identifier) :: (kind.sampleEntries ++ after) := by
  obtain ⟨after, hes, hafter⟩ := Entries.exists_around hd htype
  refine ⟨_, after, hes, ?_⟩
  conv_lhs => rw [hes]
  exact kind.completeEntries_around (fun e he => Entries.ne_of_mem_takeWhile he) hafter

/-- Completion repeats no name if the names of the sample are new. -/
theorem distinct_completeEntries (hnew : ∀ e ∈ kind.sampleEntries, e.1 ∉ es.names) :
    (kind.completeEntries es).Distinct := by
  obtain ⟨before, after, hes, hcomplete⟩ := kind.exists_completeEntries hd htype
  have hsample : kind.sampleEntries.Distinct := by cases kind <;> decide
  -- up to order, the names are those of the sample and those that were there
  have hperm : (kind.completeEntries es).names.Perm (kind.sampleEntries.names ++ es.names) := by
    conv_rhs => rw [hes]
    rw [hcomplete]
    simp only [Entries.names_append, Entries.names_cons]
    have hfront := List.perm_append_comm_assoc [Text.ofString "data_type"] kind.sampleEntries.names
      after.names
    exact (hfront.append_left _).trans (List.perm_append_comm_assoc _ _ _)
  rw [Entries.Distinct, hperm.nodup_iff, List.nodup_append]
  refine ⟨hsample, hd, fun name hname other hother heq => ?_⟩
  obtain ⟨e, he, rfl⟩ := List.mem_map.mp hname
  exact hnew e he (heq ▸ hother)

/-- All values of a completed field are of a kind exactly if those of the field and of the sample
are. -/
private theorem forall_mem_completeEntries {q : Json → Prop}
    (hq : q (.str kind.dataType.identifier))
    (hv : q v) : (∀ e ∈ kind.completeEntries es, q e.2) ↔
      (∀ e ∈ es, q e.2) ∧ ∀ e ∈ kind.sampleEntries, q e.2 := by
  obtain ⟨before, after, hes, hcomplete⟩ := kind.exists_completeEntries hd htype
  rw [hcomplete, hes]
  simp only [List.forall_mem_append, List.forall_mem_cons]
  tauto

end Entries

/-- The sample for a dropdown has brackets, the one for the HTML editor has none. -/
theorem sampleEntries_fit {kind : InsertionKind} {n : Nat} :
    (∀ e ∈ kind.sampleEntries, e.2.Fits n) ↔ kind = .htmlEditor ∨ 0 < n := by
  -- the one sample is an object of strings, and the other one a string
  cases kind with
  | dropdown =>
    have hsample : (∀ e ∈ dropdown.sampleEntries, e.2.Fits n) ↔ Catalog.sampleChoices.Fits n :=
      List.forall_mem_singleton
    have hoptions (m : Nat) : Catalog.sampleChoices.Fits (m + 1) := by
      refine Json.fits_obj.mpr (List.forall_mem_cons.mpr ⟨Json.fits_str m _, ?_⟩)
      exact List.forall_mem_singleton.mpr (Json.fits_str m _)
    rw [hsample]
    cases n with
    | zero => exact ⟨fun h => absurd h.1 (by decide), fun h => absurd h (by decide)⟩
    | succ n => exact ⟨fun _ => .inr n.succ_pos, fun _ => hoptions n⟩
  | htmlEditor =>
    have hsample : ∀ e ∈ htmlEditor.sampleEntries, e.2.Fits n :=
      List.forall_mem_singleton.mpr (Json.fits_str n _)
    exact ⟨fun _ => .inl rfl, fun _ => hsample⟩

/-! ## Section 3: The completed document -/

section Document

open Json (HasDistinctNames)

variable (kind : InsertionKind) {document : Json} {route : Json.Route} {fields : Entries Json}
  {type : Text} (hnames : document.Every HasDistinctNames)
  (hfield : document.at? route = some (.obj fields))
  (htype : Entries.get? "data_type" fields = some (.str type))
include hnames hfield htype

/-- The field behind a route, in the document with sorted names. -/
theorem exists_sorted_field : ∃ es : Entries Json,
    document.sortNames.at? route = some (.obj es) ∧ es.Distinct ∧
      Entries.get? "data_type" es = some (.str type) ∧
      ∀ name ∈ es.names, name ∈ fields.names := by
  have hat := Json.at?_sortNames hnames hfield
  rw [Json.sortNames_obj] at hat
  have hd : fields.Distinct := (hnames.at? hfield).self
  refine ⟨_, hat, Json.distinct_sorted hd, Json.get?_sorted hd htype, fun name hname => ?_⟩
  obtain ⟨e, he, rfl⟩ := List.mem_map.mp hname
  obtain ⟨f, hf, rfl⟩ := List.mem_map.mp (Json.mem_sortByName.mp he)
  exact List.mem_map.mpr ⟨f, hf, rfl⟩

/-- A sample with new names makes no name come twice. -/
theorem every_completed (hnew : ∀ e ∈ kind.sampleEntries, e.1 ∉ fields.names) :
    (kind.completed route document).Every HasDistinctNames := by
  obtain ⟨es, hat, hd, hget, hsub⟩ := exists_sorted_field hnames hfield htype
  have hsorted := (Json.every_sortNames Json.hasDistinctNames_sortNames).mpr hnames
  have hsample : ∀ e ∈ kind.sampleEntries, e.2.Every HasDistinctNames := by
    cases kind <;> decide
  -- only the object at the end of the route changes, and what is inserted has new names
  apply Json.every_modifyAt Json.HasDistinctNames.modifyChild hsorted hsorted hat
  refine Json.every_obj.mpr ⟨?_, ?_⟩
  · exact kind.distinct_completeEntries hd hget fun e he hmem => hnew e he (hsub _ hmem)
  · refine (kind.forall_mem_completeEntries hd hget ?_ ?_).mpr ⟨?_, hsample⟩
    · exact Json.every_of_parts_eq rfl trivial
    · exact Json.every_of_parts_eq rfl trivial
    · exact (Json.every_obj.mp (hsorted.at? hat)).2

/-- A completed document is within the limits of the reader if the document is, and if the sample
does not need brackets where no more can be opened. -/
theorem fits_completed_iff (hnew : ∀ e ∈ kind.sampleEntries, e.1 ∉ fields.names) {n : Nat} :
    (kind.completed route document).Fits n ↔
      document.Fits n ∧ (kind = .htmlEditor ∨ route.length + 1 < n) := by
  obtain ⟨es, hat, hd, hget, _⟩ := exists_sorted_field hnames hfield htype
  have hsorted := (Json.every_sortNames Json.hasDistinctNames_sortNames).mpr hnames
  -- the field itself, which is an object and so takes up one level
  have hfits {m : Nat} : (kind.complete (.obj es)).Fits (m + 1) ↔
      (Json.obj es).Fits (m + 1) ∧ (kind = .htmlEditor ∨ 0 < m) := by
    rw [complete, Json.fits_obj, Json.fits_obj,
      kind.forall_mem_completeEntries hd hget (Json.fits_str _ _) (Json.fits_str _ _),
      sampleEntries_fit]
  rw [← Json.fits_sortNames (v := document)]
  constructor
  · intro h
    have hcompleted := Json.at?_modifyAt (f := kind.complete) hat
    obtain ⟨m, rfl, hm⟩ := h.at? hcompleted
    cases m with
    | zero => exact absurd hm.1 (Nat.not_succ_le_zero _)
    | succ m =>
      obtain ⟨hfield, hroom⟩ := hfits.mp hm
      -- putting back the field as it was keeps the limits, and it gives the document again
      have hundone := h.modifyAt (f := fun _ => .obj es)
        (kind.every_completed hnames ‹_› htype hnew) hcompleted hfield
      rw [completed, Json.modifyAt_undo hsorted hat] at hundone
      refine ⟨hundone, hroom.imp_right fun hroom => ?_⟩
      omega
  · rintro ⟨h, hroom⟩
    obtain ⟨m, rfl, hm⟩ := h.at? hat
    cases m with
    | zero => exact absurd hm.1 (Nat.not_succ_le_zero _)
    | succ m =>
      refine h.modifyAt hsorted hat (hfits.mpr ⟨hm, hroom.imp_right fun hroom => ?_⟩)
      omega

end Document

end InsertionKind

end FormSchema
