import FormSchema.Datum.Canonical
import FormSchema.Proofs.Json.Limits

/-!
# Which data can be converted

To show, to copy and to convert a datum all its parts are gone through, with fewer calls left at
each level, and the datum meets no fault exactly if the calls suffice and its parts meet none with
those that are left.  So a datum that is nested little enough meets none, if its records can be
copied at all; and a JSON value meets none exactly within the limits of its conversion.
-/

namespace FormSchema.Datum

/-! ## Section 1: Kinds of data -/

/-- The kinds of data that hold items. -/
inductive ItemsKind
  | list
  | tuple
  | set
  | frozenSet

def ItemsKind.make : ItemsKind → List Datum → Datum
  | list => .list
  | tuple => .tuple
  | set => .set
  | frozenSet => .frozenSet

/-- Whether the items of a kind have no order of their own. -/
def ItemsKind.isSet : ItemsKind → Bool
  | list => false
  | tuple => false
  | set => true
  | frozenSet => true

/-- The calls that it takes to show data of a kind. -/
def ItemsKind.showCalls : ItemsKind → Nat
  | frozenSet => 2
  | _ => 1

/-- The calls that it takes to copy data of a kind. -/
def ItemsKind.copyCalls (kind : ItemsKind) : Nat :=
  if kind.isSet then rebuildCalls else Datum.copyCalls

/-- The kinds of data that hold keys and values. -/
inductive EntriesKind
  | mapping
  | view

def EntriesKind.make : EntriesKind → List (Datum × Datum) → Datum
  | mapping => .mapping
  | view => .view

/-! ## Section 2: Parts -/

/-- A step that takes some calls meets no fault exactly if so many are left, and nothing behind it
meets one. -/
private theorem ite_calls_eq_none_iff {α : Type} {calls needed : Nat} {f : α} {o : Option α} :
    (if calls < needed then some f else o) = none ↔ needed ≤ calls ∧ o = none := by
  split
  · next h => exact iff_of_false nofun fun hnone => absurd hnone.1 (Nat.not_le_of_lt h)
  · next h => exact (and_iff_right (Nat.le_of_not_lt h)).symm

section Parts

variable {calls : Nat} {items : List Datum} {es : List (Datum × Datum)} {fields : Entries Datum}

private theorem showFaultOfItems?_eq_none_iff :
    showFaultOfItems? calls items = none ↔ ∀ d ∈ items, d.showFault? calls = none :=
  Json.firstFault_eq_none_iff rfl fun _ _ => rfl

private theorem showFaultOfEntries?_eq_none_iff :
    showFaultOfEntries? calls es = none ↔
      ∀ e ∈ es, e.1.showFault? calls = none ∧ e.2.showFault? calls = none := by
  simp only [← Option.or_eq_none_iff]
  exact Json.firstFault_eq_none_iff rfl fun _ _ => (Option.or_assoc ..).symm

private theorem showFaultOfFields?_eq_none_iff :
    showFaultOfFields? calls fields = none ↔ ∀ f ∈ fields, f.2.showFault? calls = none :=
  Json.firstFault_eq_none_iff rfl fun _ _ => rfl

/-- A collection is shown if there are calls for it and its items are shown with those left. -/
theorem showFault?_items_eq_none_iff (kind : ItemsKind) :
    (kind.make items).showFault? calls = none ↔
      kind.showCalls ≤ calls ∧ ∀ d ∈ items, d.showFault? (calls - kind.showCalls) = none := by
  rw [← showFaultOfItems?_eq_none_iff, ← ite_calls_eq_none_iff]
  cases kind <;> rfl

/-- Keys and values of a mapping both count as its parts when it is shown. -/
theorem showFault?_entries_eq_none_iff (kind : EntriesKind) :
    (kind.make es).showFault? calls = none ↔
      1 ≤ calls ∧ ∀ e ∈ es, e.1.showFault? (calls - 1) = none ∧
        e.2.showFault? (calls - 1) = none := by
  rw [← showFaultOfEntries?_eq_none_iff, ← ite_calls_eq_none_iff]
  cases kind <;> rfl

/-- A record takes three calls to be shown, whether it has a form of its own or not. -/
theorem showFault?_record_eq_none_iff {type : Text} {ownForm : Bool} :
    (record type ownForm fields).showFault? calls = none ↔
      3 ≤ calls ∧ ∀ f ∈ fields, f.2.showFault? (calls - 3) = none := by
  rw [← showFaultOfFields?_eq_none_iff, ← ite_calls_eq_none_iff]
  rfl

private theorem copyFaultOfItems?_eq_none_iff :
    copyFaultOfItems? calls items = none ↔ ∀ d ∈ items, d.copyFault? calls = none :=
  Json.firstFault_eq_none_iff rfl fun _ _ => rfl

/-- The copy of a mapping needs keys that are no records, even after copying. -/
private theorem copyFaultOfEntries?_eq_none_iff :
    copyFaultOfEntries? calls es = none ↔
      ∀ e ∈ es, e.1.copyFault? calls = none ∧ e.2.copyFault? calls = none ∧
        e.1.hasRecord = false := by
  -- the first fault of an entry is the first of its key, its value and the two together
  have hentries : copyFaultOfEntries? calls es = none ↔ ∀ e ∈ es,
      ((copyFault? calls e.1).or ((copyFault? calls e.2).or
        (if hasRecord e.1 then some Fault.recordInKey else none))) = none :=
    Json.firstFault_eq_none_iff rfl fun _ _ => rfl
  rw [hentries]
  simp only [Option.or_eq_none_iff, ite_eq_right_iff, reduceCtorEq, imp_false, Bool.not_eq_true]

private theorem copyFaultOfFields?_eq_none_iff :
    copyFaultOfFields? calls fields = none ↔ ∀ f ∈ fields, f.2.copyFault? calls = none :=
  Json.firstFault_eq_none_iff rfl fun _ _ => rfl

/-- A collection is copied if there are calls for it and its items are copied with those left. -/
theorem copyFault?_items_eq_none_iff (kind : ItemsKind) :
    (kind.make items).copyFault? calls = none ↔
      kind.copyCalls ≤ calls ∧ ∀ d ∈ items, d.copyFault? (calls - kind.copyCalls) = none := by
  rw [← copyFaultOfItems?_eq_none_iff, ← ite_calls_eq_none_iff]
  cases kind <;> rfl

/-- A mapping is copied like a collection, but a record in a key is a fault. -/
theorem copyFault?_mapping_eq_none_iff :
    (mapping es).copyFault? calls = none ↔
      copyCalls ≤ calls ∧ ∀ e ∈ es, e.1.copyFault? (calls - copyCalls) = none ∧
        e.2.copyFault? (calls - copyCalls) = none ∧ e.1.hasRecord = false := by
  rw [← copyFaultOfEntries?_eq_none_iff, ← ite_calls_eq_none_iff]
  rfl

/-- A record within a copied record takes one call. -/
theorem copyFault?_record_eq_none_iff {type : Text} {ownForm : Bool} :
    (record type ownForm fields).copyFault? calls = none ↔
      1 ≤ calls ∧ ∀ f ∈ fields, f.2.copyFault? (calls - 1) = none := by
  rw [← copyFaultOfFields?_eq_none_iff, ← ite_calls_eq_none_iff]
  rfl

private theorem faultOfItems?_eq_none_iff :
    faultOfItems? calls items = none ↔ ∀ d ∈ items, d.fault? calls = none :=
  Json.firstFault_eq_none_iff rfl fun _ _ => rfl

private theorem faultOfEntries?_eq_none_iff :
    faultOfEntries? calls es = none ↔
      ∀ e ∈ es, e.1.showFault? calls = none ∧ e.2.fault? calls = none := by
  have hentries : faultOfEntries? calls es = none ↔ ∀ e ∈ es,
      ((showFault? calls e.1).map Fault.write).or (fault? calls e.2) = none :=
    Json.firstFault_eq_none_iff rfl fun _ _ => (Option.or_assoc ..).symm
  rw [hentries]
  simp only [Option.or_eq_none_iff, Option.map_eq_none_iff]

private theorem faultOfFields?_eq_none_iff :
    faultOfFields? calls fields = none ↔ ∀ f ∈ fields, f.2.fault? calls = none :=
  Json.firstFault_eq_none_iff rfl fun _ _ => rfl

/-- A collection is converted if there are calls for it and its items are converted with those left.
-/
theorem fault?_items_eq_none_iff (kind : ItemsKind) :
    (kind.make items).fault? calls = none ↔
      Json.conversionCalls ≤ calls ∧
        ∀ d ∈ items, d.fault? (calls - Json.conversionCalls) = none := by
  rw [← faultOfItems?_eq_none_iff, ← ite_calls_eq_none_iff]
  cases kind <;> rfl

/-- A mapping is converted if its keys are shown and its values converted with the calls left. -/
theorem fault?_entries_eq_none_iff (kind : EntriesKind) :
    (kind.make es).fault? calls = none ↔
      Json.conversionCalls ≤ calls ∧
        ∀ e ∈ es, e.1.showFault? (calls - Json.conversionCalls) = none ∧
          e.2.fault? (calls - Json.conversionCalls) = none := by
  rw [← faultOfEntries?_eq_none_iff, ← ite_calls_eq_none_iff]
  cases kind <;> rfl

/-- A record without a form of its own is copied before it is converted, and both take calls. -/
theorem fault?_record_eq_none_iff {type : Text} {ownForm : Bool} :
    (record type ownForm fields).fault? calls = none ↔
      recordCalls ≤ calls ∧
        (ownForm = false → ∀ f ∈ fields, f.2.copyFault? (calls - 1) = none) ∧
        ∀ f ∈ fields, f.2.fault? (calls - recordCalls) = none := by
  rw [fault?, ite_calls_eq_none_iff, Option.or_eq_none_iff, faultOfFields?_eq_none_iff,
    ← copyFaultOfFields?_eq_none_iff]
  cases ownForm <;> simp

end Parts

/-! ## Section 3: Data that are nested little enough -/

/-- Data that can be converted if they are nested little enough, here at most so many levels with
the keys of their mappings.  No integer has too many digits, and no record that is copied holds a
view, or a record in a key; `copied` says whether the datum is a part of such a record itself. -/
inductive Convertible : Bool → Nat → Datum → Prop
  -- what has no parts takes no call to be shown
  | leaf {copied : Bool} {levels : Nat} {d : Datum} (h : d.showFault? 0 = none) :
      Convertible copied levels d
  | items {copied : Bool} {levels : Nat} (kind : ItemsKind) {items : List Datum}
      (h : ∀ d ∈ items, Convertible copied levels d) :
      Convertible copied (levels + 1) (kind.make items)
  | entries {copied : Bool} {levels : Nat} (kind : EntriesKind) {es : List (Datum × Datum)}
      (hcopied : copied = true → kind = .mapping ∧ ∀ e ∈ es, e.1.hasRecord = false)
      (hkeys : ∀ e ∈ es, Convertible copied levels e.1)
      (hvalues : ∀ e ∈ es, Convertible copied levels e.2) :
      Convertible copied (levels + 1) (kind.make es)
  | record {copied : Bool} {levels : Nat} (type : Text) (ownForm : Bool) {fields : Entries Datum}
      (h : ∀ f ∈ fields, Convertible (copied || !ownForm) levels f.2) :
      Convertible copied (levels + 1) (.record type ownForm fields)

/-- Data without parts meet no fault with any number of calls, unless they are integers of too many
digits. -/
private theorem faults_of_leaf {d : Datum} (h : d.showFault? 0 = none) (calls : Nat) :
    d.showFault? calls = none ∧ d.copyFault? calls = none ∧ d.fault? calls = none := by
  cases d with
  | list _ | tuple _ | set _ | frozenSet _ | mapping _ | view _ | record _ _ _ => cases h
  | _ => exact ⟨h, rfl, rfl⟩

/-- No level takes more calls than the copy of a set does, so that so many for each level suffice.
-/
theorem Convertible.no_fault {copied : Bool} {levels calls : Nat} {d : Datum}
    (h : Convertible copied levels d) (hcalls : rebuildCalls * levels ≤ calls) :
    d.showFault? calls = none ∧ (copied = true → d.copyFault? calls = none) ∧
      d.fault? calls = none := by
  -- no step of the three takes more calls than one level stands for
  have hbound (spent levels calls : Nat) (h : rebuildCalls * (levels + 1) ≤ calls)
      (hspent : spent ≤ rebuildCalls) : spent ≤ calls ∧ rebuildCalls * levels ≤ calls - spent := by
    rw [Nat.mul_succ] at h
    omega
  induction h generalizing calls with
  | leaf h =>
    obtain ⟨hshow, hcopy, hfault⟩ := faults_of_leaf h calls
    exact ⟨hshow, fun _ => hcopy, hfault⟩
  | items kind h ih =>
    obtain ⟨hshow, hshown⟩ := hbound kind.showCalls _ _ hcalls (by cases kind <;> decide)
    obtain ⟨hcopy, hcopied⟩ := hbound kind.copyCalls _ _ hcalls (by cases kind <;> decide)
    obtain ⟨hconvert, hconverted⟩ := hbound Json.conversionCalls _ _ hcalls (by decide)
    refine ⟨(showFault?_items_eq_none_iff kind).mpr ⟨hshow, fun d hd => (ih d hd hshown).1⟩,
      fun h => (copyFault?_items_eq_none_iff kind).mpr ⟨hcopy, fun d hd => ?_⟩,
      (fault?_items_eq_none_iff kind).mpr ⟨hconvert, fun d hd => (ih d hd hconverted).2.2⟩⟩
    exact (ih d hd hcopied).2.1 h
  | entries kind hplain hkeys hvalues ihkeys ihvalues =>
    -- the keys are shown and not converted; where they are copied, no record is among them
    obtain ⟨hshow, hshown⟩ := hbound 1 _ _ hcalls (by decide)
    obtain ⟨hcopy, hcopied⟩ := hbound copyCalls _ _ hcalls (by decide)
    obtain ⟨hconvert, hconverted⟩ := hbound Json.conversionCalls _ _ hcalls (by decide)
    refine ⟨(showFault?_entries_eq_none_iff kind).mpr ⟨hshow, fun e he => ?_⟩, fun h => ?_,
      (fault?_entries_eq_none_iff kind).mpr ⟨hconvert, fun e he => ?_⟩⟩
    · exact ⟨(ihkeys e he hshown).1, (ihvalues e he hshown).1⟩
    · obtain ⟨rfl, hrecords⟩ := hplain h
      refine copyFault?_mapping_eq_none_iff.mpr ⟨hcopy, fun e he => ?_⟩
      exact ⟨(ihkeys e he hcopied).2.1 h, (ihvalues e he hcopied).2.1 h, hrecords e he⟩
    · exact ⟨(ihkeys e he hconverted).1, (ihvalues e he hconverted).2.2⟩
  | record type ownForm h ih =>
    -- without a form of its own the record is copied, and its parts are fit for that
    obtain ⟨hshow, hshown⟩ := hbound 3 _ _ hcalls (by decide)
    obtain ⟨hcopy, hcopied⟩ := hbound 1 _ _ hcalls (by decide)
    obtain ⟨hconvert, hconverted⟩ := hbound recordCalls _ _ hcalls (by decide)
    refine ⟨showFault?_record_eq_none_iff.mpr ⟨hshow, fun f hf => (ih f hf hshown).1⟩,
      fun h => copyFault?_record_eq_none_iff.mpr ⟨hcopy, fun f hf => ?_⟩,
      fault?_record_eq_none_iff.mpr ⟨hconvert, fun hown f hf => ?_, fun f hf => ?_⟩⟩
    · exact (ih f hf hcopied).2.1 (by rw [h, Bool.true_or])
    · exact (ih f hf hcopied).2.1 (by rw [hown, Bool.not_false, Bool.or_true])
    · exact (ih f hf hconverted).2.2

/-! ## Section 4: JSON values -/

/-- Items are taken over one by one. -/
theorem ofJsonItems_eq_map (items : List Json) : ofJsonItems items = items.map ofJson := by
  induction items with
  | nil => rfl
  | cons v rest ih => rw [ofJsonItems, ih, List.map_cons]

/-- Names are taken over as strings. -/
theorem ofJsonEntries_eq_map (es : Entries Json) :
    ofJsonEntries es = es.map fun e => (.str e.1, ofJson e.2) := by
  induction es with
  | nil => rfl
  | cons e rest ih => rw [ofJsonEntries, ih, List.map_cons]

/-- The depth that can be gone through with some calls is one more with two calls more. -/
private theorem le_conversion_iff {calls n : Nat} :
    Json.conversionCalls ≤ calls ∧ n ≤ (calls - Json.conversionCalls) / Json.conversionCalls ↔
      n + 1 ≤ calls / Json.conversionCalls := by
  simp only [Json.conversionCalls]
  omega

/-- A JSON value is converted exactly if it is nested at most half as deeply as calls are left. -/
theorem fault?_ofJson_eq_none_iff {calls : Nat} {v : Json} :
    (ofJson v).fault? calls = none ↔ v.depth ≤ calls / Json.conversionCalls := by
  -- a level of the value is a level of the conversion; the names can always be shown
  induction v using Json.inductionOn generalizing calls with
  | null | bool _ | int _ | float _ | str _ => exact iff_of_true rfl (Nat.zero_le _)
  | arr items ih =>
    rw [ofJson, ofJsonItems_eq_map, show list = ItemsKind.list.make from rfl,
      fault?_items_eq_none_iff, List.forall_mem_map, Json.depth, ← le_conversion_iff,
      Json.depthOfItems_le_iff]
    exact and_congr_right fun _ => forall₂_congr fun v hv => ih v hv
  | obj es ih =>
    rw [ofJson, ofJsonEntries_eq_map, show mapping = EntriesKind.mapping.make from rfl,
      fault?_entries_eq_none_iff, List.forall_mem_map, Json.depth, ← le_conversion_iff,
      Json.depthOfEntries_le_iff]
    refine and_congr_right fun _ => forall₂_congr fun e he => ?_
    exact (and_iff_right rfl).trans (ih e he)

end FormSchema.Datum
