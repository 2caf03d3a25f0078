import FormSchema.Proofs.Datum.Canonical

/-!
# Data up to the order of their parts

The entries of a mapping stand in the order in which they were put in, and a set is gone through in
some order; neither is part of the value.  The canonical text does not see the first, unless two
keys of one mapping are shown alike or a key itself shows an order.  It does see the second: the
members of a set are written in the order in which they come.
-/

namespace FormSchema.Datum

/-! ## Section 1: Rearrangements -/

/-- `Rearranged sets d e`: the same value but for the order in which entries were put into mappings
and, if `sets` allows it, the order in which sets are gone through, at any depth. -/
inductive Rearranged (sets : Bool) : Datum → Datum → Prop
  | refl (d : Datum) : Rearranged sets d d
  | trans {d e f : Datum} (hde : Rearranged sets d e) (hef : Rearranged sets e f) :
      Rearranged sets d f
  | entries (kind : EntriesKind) {es fs : List (Datum × Datum)} (h : es.Perm fs) :
      Rearranged sets (kind.make es) (kind.make fs)
  | members (kind : ItemsKind) (hkind : (sets && kind.isSet) = true) {items others : List Datum}
      (h : items.Perm others) : Rearranged sets (kind.make items) (kind.make others)
  | item (kind : ItemsKind) (before after : List Datum) {d e : Datum} (h : Rearranged sets d e) :
      Rearranged sets (kind.make (before ++ d :: after)) (kind.make (before ++ e :: after))
  | key (kind : EntriesKind) (before after : List (Datum × Datum)) (value : Datum) {k l : Datum}
      (h : Rearranged sets k l) :
      Rearranged sets (kind.make (before ++ (k, value) :: after))
        (kind.make (before ++ (l, value) :: after))
  | value (kind : EntriesKind) (before after : List (Datum × Datum)) (key : Datum) {d e : Datum}
      (h : Rearranged sets d e) :
      Rearranged sets (kind.make (before ++ (key, d) :: after))
        (kind.make (before ++ (key, e) :: after))
  | field (type : Text) (ownForm : Bool) (before after : Entries Datum) (name : Text)
      {d e : Datum} (h : Rearranged sets d e) :
      Rearranged sets (.record type ownForm (before ++ (name, d) :: after))
        (.record type ownForm (before ++ (name, e) :: after))

variable {sets : Bool} {d e : Datum}

/-! ## Section 2: Canonical forms -/

/-- The normal form of a datum with all names sorted, of which its canonical text is made. -/
def form (d : Datum) : Json := d.normalForm.sortNames

private theorem form_items (kind : ItemsKind) (items : List Datum) :
    (kind.make items).form = .arr (items.map form) := by
  rw [form, normalForm_items, Json.sortNames_arr, List.map_map]
  rfl

/-- Keys as they are shown, each with the canonical form of its value. -/
def shownEntries (es : List (Datum × Datum)) : Entries Json :=
  es.map fun e => (e.1.display, e.2.form)

private theorem form_entries (kind : EntriesKind) (es : List (Datum × Datum)) :
    (kind.make es).form = .obj (Json.sortByName (Entries.ofMembers (shownEntries es))) := by
  rw [form, normalForm_entries, Json.sortNames_obj, Entries.ofMembers_map, List.map_map]
  rfl

private theorem form_record (type : Text) (ownForm : Bool) (fields : Entries Datum) :
    (record type ownForm fields).form =
      .obj (Json.sortByName (fields.map fun f => (f.1, f.2.form))) := by
  rw [form, normalForm_record, Json.sortNames_obj, List.map_map]
  rfl

/-! ## Section 3: Data with one order -/

mutual

/-- Whether nothing in a datum can be put in another order: no mapping in it has more than one entry
and, if `sets` allows another order of sets, no set has more than one item. -/
def HasOneOrder (sets : Bool) : Datum → Prop
  | list items => HaveOneOrder sets items
  | tuple items => HaveOneOrder sets items
  | set items => (sets = true → items.length ≤ 1) ∧ HaveOneOrder sets items
  | frozenSet items => (sets = true → items.length ≤ 1) ∧ HaveOneOrder sets items
  | mapping es => es.length ≤ 1 ∧ EntriesHaveOneOrder sets es
  | view es => es.length ≤ 1 ∧ EntriesHaveOneOrder sets es
  | record _ _ fields => FieldsHaveOneOrder sets fields
  | _ => True

/-- Whether nothing in some items can be put in another order. -/
def HaveOneOrder (sets : Bool) : List Datum → Prop
  | [] => True
  | d :: rest => HasOneOrder sets d ∧ HaveOneOrder sets rest

/-- Whether nothing in the keys and values of some entries can be put in another order. -/
def EntriesHaveOneOrder (sets : Bool) : List (Datum × Datum) → Prop
  | [] => True
  | (k, d) :: rest => HasOneOrder sets k ∧ HasOneOrder sets d ∧ EntriesHaveOneOrder sets rest

/-- Whether nothing in some fields can be put in another order. -/
def FieldsHaveOneOrder (sets : Bool) : List (Text × Datum) → Prop
  | [] => True
  | (_, d) :: rest => HasOneOrder sets d ∧ FieldsHaveOneOrder sets rest

end

private theorem haveOneOrder_iff {items : List Datum} :
    HaveOneOrder sets items ↔ ∀ d ∈ items, d.HasOneOrder sets := by
  induction items with
  | nil => exact iff_of_true trivial nofun
  | cons d rest ih => rw [HaveOneOrder, ih, List.forall_mem_cons]

private theorem entriesHaveOneOrder_iff {es : List (Datum × Datum)} :
    EntriesHaveOneOrder sets es ↔ ∀ e ∈ es, e.1.HasOneOrder sets ∧ e.2.HasOneOrder sets := by
  induction es with
  | nil => exact iff_of_true trivial nofun
  | cons e rest ih => rw [EntriesHaveOneOrder, ih, List.forall_mem_cons, and_assoc]

private theorem fieldsHaveOneOrder_iff {fields : Entries Datum} :
    FieldsHaveOneOrder sets fields ↔ ∀ f ∈ fields, f.2.HasOneOrder sets := by
  induction fields with
  | nil => exact iff_of_true trivial nofun
  | cons f rest ih => rw [FieldsHaveOneOrder, ih, List.forall_mem_cons]

private theorem hasOneOrder_items_iff {kind : ItemsKind} {items : List Datum} :
    (kind.make items).HasOneOrder sets ↔
      ((sets && kind.isSet) = true → items.length ≤ 1) ∧ ∀ d ∈ items, d.HasOneOrder sets := by
  cases kind <;> simp [ItemsKind.make, ItemsKind.isSet, HasOneOrder, haveOneOrder_iff]

private theorem hasOneOrder_entries_iff {kind : EntriesKind} {es : List (Datum × Datum)} :
    (kind.make es).HasOneOrder sets ↔
      es.length ≤ 1 ∧ ∀ e ∈ es, e.1.HasOneOrder sets ∧ e.2.HasOneOrder sets := by
  cases kind <;> rw [EntriesKind.make, HasOneOrder, entriesHaveOneOrder_iff]

/-- A list of at most one item has one order. -/
theorem eq_of_perm_of_length_le_one {α : Type} {xs ys : List α} (h : xs.Perm ys)
    (hlength : xs.length ≤ 1) : ys = xs := by
  match xs, hlength with
  | [], _ => exact h.symm.eq_nil
  | [x], _ => exact List.perm_singleton.mp h.symm

/-- What has one order is rearranged as itself only. -/
theorem Rearranged.eq_of_hasOneOrder (h : Rearranged sets d e) (hd : d.HasOneOrder sets) :
    e = d := by
  -- one case for each place where an order could show
  induction h with
  | refl d => rfl
  | trans hde hef ihde ihef =>
    obtain rfl := ihde hd
    exact ihef hd
  | entries kind hperm =>
    rw [eq_of_perm_of_length_le_one hperm (hasOneOrder_entries_iff.mp hd).1]
  | members kind hkind hperm =>
    rw [eq_of_perm_of_length_le_one hperm ((hasOneOrder_items_iff.mp hd).1 hkind)]
  | @item kind before after d e h ih =>
    have hmem : d ∈ before ++ d :: after := by simp
    rw [ih ((hasOneOrder_items_iff.mp hd).2 d hmem)]
  | @key kind before after value k l h ih =>
    have hmem : (k, value) ∈ before ++ (k, value) :: after := by simp
    rw [ih ((hasOneOrder_entries_iff.mp hd).2 _ hmem).1]
  | @value kind before after key d e h ih =>
    have hmem : (key, d) ∈ before ++ (key, d) :: after := by simp
    rw [ih ((hasOneOrder_entries_iff.mp hd).2 _ hmem).2]
  | @field type ownForm before after name d e h ih =>
    have hmem : (name, d) ∈ before ++ (name, d) :: after := by simp
    rw [HasOneOrder, fieldsHaveOneOrder_iff] at hd
    rw [ih (hd _ hmem)]

/-! ## Section 4: Steady data -/

/-- Whether the members of a set have one canonical form, so that their order does not show. -/
def MembersAlike (items : List Datum) : Prop :=
  ∀ u ∈ items.map form, ∀ v ∈ items.map form, u = v

/-- Whether keys that are shown alike stand for values of one canonical form, so that it does not
show which of them comes last. -/
def KeysApart (es : List (Datum × Datum)) : Prop :=
  ∀ a ∈ shownEntries es, ∀ b ∈ shownEntries es, a.1 = b.1 → a.2 = b.2

mutual

/-- Whether no order shows in the canonical form of a datum: that of the entries of its mappings,
and, if `sets` allows another order of sets, that of the members of its sets. -/
def Steady (sets : Bool) : Datum → Prop
  | list items => SteadyItems sets items
  | tuple items => SteadyItems sets items
  | set items => (sets = true → MembersAlike items) ∧ SteadyItems sets items
  | frozenSet items => (sets = true → MembersAlike items) ∧ SteadyItems sets items
  | mapping es => KeysApart es ∧ SteadyEntries sets es
  | view es => KeysApart es ∧ SteadyEntries sets es
  | record _ _ fields => SteadyFields sets fields
  | _ => True

/-- Whether no order shows in the canonical forms of some items. -/
def SteadyItems (sets : Bool) : List Datum → Prop
  | [] => True
  | d :: rest => Steady sets d ∧ SteadyItems sets rest

/-- Whether no order shows in the keys of some entries and in the canonical forms of their values.
-/
def SteadyEntries (sets : Bool) : List (Datum × Datum) → Prop
  | [] => True
  | (k, d) :: rest => HasOneOrder sets k ∧ Steady sets d ∧ SteadyEntries sets rest

/-- Whether no order shows in the canonical forms of some fields. -/
def SteadyFields (sets : Bool) : List (Text × Datum) → Prop
  | [] => True
  | (_, d) :: rest => Steady sets d ∧ SteadyFields sets rest

end

private theorem steadyItems_iff {items : List Datum} :
    SteadyItems sets items ↔ ∀ d ∈ items, d.Steady sets := by
  induction items with
  | nil => exact iff_of_true trivial nofun
  | cons d rest ih => rw [SteadyItems, ih, List.forall_mem_cons]

private theorem steadyEntries_iff {es : List (Datum × Datum)} :
    SteadyEntries sets es ↔ ∀ e ∈ es, e.1.HasOneOrder sets ∧ e.2.Steady sets := by
  induction es with
  | nil => exact iff_of_true trivial nofun
  | cons e rest ih => rw [SteadyEntries, ih, List.forall_mem_cons, and_assoc]

private theorem steadyFields_iff {fields : Entries Datum} :
    SteadyFields sets fields ↔ ∀ f ∈ fields, f.2.Steady sets := by
  induction fields with
  | nil => exact iff_of_true trivial nofun
  | cons f rest ih => rw [SteadyFields, ih, List.forall_mem_cons]

private theorem steady_items_iff (kind : ItemsKind) {items : List Datum} :
    (kind.make items).Steady sets ↔
      ((sets && kind.isSet) = true → MembersAlike items) ∧ ∀ d ∈ items, d.Steady sets := by
  cases kind <;> simp [ItemsKind.make, ItemsKind.isSet, Steady, steadyItems_iff]

private theorem steady_entries_iff (kind : EntriesKind) {es : List (Datum × Datum)} :
    (kind.make es).Steady sets ↔
      KeysApart es ∧ ∀ e ∈ es, e.1.HasOneOrder sets ∧ e.2.Steady sets := by
  cases kind <;> rw [EntriesKind.make, Steady, steadyEntries_iff]

private theorem steady_record_iff {type : Text} {ownForm : Bool} {fields : Entries Datum} :
    (record type ownForm fields).Steady sets ↔ ∀ f ∈ fields, f.2.Steady sets := by
  rw [Steady, steadyFields_iff]

/-! ## Section 5: Orders that do not show -/

/-- Where keys are apart, the object of some entries does not depend on their order. -/
theorem form_entries_of_perm (kind : EntriesKind) {es fs : List (Datum × Datum)} (h : es.Perm fs)
    (hes : KeysApart es) : KeysApart fs ∧ (kind.make fs).form = (kind.make es).form := by
  have hperm : (shownEntries es).Perm (shownEntries fs) := h.map _
  have hfs : KeysApart fs :=
    fun a ha b hb => hes a (hperm.mem_iff.mpr ha) b (hperm.mem_iff.mpr hb)
  refine ⟨hfs, ?_⟩
  rw [form_entries, form_entries]
  -- no two keys are shown alike, so that every name has one value in either order
  refine congrArg Json.obj (Json.sortByName_eq_of_get? (Entries.distinct_ofMembers _)
    (Entries.distinct_ofMembers _) fun name => Option.ext fun v => ?_)
  rw [Entries.get?_ofMembers_eq_some_iff hfs, Entries.get?_ofMembers_eq_some_iff hes,
    hperm.mem_iff]

/-- Where all members of a set are alike, their list does not depend on their order. -/
theorem form_items_of_perm (kind : ItemsKind) {items others : List Datum} (h : items.Perm others)
    (hitems : MembersAlike items) :
    MembersAlike others ∧ (kind.make others).form = (kind.make items).form := by
  have hperm : (items.map form).Perm (others.map form) := h.map form
  refine ⟨fun u hu v hv => hitems u (hperm.mem_iff.mpr hu) v (hperm.mem_iff.mpr hv), ?_⟩
  rw [form_items, form_items]
  refine congrArg Json.arr ?_
  unfold MembersAlike at hitems
  generalize items.map form = us at hperm hitems
  cases us with
  | nil => exact hperm.symm.eq_nil
  | cons u us =>
    -- a list in which nothing but `u` occurs
    have hsame : ∀ v ∈ u :: us, v = u := fun v hv => hitems v hv u List.mem_cons_self
    rw [List.eq_replicate_of_mem hsame]
    refine List.eq_replicate_iff.mpr ⟨hperm.length_eq.symm, fun v hv => ?_⟩
    exact hsame v (hperm.mem_iff.mpr hv)

/-- A rearrangement of a steady datum is steady and has the same canonical form. -/
theorem Rearranged.form_eq (h : Rearranged sets d e) (hd : d.Steady sets) :
    e.Steady sets ∧ e.form = d.form := by
  induction h with
  | refl d => exact ⟨hd, rfl⟩
  | trans hde hef ihde ihef =>
    obtain ⟨he, hformde⟩ := ihde hd
    obtain ⟨hf, hformef⟩ := ihef he
    exact ⟨hf, hformef.trans hformde⟩
  | entries kind hperm =>
    obtain ⟨hapart, hparts⟩ := (steady_entries_iff _).mp hd
    obtain ⟨hapart', hform⟩ := form_entries_of_perm kind hperm hapart
    refine ⟨(steady_entries_iff _).mpr ⟨hapart', fun a ha => ?_⟩, hform⟩
    exact hparts a (hperm.mem_iff.mpr ha)
  | members kind hkind hperm =>
    obtain ⟨halike, hparts⟩ := (steady_items_iff _).mp hd
    obtain ⟨halike', hform⟩ := form_items_of_perm kind hperm (halike hkind)
    refine ⟨(steady_items_iff _).mpr ⟨fun _ => halike', fun a ha => ?_⟩, hform⟩
    exact hparts a (hperm.mem_iff.mpr ha)
  | @item kind before after d e h ih =>
    obtain ⟨halike, hparts⟩ := (steady_items_iff _).mp hd
    rw [List.forall_mem_append, List.forall_mem_cons] at hparts
    obtain ⟨he, hform⟩ := ih hparts.2.1
    have hforms : (before ++ e :: after).map form = (before ++ d :: after).map form := by
      simp only [List.map_append, List.map_cons, hform]
    rw [form_items, form_items, hforms]
    refine ⟨(steady_items_iff _).mpr ⟨?_, ?_⟩, rfl⟩
    · rwa [MembersAlike, hforms]
    · rw [List.forall_mem_append, List.forall_mem_cons]
      exact ⟨hparts.1, he, hparts.2.2⟩
  | @key kind before after value k l h ih =>
    -- a key that shows no order is the same key
    have hkey := (((steady_entries_iff _).mp hd).2 (k, value) (by simp)).1
    rw [h.eq_of_hasOneOrder hkey]
    exact ⟨hd, rfl⟩
  | @value kind before after key d e h ih =>
    obtain ⟨hapart, hparts⟩ := (steady_entries_iff _).mp hd
    rw [List.forall_mem_append, List.forall_mem_cons] at hparts
    obtain ⟨he, hform⟩ := ih hparts.2.1.2
    have hshown : shownEntries (before ++ (key, e) :: after) =
        shownEntries (before ++ (key, d) :: after) := by
      simp only [shownEntries, List.map_append, List.map_cons, hform]
    rw [form_entries, form_entries, hshown]
    refine ⟨(steady_entries_iff _).mpr ⟨?_, ?_⟩, rfl⟩
    · rwa [KeysApart, hshown]
    · rw [List.forall_mem_append, List.forall_mem_cons]
      exact ⟨hparts.1, ⟨hparts.2.1.1, he⟩, hparts.2.2⟩
  | @field type ownForm before after name d e h ih =>
    rw [steady_record_iff, List.forall_mem_append, List.forall_mem_cons] at hd
    obtain ⟨he, hform⟩ := ih hd.2.1
    refine ⟨?_, ?_⟩
    · rw [steady_record_iff, List.forall_mem_append, List.forall_mem_cons]
      exact ⟨hd.1, he, hd.2.2⟩
    · simp only [form_record, List.map_append, List.map_cons, hform]

/-! ## Section 6: Copies -/

private theorem anyHasRecord_eq_any (items : List Datum) :
    anyHasRecord items = items.any hasRecord := by
  induction items with
  | nil => rfl
  | cons d rest ih => rw [anyHasRecord, ih, List.any_cons]

/-- A rearrangement keeps the records in a key. -/
theorem Rearranged.hasRecord_eq (h : Rearranged sets d e) : e.hasRecord = d.hasRecord := by
  -- only tuples are looked into, and a tuple has one order
  induction h with
  | refl d => rfl
  | trans hde hef ihde ihef => exact ihef.trans ihde
  | entries kind hperm => cases kind <;> rfl
  | members kind hkind hperm =>
    cases kind with
    | list | set | frozenSet => rfl
    | tuple => exact absurd hkind (by simp [ItemsKind.isSet])
  | item kind before after h ih =>
    cases kind with
    | list | set | frozenSet => rfl
    | tuple =>
      simp only [ItemsKind.make, hasRecord, anyHasRecord_eq_any, List.any_append, List.any_cons, ih]
  | key kind before after value h ih => cases kind <;> rfl
  | value kind before after key h ih => cases kind <;> rfl
  | field type ownForm before after name h ih => rfl

section Faults

variable {calls : Nat}

/-- A rearrangement can be shown exactly if the datum can. -/
theorem Rearranged.showFault_iff (h : Rearranged sets d e) :
    e.showFault? calls = none ↔ d.showFault? calls = none := by
  -- each part is shown with as many calls in either order
  induction h generalizing calls with
  | refl d => exact .rfl
  | trans hde hef ihde ihef => exact ihef.trans ihde
  | entries kind hperm => simp only [showFault?_entries_eq_none_iff, hperm.mem_iff]
  | members kind hkind hperm => simp only [showFault?_items_eq_none_iff, hperm.mem_iff]
  | item kind before after h ih =>
    simp only [showFault?_items_eq_none_iff, List.forall_mem_append, List.forall_mem_cons, ih]
  | key kind before after value h ih | value kind before after key h ih =>
    simp only [showFault?_entries_eq_none_iff, List.forall_mem_append, List.forall_mem_cons, ih]
  | field type ownForm before after name h ih =>
    simp only [showFault?_record_eq_none_iff, List.forall_mem_append, List.forall_mem_cons, ih]

/-- A rearrangement can be copied exactly if the datum can. -/
theorem Rearranged.copyFault_iff (h : Rearranged sets d e) :
    e.copyFault? calls = none ↔ d.copyFault? calls = none := by
  -- a mapping is gone through entry by entry, and a view is a fault by itself
  induction h generalizing calls with
  | refl d => exact .rfl
  | trans hde hef ihde ihef => exact ihef.trans ihde
  | entries kind hperm =>
    cases kind with
    | mapping => simp only [EntriesKind.make, copyFault?_mapping_eq_none_iff, hperm.mem_iff]
    | view => exact .rfl
  | members kind hkind hperm => simp only [copyFault?_items_eq_none_iff, hperm.mem_iff]
  | item kind before after h ih =>
    simp only [copyFault?_items_eq_none_iff, List.forall_mem_append, List.forall_mem_cons, ih]
  | key kind before after value h ih =>
    cases kind with
    | mapping =>
      simp only [EntriesKind.make, copyFault?_mapping_eq_none_iff, List.forall_mem_append,
        List.forall_mem_cons, ih, h.hasRecord_eq]
    | view => exact .rfl
  | value kind before after key h ih =>
    cases kind with
    | mapping =>
      simp only [EntriesKind.make, copyFault?_mapping_eq_none_iff, List.forall_mem_append,
        List.forall_mem_cons, ih]
    | view => exact .rfl
  | field type ownForm before after name h ih =>
    simp only [copyFault?_record_eq_none_iff, List.forall_mem_append, List.forall_mem_cons, ih]

/-- A rearrangement can be converted exactly if the datum can. -/
theorem Rearranged.fault_iff (h : Rearranged sets d e) :
    e.fault? calls = none ↔ d.fault? calls = none := by
  induction h generalizing calls with
  | refl d => exact .rfl
  | trans hde hef ihde ihef => exact ihef.trans ihde
  | entries kind hperm => simp only [fault?_entries_eq_none_iff, hperm.mem_iff]
  | members kind hkind hperm => simp only [fault?_items_eq_none_iff, hperm.mem_iff]
  | item kind before after h ih =>
    simp only [fault?_items_eq_none_iff, List.forall_mem_append, List.forall_mem_cons, ih]
  | key kind before after value h ih =>
    simp only [fault?_entries_eq_none_iff, List.forall_mem_append, List.forall_mem_cons,
      h.showFault_iff]
  | value kind before after key h ih =>
    simp only [fault?_entries_eq_none_iff, List.forall_mem_append, List.forall_mem_cons, ih]
  | field type ownForm before after name h ih =>
    -- the fields of a record without a form of its own are copied first
    simp only [fault?_record_eq_none_iff, List.forall_mem_append, List.forall_mem_cons,
      h.copyFault_iff, ih]

end Faults

/-! ## Section 7: Texts -/

/-- The text of a canonical form. -/
def formText (indent : Option Nat) (v : Json) : Text :=
  Json.print (Json.canonicalStyle indent) v ++ [.lineFeed]

/-- The canonical text of a datum is that of its form, if it is converted and its form is written.
-/
theorem toOption_canonical (d : Datum) (indent : Option Nat) :
    (d.canonical indent).toOption =
      if d.fault? Json.callsLeft = none ∧ d.form.encodeFault? Json.callsLeft = none then
        some (formText indent d.form)
      else none := by
  rw [canonical, ← form]
  -- two steps can fail, and which of them does is not looked at
  cases d.fault? Json.callsLeft with
  | some f => rfl
  | none =>
    cases d.form.encodeFault? Json.callsLeft with
    | some f => rfl
    | none => rfl

/-- Rearrangements of a steady datum have one canonical text, or none has any. -/
theorem Rearranged.text_eq (h : Rearranged sets d e) (hd : d.Steady sets) (indent : Option Nat) :
    (e.canonical indent).toOption = (d.canonical indent).toOption := by
  simp only [toOption_canonical, (h.form_eq hd).2, h.fault_iff]

/-- Data that are converted with so many calls left and whose text is read back. -/
structure Written (calls : Nat) (d : Datum) : Prop where
  fault : d.fault? calls = none
  writable : d.Writable

variable {calls : Nat} {indent : Option Nat}

/-- Data that are written have the same text exactly if they have the same form. -/
theorem Written.canonical_eq_iff (hd : d.Written Json.callsLeft) (he : e.Written Json.callsLeft) :
    d.canonical indent = e.canonical indent ↔ d.form = e.form := by
  -- both forms are written, and what is written says what was meant
  have hdread : d.normalForm.ReadBack Json.conversionDepth := hd.writable.readBack hd.fault
  have heread : e.normalForm.ReadBack Json.conversionDepth := he.writable.readBack he.fault
  rw [canonical_of_fits hd.fault (hdread.mono Json.conversionDepth_le).fits,
    canonical_of_fits he.fault (heread.mono Json.conversionDepth_le).fits, Except.ok.injEq,
    Json.canonical_eq_iff hdread.isExact heread.isExact hdread.distinct heread.distinct,
    ← Json.sortNames_eq_iff hdread.distinct heread.distinct]
  rfl

private theorem written_items (kind : ItemsKind) {items : List Datum}
    (h : ∀ d ∈ items, d.Written calls) :
    (kind.make items).Written (calls + Json.conversionCalls) where
  fault := by
    rw [fault?_items_eq_none_iff, Nat.add_sub_cancel]
    exact ⟨Nat.le_add_left _ _, fun d hd => (h d hd).fault⟩
  writable := .items kind fun d hd => (h d hd).writable

private theorem written_entries (kind : EntriesKind) {es : List (Datum × Datum)}
    (hkeys : ∀ e ∈ es, e.1.showFault? calls = none) (h : ∀ e ∈ es, e.2.Written calls) :
    (kind.make es).Written (calls + Json.conversionCalls) where
  fault := by
    rw [fault?_entries_eq_none_iff, Nat.add_sub_cancel]
    exact ⟨Nat.le_add_left _ _, fun e he => ⟨hkeys e he, (h e he).fault⟩⟩
  writable := .entries kind fun e he => (h e he).writable

/-! ## Section 8: Orders that show -/

/-- The calls that are left for the parts of a collection which is converted. -/
def partCalls : Nat := Json.callsLeft - Json.conversionCalls

/-- Items have one text in all orders exactly if they are alike. -/
theorem items_one_text_iff (kind : ItemsKind) {items : List Datum}
    (h : ∀ d ∈ items, d.Written partCalls) :
    (∀ others, items.Perm others →
      (kind.make others).canonical indent = (kind.make items).canonical indent) ↔
      MembersAlike items := by
  have hothers {others : List Datum} (hperm : items.Perm others) :
      (kind.make others).Written Json.callsLeft :=
    written_items kind fun d hd => h d (hperm.mem_iff.mpr hd)
  constructor
  · intro hsame u hu v hv
    -- any item can be put in front
    have hfirst {d : Datum} (hd : d ∈ items) :
        ∃ rest, (kind.make items).form = .arr (d.form :: rest) := by
      obtain ⟨before, after, rfl⟩ := List.append_of_mem hd
      have hperm : (before ++ d :: after).Perm (d :: (before ++ after)) := List.perm_middle
      refine ⟨(before ++ after).map form, ?_⟩
      rw [← ((hothers hperm).canonical_eq_iff (hothers .rfl)).mp (hsame _ hperm), form_items,
        List.map_cons]
    obtain ⟨d, hd, rfl⟩ := List.mem_map.mp hu
    obtain ⟨e, he, rfl⟩ := List.mem_map.mp hv
    obtain ⟨rest, hrest⟩ := hfirst hd
    obtain ⟨rest', hrest'⟩ := hfirst he
    exact (List.cons.inj (Json.arr.inj (hrest.symm.trans hrest'))).1
  · intro halike others hperm
    exact ((hothers hperm).canonical_eq_iff (hothers .rfl)).mpr
      (form_items_of_perm kind hperm halike).2

/-- Entries have one text in all orders exactly if their keys are apart. -/
theorem entries_one_text_iff (kind : EntriesKind) {es : List (Datum × Datum)}
    (hkeys : ∀ e ∈ es, e.1.showFault? partCalls = none)
    (h : ∀ e ∈ es, e.2.Written partCalls) :
    (∀ fs, es.Perm fs →
      (kind.make fs).canonical indent = (kind.make es).canonical indent) ↔ KeysApart es := by
  have hothers {fs : List (Datum × Datum)} (hperm : es.Perm fs) :
      (kind.make fs).Written Json.callsLeft :=
    written_entries kind (fun e he => hkeys e (hperm.mem_iff.mpr he)) fun e he =>
      h e (hperm.mem_iff.mpr he)
  constructor
  · intro hsame a ha b hb hname
    -- any entry can be put in last, and then it is the one that is kept of its name
    have hlast {c : Text × Json} (hc : c ∈ shownEntries es) :
        c ∈ Entries.ofMembers (shownEntries es) := by
      obtain ⟨e, he, rfl⟩ := List.mem_map.mp hc
      obtain ⟨before, after, rfl⟩ := List.append_of_mem he
      have hperm : (before ++ e :: after).Perm (before ++ after ++ [e]) :=
        List.perm_middle.trans (List.perm_append_singleton e _).symm
      have hform := ((hothers hperm).canonical_eq_iff (hothers .rfl)).mp (hsame _ hperm)
      rw [form_entries, form_entries] at hform
      rw [← Json.mem_sortByName, ← Json.obj.inj hform, Json.mem_sortByName]
      apply Entries.mem_of_get?
      rw [Entries.get?_ofMembers, shownEntries, List.map_append, List.reverse_append]
      exact if_pos rfl
    have hdistinct := Entries.distinct_ofMembers (shownEntries es)
    have hget := Entries.get?_of_mem hdistinct (hlast ha)
    rw [hname, Entries.get?_of_mem hdistinct (hlast hb)] at hget
    exact (Option.some.inj hget).symm
  · intro hapart fs hperm
    exact ((hothers hperm).canonical_eq_iff (hothers .rfl)).mpr
      (form_entries_of_perm kind hperm hapart).2

/-- Data that differ in nothing but the order in which entries were put into mappings and sets are
gone through have one canonical text, or none has any, provided that no order shows in them.  This
is as much as can be said of data whose parts can be shown and written: a set has one text in all
orders only if its members are alike, and a mapping only if values whose keys are shown alike are.
-/
theorem canonical_up_to_order (indent : Option Nat) :
    (∀ (sets : Bool) (d e : Datum), Rearranged sets d e → d.Steady sets →
      (e.canonical indent).toOption = (d.canonical indent).toOption) ∧
    (∀ (kind : ItemsKind) (items : List Datum), (∀ d ∈ items, d.Written partCalls) →
      ((∀ others, items.Perm others →
        (kind.make others).canonical indent = (kind.make items).canonical indent) ↔
          MembersAlike items)) ∧
    ∀ (kind : EntriesKind) (es : List (Datum × Datum)),
      (∀ e ∈ es, e.1.showFault? partCalls = none) → (∀ e ∈ es, e.2.Written partCalls) →
      ((∀ fs, es.Perm fs →
        (kind.make fs).canonical indent = (kind.make es).canonical indent) ↔ KeysApart es) :=
  ⟨fun _ _ _ h hd => h.text_eq hd indent, fun kind _ h => items_one_text_iff kind h,
    fun kind _ hkeys h => entries_one_text_iff kind hkeys h⟩

private theorem keysApart_of_nodup {es : List (Datum × Datum)}
    (h : (es.map fun e => e.1.display).Nodup) : KeysApart es := by
  -- names that are distinct have one value each
  have hdistinct : (shownEntries es).Distinct := by
    rw [Entries.Distinct, Entries.names, shownEntries, List.map_map]
    exact h
  intro a ha b hb hname
  have hget := Entries.get?_of_mem hdistinct ha
  rw [hname, Entries.get?_of_mem hdistinct hb] at hget
  exact (Option.some.inj hget).symm

/-- A mapping in a mapping with the entries of both in two orders, a set with one member, and keys
of several kinds. -/
theorem canonical_of_ledger :
    let inner : List (Datum × Datum) := [(.null, .int 1), (.tuple [.int 2, .str "b"], .bool true)]
    let outer (inner : List (Datum × Datum)) : List (Datum × Datum) :=
      [(.int 10, .set [.str "a"]), (.str "at", .mapping inner)]
    Rearranged true (.mapping (outer inner)) (.mapping (outer inner.reverse).reverse) ∧
      (Datum.mapping (outer inner)).Steady true ∧
      ((Datum.mapping (outer inner.reverse).reverse).canonical (some 2)).toOption =
        ((Datum.mapping (outer inner)).canonical (some 2)).toOption := by
  intro inner outer
  have hrearranged :
      Rearranged true (.mapping (outer inner)) (.mapping (outer inner.reverse).reverse) := by
    refine .trans (.value .mapping [(.int 10, .set [.str "a"])] [] (.str "at") ?_)
      (.entries .mapping (List.reverse_perm _).symm)
    exact .entries .mapping (List.reverse_perm _).symm
  -- the keys are shown differently, and the set has one member
  have hsteady : (Datum.mapping (outer inner)).Steady true := by
    refine (steady_entries_iff .mapping).mpr ⟨keysApart_of_nodup (by decide), ?_⟩
    refine List.forall_mem_cons.mpr ⟨⟨trivial, ?_⟩, List.forall_mem_singleton.mpr ⟨trivial, ?_⟩⟩
    · exact (steady_items_iff .set).mpr ⟨fun _ => by simp [MembersAlike],
        List.forall_mem_singleton.mpr trivial⟩
    · refine (steady_entries_iff .mapping).mpr ⟨keysApart_of_nodup (by decide), ?_⟩
      simp [inner, HasOneOrder, HaveOneOrder, Steady]
  exact ⟨hrearranged, hsteady, (canonical_up_to_order (some 2)).1 true _ _ hrearranged hsteady⟩

/-- Two keys that are shown alike, in either order, and the two orders of a set. -/
theorem canonical_shows_order :
    let alike : List (Datum × Datum) := [(.int 1, .str "a"), (.str "1", .str "b")]
    (Rearranged true (.mapping alike) (.mapping alike.reverse) ∧
      (Datum.mapping alike).canonical (some 2) = .ok "\x7b\n  \"1\": \"b\"\n\x7d\n" ∧
      (Datum.mapping alike.reverse).canonical (some 2) = .ok "\x7b\n  \"1\": \"a\"\n\x7d\n") ∧
    Rearranged true (.set [.int 8, .int 0]) (.set [.int 0, .int 8]) ∧
      (Datum.set [.int 8, .int 0]).canonical none = .ok "[8, 0]\n" ∧
      (Datum.set [.int 0, .int 8]).canonical none = .ok "[0, 8]\n" := by
  intro alike
  -- in either order the mapping is converted and written, with the last of the two values
  have hmapping {es : List (Datum × Datum)} (hes : alike.Perm es) {s : Text}
      (hform : (Datum.mapping es).normalForm = .obj [("1", .str s)]) :
      (Datum.mapping es).canonical (some 2) =
        .ok (Json.print ⟨some 2, false, " "⟩ (.obj [("1", .str s)]) ++ [.lineFeed]) := by
    have hparts : ∀ e ∈ es, Convertible false 0 e.1 ∧ Convertible false 0 e.2 ∧ e.2.Writable := by
      simp only [← hes.mem_iff, alike, List.forall_mem_cons]
      exact ⟨⟨convertible_int (by decide), .leaf rfl, .str _⟩, ⟨.leaf rfl, .leaf rfl, .str _⟩, nofun⟩
    have hconvertible : Convertible false 1 (.mapping es) :=
      .entries .mapping nofun (fun e he => (hparts e he).1) fun e he => (hparts e he).2.1
    have hwritable : (Datum.mapping es).Writable :=
      .entries .mapping fun e he => (hparts e he).2.2
    rw [hconvertible.canonical_eq (by decide) hwritable, hform, Json.canonical,
      Json.sortNames_single]
  have hset (m n : Int) (hm : (Text.ofNat m.natAbs).length ≤ Json.maxIntegerDigits)
      (hn : (Text.ofNat n.natAbs).length ≤ Json.maxIntegerDigits) :
      (Datum.set [.int m, .int n]).canonical none =
        .ok ((Json.arr [.int m, .int n]).canonical none) := by
    have hconvertible : Convertible false 1 (.set [.int m, .int n]) :=
      .items .set (List.forall_mem_cons.mpr ⟨convertible_int hm,
        List.forall_mem_singleton.mpr (convertible_int hn)⟩)
    have hwritable : (Datum.set [.int m, .int n]).Writable :=
      .items .set (List.forall_mem_cons.mpr ⟨.int hm, List.forall_mem_singleton.mpr (.int hn)⟩)
    exact hconvertible.canonical_eq (by decide) hwritable none
  refine ⟨⟨.entries .mapping (List.reverse_perm _).symm, hmapping .rfl rfl,
    hmapping (List.reverse_perm _).symm rfl⟩, .members .set rfl (.swap _ _ _), ?_, ?_⟩
  · exact hset 8 0 (by decide) (by decide)
  · exact hset 0 8 (by decide) (by decide)

end FormSchema.Datum
