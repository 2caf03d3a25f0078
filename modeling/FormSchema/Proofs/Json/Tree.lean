import FormSchema.Json.Fault
import FormSchema.Json.Printer
import FormSchema.Proofs.Entries
import Mathlib.Algebra.Group.Nat.Defs

/-!
# Values as trees

The values inside a value, and what it means that a property holds of all of them.  Properties of
whole trees are proved with `Json.inductionOn`, which hands over the parts of an array or object by
membership; the recursive functions on values are brought into the same form here.
-/

namespace FormSchema.Json

/-! ## Section 1: Induction -/

/-- Induction on a value, with the items of an array and the entries of an object by membership. -/
@[elab_as_elim]
theorem inductionOn {motive : Json → Prop} (v : Json)
    (null : motive .null) (bool : ∀ b, motive (.bool b)) (int : ∀ n, motive (.int n))
    (float : ∀ x, motive (.float x)) (str : ∀ s, motive (.str s))
    (arr : ∀ items, (∀ v ∈ items, motive v) → motive (.arr items))
    (obj : ∀ es : Entries Json, (∀ e ∈ es, motive e.2) → motive (.obj es)) : motive v := by
  -- the motives for lists and pairs say that the parts have the property
  refine @Json.rec motive (fun items => ∀ v ∈ items, motive v) (fun es => ∀ e ∈ es, motive e.2)
    (fun e => motive e.2) null bool int float str arr obj ?_ ?_ ?_ ?_ ?_ v
  · intro v hv
    exact absurd hv List.not_mem_nil
  · intro v items hv hitems
    exact List.forall_mem_cons.mpr ⟨hv, hitems⟩
  · intro e he
    exact absurd he List.not_mem_nil
  · intro e es he hes
    exact List.forall_mem_cons.mpr ⟨he, hes⟩
  · intro name v hv
    exact hv

/-! ## Section 2: Parts -/

/-- A value and all values inside it. -/
def parts : Json → List Json
  | arr items => arr items :: partsOfItems items
  | obj es => obj es :: partsOfEntries es
  | v => [v]
where
  /-- The parts of the items of an array. -/
  partsOfItems : List Json → List Json
    | [] => []
    | v :: rest => parts v ++ partsOfItems rest
  /-- The parts of the values of an object. -/
  partsOfEntries : List (Text × Json) → List Json
    | [] => []
    | (_, v) :: rest => parts v ++ partsOfEntries rest

/-- The parts of some items are those of each. -/
theorem partsOfItems_eq_flatMap (items : List Json) :
    parts.partsOfItems items = items.flatMap parts := by
  induction items with
  | nil => rfl
  | cons v rest ih => rw [parts.partsOfItems, ih, List.flatMap_cons]

/-- The parts of some entries are those of their values. -/
theorem partsOfEntries_eq_flatMap (es : Entries Json) :
    parts.partsOfEntries es = es.flatMap fun e => parts e.2 := by
  induction es with
  | nil => rfl
  | cons e rest ih => rw [parts.partsOfEntries, ih, List.flatMap_cons]

/-- A property that a value and all values inside it have. -/
def Every (p : Json → Prop) (v : Json) : Prop := ∀ u ∈ v.parts, p u

instance (p : Json → Prop) [DecidablePred p] (v : Json) : Decidable (v.Every p) :=
  inferInstanceAs (Decidable (∀ u ∈ v.parts, p u))

section Every

variable {p : Json → Prop}

/-- A property holds of all parts of an array if it holds of the array and of all parts of its
items. -/
theorem every_arr {items : List Json} :
    Every p (.arr items) ↔ p (.arr items) ∧ ∀ v ∈ items, Every p v := by
  simp only [Every, parts, partsOfItems_eq_flatMap, List.forall_mem_cons, List.mem_flatMap]
  exact and_congr_right fun _ => ⟨fun h v hv u hu => h u ⟨v, hv, hu⟩,
    fun h u ⟨v, hv, hu⟩ => h v hv u hu⟩

/-- A property holds of all parts of an object if it holds of the object and of all parts of its
values. -/
theorem every_obj {es : Entries Json} :
    Every p (.obj es) ↔ p (.obj es) ∧ ∀ e ∈ es, Every p e.2 := by
  simp only [Every, parts, partsOfEntries_eq_flatMap, List.forall_mem_cons, List.mem_flatMap]
  exact and_congr_right fun _ => ⟨fun h e he u hu => h u ⟨e, he, hu⟩,
    fun h u ⟨e, he, hu⟩ => h e he u hu⟩

/-- A property of all parts of a value holds of the value. -/
theorem Every.self {v : Json} (h : Every p v) : p v := by
  cases v with
  | arr items => exact (every_arr.mp h).1
  | obj es => exact (every_obj.mp h).1
  | _ => exact h _ List.mem_cons_self

/-- A value without parts of its own has the property everywhere if it has it. -/
theorem every_of_parts_eq {v : Json} (hv : v.parts = [v]) (h : p v) : Every p v := by
  rw [Every, hv]
  exact List.forall_mem_singleton.mpr h

end Every

/-! ## Section 3: Properties of parts -/

/-- A value that is neither an array nor an object. -/
def IsScalar : Json → Prop
  | arr _ => False
  | obj _ => False
  | _ => True

/-- No name of an object has two entries. -/
def HasDistinctNames : Json → Prop
  | obj es => Entries.Distinct es
  | _ => True

instance : DecidablePred HasDistinctNames := fun
  | obj es => inferInstanceAs (Decidable (Entries.Distinct es))
  | null | bool _ | int _ | float _ | str _ | arr _ => isTrue trivial

/-- Anything but a fractional number. -/
def IsExact : Json → Prop
  | float _ => False
  | _ => True

instance : DecidablePred IsExact := fun
  | float _ => isFalse id
  | null | bool _ | int _ | str _ | arr _ | obj _ => isTrue trivial

/-- An integer, if the value is one, of no more digits than are read. -/
def FitsDigits : Json → Prop
  | int n => n.natAbs < 10 ^ maxIntegerDigits
  | _ => True

instance : DecidablePred FitsDigits := fun
  | int n => inferInstanceAs (Decidable (n.natAbs < 10 ^ maxIntegerDigits))
  | null | bool _ | float _ | str _ | arr _ | obj _ => isTrue trivial

/-! ## Section 4: Depth -/

/-- Items are nested as deeply as the deepest of them. -/
theorem depthOfItems_le_iff {items : List Json} {n : Nat} :
    depth.depthOfItems items ≤ n ↔ ∀ v ∈ items, v.depth ≤ n := by
  induction items with
  | nil => simp [depth.depthOfItems]
  | cons v rest ih => rw [depth.depthOfItems, Nat.max_le, ih, List.forall_mem_cons]

/-- Entries are nested as deeply as the deepest of their values. -/
theorem depthOfEntries_le_iff {es : Entries Json} {n : Nat} :
    depth.depthOfEntries es ≤ n ↔ ∀ e ∈ es, e.2.depth ≤ n := by
  induction es with
  | nil => simp [depth.depthOfEntries]
  | cons e rest ih => rw [depth.depthOfEntries, Nat.max_le, ih, List.forall_mem_cons]

/-- An array is nested one level deeper than its items. -/
theorem depth_arr_le_iff {items : List Json} {n : Nat} :
    (arr items).depth ≤ n + 1 ↔ ∀ v ∈ items, v.depth ≤ n := by
  rw [depth, Nat.add_le_add_iff_right, depthOfItems_le_iff]

/-- An object is nested one level deeper than its values. -/
theorem depth_obj_le_iff {es : Entries Json} {n : Nat} :
    (obj es).depth ≤ n + 1 ↔ ∀ e ∈ es, e.2.depth ≤ n := by
  rw [depth, Nat.add_le_add_iff_right, depthOfEntries_le_iff]

/-- Arrays with the same bounds on the depth of their items are nested equally deeply. -/
theorem depth_arr_congr {items others : List Json}
    (h : ∀ n, (∀ v ∈ items, v.depth ≤ n) ↔ ∀ v ∈ others, v.depth ≤ n) :
    (arr items).depth = (arr others).depth := by
  simp only [← depthOfItems_le_iff] at h
  rw [depth, depth, Nat.le_antisymm ((h _).mpr (Nat.le_refl _)) ((h _).mp (Nat.le_refl _))]

/-- Objects with the same bounds on the depth of their values are nested equally deeply. -/
theorem depth_obj_congr {es others : Entries Json}
    (h : ∀ n, (∀ e ∈ es, e.2.depth ≤ n) ↔ ∀ e ∈ others, e.2.depth ≤ n) :
    (obj es).depth = (obj others).depth := by
  simp only [← depthOfEntries_le_iff] at h
  rw [depth, depth, Nat.le_antisymm ((h _).mpr (Nat.le_refl _)) ((h _).mp (Nat.le_refl _))]

/-! ## Section 5: Sorted names -/

theorem sortNamesOfItems_eq_map (items : List Json) :
    sortNamesOfItems items = items.map sortNames := by
  induction items with
  | nil => rfl
  | cons v rest ih => rw [sortNamesOfItems, ih, List.map_cons]

theorem sortNamesOfEntries_eq_map (es : Entries Json) :
    sortNamesOfEntries es = es.map fun e => (e.1, e.2.sortNames) := by
  induction es with
  | nil => rfl
  | cons e rest ih => rw [sortNamesOfEntries, ih, List.map_cons]

/-- Sorting goes through the items of an array, which keep their order. -/
theorem sortNames_arr (items : List Json) : (arr items).sortNames = .arr (items.map sortNames) := by
  rw [sortNames, sortNamesOfItems_eq_map]

/-- Sorting goes through the values of an object and then sorts its entries. -/
theorem sortNames_obj (es : Entries Json) :
    (obj es).sortNames = .obj (sortByName (es.map fun e => (e.1, e.2.sortNames))) := by
  rw [sortNames, sortNamesOfEntries_eq_map]

/-- Sorting loses no entry and adds none. -/
theorem mem_sortByName {e : Text × Json} {es : Entries Json} : e ∈ sortByName es ↔ e ∈ es :=
  List.mem_mergeSort

/-- Sorting only changes the order. -/
theorem sortByName_perm (es : Entries Json) : (sortByName es).Perm es :=
  List.mergeSort_perm es fun a b => Text.le a.1 b.1

/-- What stands in a sorted object is what stood there, sorted itself. -/
theorem forall_mem_sorted {es : Entries Json} {q : Text × Json → Prop} :
    (∀ e ∈ sortByName (es.map fun e => (e.1, e.2.sortNames)), q e) ↔
      ∀ e ∈ es, q (e.1, e.2.sortNames) := by
  simp only [mem_sortByName, List.forall_mem_map]

/-- Sorting names keeps every property of parts that it keeps of a single value. -/
theorem every_sortNames {p : Json → Prop} (hp : ∀ v, p v.sortNames ↔ p v) {v : Json} :
    v.sortNames.Every p ↔ v.Every p := by
  -- what holds of a value holds of it sorted, and the parts are the same
  induction v using inductionOn with
  | null | bool _ | int _ | float _ | str _ => exact Iff.rfl
  | arr items ih =>
    have hself := hp (.arr items)
    rw [sortNames_arr] at hself ⊢
    rw [every_arr, every_arr, hself, List.forall_mem_map]
    exact and_congr_right fun _ => forall₂_congr ih
  | obj es ih =>
    have hself := hp (.obj es)
    rw [sortNames_obj] at hself ⊢
    rw [every_obj, every_obj, hself, forall_mem_sorted]
    exact and_congr_right fun _ => forall₂_congr ih

/-- Sorting makes no name come twice. -/
theorem hasDistinctNames_sortNames (v : Json) :
    v.sortNames.HasDistinctNames ↔ v.HasDistinctNames := by
  cases v with
  | obj es =>
    rw [sortNames_obj]
    -- sorting permutes the names, and sorting below leaves them
    have hperm := (sortByName_perm (es.map fun e => (e.1, e.2.sortNames))).map Prod.fst
    rw [List.map_map] at hperm
    exact hperm.nodup_iff
  | _ => exact Iff.rfl

/-- Sorting leaves numbers as they are. -/
theorem isExact_sortNames (v : Json) : v.sortNames.IsExact ↔ v.IsExact := by
  cases v <;> exact Iff.rfl

/-- Sorting leaves integers as they are. -/
theorem fitsDigits_sortNames (v : Json) : v.sortNames.FitsDigits ↔ v.FitsDigits := by
  cases v <;> exact Iff.rfl

/-- Sorting does not change how deeply a value is nested. -/
theorem depth_sortNames (v : Json) : v.sortNames.depth = v.depth := by
  induction v using inductionOn with
  | null | bool _ | int _ | float _ | str _ => rfl
  | arr items ih =>
    rw [sortNames_arr]
    refine depth_arr_congr fun n => ?_
    rw [List.forall_mem_map]
    exact forall₂_congr fun v hv => by rw [ih v hv]
  | obj es ih =>
    -- the entries come in another order, in which the same bounds hold
    rw [sortNames_obj]
    refine depth_obj_congr fun n => ?_
    rw [forall_mem_sorted]
    exact forall₂_congr fun e he => by rw [ih e he]

end FormSchema.Json
