import FormSchema.Proofs.Json.Grammar

/-!
# Routes into a value

A route leads from a value to one of its parts, by entry names and item indices.  Changing the part
that a route leads to changes nothing else: the entries and items around it stay where they are.
-/

namespace FormSchema.Json

/-! ## Section 1: Following and changing -/

/-- One step of a route: to the value of an entry, or to an item. -/
inductive Step
  | entry (name : Text)
  | item (index : Nat)
  deriving DecidableEq

/-- A way from a value to one of its parts. -/
abbrev Route := List Step

/-- The value that a step leads to. -/
def child? : Step → Json → Option Json
  | .entry name, .obj es => Entries.get? name es
  | .item i, .arr items => items[i]?
  | _, _ => none

/-- The value that a route leads to. -/
def at? : Route → Json → Option Json
  | [], v => some v
  | s :: route, v => (child? s v).bind (at? route)

/-- A value with the child behind a step changed. -/
def modifyChild (f : Json → Json) : Step → Json → Json
  | .entry name, .obj es => .obj (es.map fun e => if e.1 = name then (e.1, f e.2) else e)
  | .item i, .arr items => .arr (items.modify i f)
  | _, v => v

/-- A value with the part behind a route changed. -/
def modifyAt (f : Json → Json) : Route → Json → Json
  | [], v => f v
  | s :: route, v => modifyChild (modifyAt f route) s v

variable {f : Json → Json} {u v w : Json}

/-! ## Section 2: One step -/

/-- A step leads to an entry of an object or to an item of an array. -/
theorem child?_eq_some {s : Step} (h : v.child? s = some u) :
    (∃ name es, s = .entry name ∧ v = .obj es ∧ Entries.get? name es = some u) ∨
      ∃ i items, s = .item i ∧ v = .arr items ∧ items[i]? = some u := by
  -- the kind of the step has to fit the kind of the value
  cases s with
  | entry name =>
    cases v with
    | obj es => exact .inl ⟨name, es, rfl, rfl, h⟩
    | _ => cases h
  | item i =>
    cases v with
    | arr items => exact .inr ⟨i, items, rfl, rfl, h⟩
    | _ => cases h

/-- The entries around the one behind a step, which stay when that one is changed. -/
theorem modify_entries {name : Text} {es : Entries Json} (hd : es.Distinct)
    (h : Entries.get? name es = some u) :
    ∃ after, es = (es.takeWhile fun e => e.1 ≠ name) ++ (name, u) :: after ∧
      ∀ f : Json → Json, (es.map fun e => if e.1 = name then (e.1, f e.2) else e) =
        (es.takeWhile fun e => e.1 ≠ name) ++ (name, f u) :: after := by
  obtain ⟨after, hes, hafter⟩ := Entries.exists_around hd h
  refine ⟨after, hes, fun f => ?_⟩
  -- only the one entry has the name, so the change leaves all others
  have hkeep {l : Entries Json} (hl : ∀ e ∈ l, e.1 ≠ name) :
      (l.map fun e => if e.1 = name then (e.1, f e.2) else e) = l := by
    refine (List.map_congr_left fun e he => ?_).trans l.map_id
    exact if_neg (hl e he)
  calc (es.map fun e => if e.1 = name then (e.1, f e.2) else e)
      = ((es.takeWhile fun e => e.1 ≠ name) ++ (name, u) :: after).map
          (fun e => if e.1 = name then (e.1, f e.2) else e) := by rw [← hes]
    _ = (es.takeWhile fun e => e.1 ≠ name) ++ (name, f u) :: after := by
      rw [List.map_append, List.map_cons, hkeep fun e he => Entries.ne_of_mem_takeWhile he,
        hkeep hafter, if_pos rfl]

private theorem get?_modified {name : Text} {es : Entries Json}
    (h : Entries.get? name es = some u) :
    Entries.get? name (es.map fun e => if e.1 = name then (e.1, f e.2) else e) = some (f u) := by
  -- up to the first entry with the name; it is the one that is read
  induction es with
  | nil => cases h
  | cons e rest ih =>
    obtain ⟨k, v⟩ := e
    by_cases hk : k = name
    · rw [Entries.get?, if_pos hk] at h
      cases h
      rw [List.map_cons, if_pos hk, Entries.get?, if_pos hk]
    · rw [Entries.get?, if_neg hk] at h
      rw [List.map_cons, if_neg hk, Entries.get?, if_neg hk]
      exact ih h

/-- Changing one item leaves those in front of it and behind it. -/
theorem modify_items {i : Nat} {items : List Json} (h : items[i]? = some u) (f : Json → Json) :
    items = items.take i ++ u :: items.drop (i + 1) ∧
      items.modify i f = items.take i ++ f u :: items.drop (i + 1) := by
  obtain ⟨hi, hu⟩ := List.getElem?_eq_some_iff.mp h
  refine ⟨?_, ?_⟩
  · rw [← hu, ← List.drop_eq_getElem_cons hi, List.take_append_drop]
  · rw [List.modify_eq_take_cons_drop hi, hu]

/-- What a value has everywhere, the child behind a step has everywhere. -/
theorem Every.child {p : Json → Prop} {s : Step} (hv : v.Every p) (h : v.child? s = some u) :
    u.Every p := by
  rcases child?_eq_some h with ⟨name, es, rfl, rfl, hget⟩ | ⟨i, items, rfl, rfl, hget⟩
  · exact (every_obj.mp hv).2 (name, u) (Entries.mem_of_get? hget)
  · exact (every_arr.mp hv).2 u (List.mem_of_getElem? hget)

/-- What a value has everywhere, the part behind a route has everywhere. -/
theorem Every.at? {p : Json → Prop} {route : Route} (hv : v.Every p) (h : v.at? route = some w) :
    w.Every p := by
  induction route generalizing v with
  | nil =>
    cases h
    exact hv
  | cons s route ih =>
    obtain ⟨u, hu, hrest⟩ := Option.bind_eq_some_iff.mp h
    exact ih (hv.child hu) hrest

/-! ## Section 3: Sorted names -/

/-- Sorting makes no name come twice. -/
theorem distinct_sorted {es : Entries Json} (hd : es.Distinct) :
    Entries.Distinct (sortByName (es.map fun e => (e.1, e.2.sortNames))) := by
  have h := (hasDistinctNames_sortNames (.obj es)).mpr hd
  rwa [sortNames_obj] at h

/-- Sorting does not change what is found under a name. -/
theorem get?_sorted {name : Text} {es : Entries Json} (hd : es.Distinct)
    (h : Entries.get? name es = some u) :
    Entries.get? name (sortByName (es.map fun e => (e.1, e.2.sortNames))) = some u.sortNames := by
  refine Entries.get?_of_mem (distinct_sorted hd) (mem_sortByName.mpr ?_)
  exact List.mem_map_of_mem (f := fun e => (e.1, e.2.sortNames)) (Entries.mem_of_get? h)

/-- A route into a value leads into the value with sorted names as well. -/
theorem at?_sortNames {route : Route} (hd : v.Every HasDistinctNames) (h : v.at? route = some w) :
    v.sortNames.at? route = some w.sortNames := by
  induction route generalizing v with
  | nil => exact congrArg (some ·.sortNames) (Option.some.inj h)
  | cons s route ih =>
    obtain ⟨u, hu, hw⟩ := Option.bind_eq_some_iff.mp h
    refine Option.bind_eq_some_iff.mpr ⟨u.sortNames, ?_, ih (hd.child hu) hw⟩
    -- sorting changes the place of an entry, but a step goes by the name
    rcases child?_eq_some hu with ⟨name, es, rfl, rfl, hget⟩ | ⟨i, items, rfl, rfl, hget⟩
    · rw [sortNames_obj]
      exact get?_sorted hd.self hget
    · rw [sortNames_arr, child?, List.getElem?_map, hget]
      rfl

/-! ## Section 4: Changed parts -/

/-- What holds of the members of a list holds of them after one is exchanged. -/
theorem forall_mem_exchanged {α : Type} {q : α → Prop} {before after : List α} {a b : α}
    (h : ∀ c ∈ before ++ a :: after, q c) (hb : q b) : ∀ c ∈ before ++ b :: after, q c := by
  rw [List.forall_mem_append, List.forall_mem_cons] at h ⊢
  exact ⟨h.1, hb, h.2.2⟩

/-- A property that is not lost when a child changes holds of all parts of the changed value. -/
theorem every_modifyAt {p : Json → Prop} (hp : ∀ g s v, p v → p (modifyChild g s v))
    {route : Route} (hv : v.Every p) (hd : v.Every HasDistinctNames) (h : v.at? route = some w)
    (hw : (f w).Every p) : (v.modifyAt f route).Every p := by
  induction route generalizing v with
  | nil => exact Option.some.inj h ▸ hw
  | cons s route ih =>
    obtain ⟨u, hu, hrest⟩ := Option.bind_eq_some_iff.mp h
    -- the child has the property everywhere by induction, its neighbours have it as before
    have hchild := ih (hv.child hu) (hd.child hu) hrest
    have hself := hp (modifyAt f route) s v hv.self
    rcases child?_eq_some hu with ⟨name, es, rfl, rfl, hget⟩ | ⟨i, items, rfl, rfl, hget⟩
    · obtain ⟨after, hes, hmap⟩ := modify_entries hd.self hget
      have hparts := (every_obj.mp hv).2
      rw [hes] at hparts
      refine every_obj.mpr ⟨hself, ?_⟩
      rw [hmap (modifyAt f route)]
      exact forall_mem_exchanged hparts hchild
    · obtain ⟨hitems, hmodify⟩ := modify_items hget (modifyAt f route)
      have hparts := (every_arr.mp hv).2
      rw [hitems] at hparts
      refine every_arr.mpr ⟨hself, ?_⟩
      rw [hmodify]
      exact forall_mem_exchanged hparts hchild

/-- Changing a part makes no name come twice. -/
theorem HasDistinctNames.modifyChild (g : Json → Json) (s : Step) {v : Json}
    (h : v.HasDistinctNames) : (v.modifyChild g s).HasDistinctNames := by
  cases s with
  | entry name =>
    cases v with
    | obj es =>
      -- only a value changes, and no name does
      have hnames : Entries.names (es.map fun e => if e.1 = name then (e.1, g e.2) else e) =
          Entries.names es := by
        rw [Entries.names, List.map_map]
        apply List.map_congr_left
        intro e _
        exact (apply_ite Prod.fst _ _ _).trans (ite_self _)
      rw [Json.modifyChild, HasDistinctNames, Entries.Distinct, hnames]
      exact h
    | _ => exact h
  | item i =>
    cases v with
    | arr items => trivial
    | _ => exact h

/-- What stands behind a route after a change is the changed part. -/
theorem at?_modifyAt {route : Route} (h : v.at? route = some w) :
    (v.modifyAt f route).at? route = some (f w) := by
  -- down the route, to the child that the next step leads to
  induction route generalizing v with
  | nil =>
    cases h
    rfl
  | cons s route ih =>
    obtain ⟨u, hu, hrest⟩ := Option.bind_eq_some_iff.mp h
    refine Option.bind_eq_some_iff.mpr ⟨u.modifyAt f route, ?_, ih hrest⟩
    rcases child?_eq_some hu with ⟨name, es, rfl, rfl, hget⟩ | ⟨i, items, rfl, rfl, hget⟩
    · exact get?_modified hget
    · rw [modifyAt, modifyChild, child?, List.getElem?_modify_eq, hget]
      rfl

private theorem modifyChild_modifyChild (g : Json → Json) (s : Step) (v : Json) :
    modifyChild g s (modifyChild f s v) = modifyChild (fun u => g (f u)) s v := by
  cases s with
  | entry name =>
    cases v with
    | obj es =>
      rw [modifyChild, modifyChild, modifyChild, List.map_map]
      refine congrArg obj (List.map_congr_left fun e _ => ?_)
      -- both changes are made to the entries with the name, and to no other ones
      by_cases he : e.1 = name
      · simp only [Function.comp_apply, if_pos he]
      · simp only [Function.comp_apply, if_neg he]
    | _ => rfl
  | item i =>
    cases v with
    | arr items => exact congrArg arr (List.modify_modify_eq f g i items)
    | _ => rfl

/-- Two changes behind one route are one change. -/
theorem modifyAt_modifyAt (g : Json → Json) (route : Route) (v : Json) :
    (v.modifyAt f route).modifyAt g route = v.modifyAt (fun u => g (f u)) route := by
  induction route generalizing v with
  | nil => rfl
  | cons s route ih =>
    rw [modifyAt, modifyAt, modifyAt, modifyChild_modifyChild]
    exact congrArg (modifyChild · s v) (funext ih)

private theorem modifyAt_self {route : Route} (hd : v.Every HasDistinctNames)
    (h : v.at? route = some w) :
    v.modifyAt (fun _ => w) route = v := by
  -- down the route; the names are distinct, so that no second entry changes
  induction route generalizing v with
  | nil => exact (Option.some.inj h).symm
  | cons s route ih =>
    obtain ⟨u, hu, hrest⟩ := Option.bind_eq_some_iff.mp h
    have hchild := ih (hd.child hu) hrest
    rw [modifyAt]
    rcases child?_eq_some hu with ⟨name, es, rfl, rfl, hget⟩ | ⟨i, items, rfl, rfl, hget⟩
    · obtain ⟨after, hes, hmap⟩ := modify_entries hd.self hget
      rw [modifyChild, hmap, hchild, ← hes]
    · obtain ⟨hitems, hmodify⟩ := modify_items hget (modifyAt (fun _ => w) route)
      rw [modifyChild, hmodify, hchild, ← hitems]

/-- A change is undone by putting back what was behind the route. -/
theorem modifyAt_undo {route : Route} (hd : v.Every HasDistinctNames) (h : v.at? route = some w) :
    (v.modifyAt f route).modifyAt (fun _ => w) route = v :=
  (modifyAt_modifyAt (fun _ => w) route v).trans (modifyAt_self hd h)

/-! ## Section 5: Limits -/

private theorem not_fits_zero {s : Step} (h : v.child? s = some u) : ¬ v.Fits 0 := by
  rcases child?_eq_some h with ⟨name, es, rfl, rfl, _⟩ | ⟨i, items, rfl, rfl, _⟩
  · intro hv
    exact absurd hv.1 (Nat.not_succ_le_zero _)
  · intro hv
    exact absurd hv.1 (Nat.not_succ_le_zero _)

/-- A part has one level less. -/
theorem Fits.child {s : Step} {n : Nat} (hv : v.Fits (n + 1)) (h : v.child? s = some u) :
    u.Fits n := by
  rcases child?_eq_some h with ⟨name, es, rfl, rfl, hget⟩ | ⟨i, items, rfl, rfl, hget⟩
  · exact fits_obj.mp hv (name, u) (Entries.mem_of_get? hget)
  · exact fits_arr.mp hv u (List.mem_of_getElem? hget)

/-- Behind a route there is as much room as the route has left. -/
theorem Fits.at? {route : Route} {n : Nat} (hv : v.Fits n) (h : v.at? route = some w) :
    ∃ m, n = route.length + m ∧ w.Fits m := by
  -- each step of the route takes one of the levels
  induction route generalizing v n with
  | nil =>
    cases h
    exact ⟨n, (Nat.zero_add n).symm, hv⟩
  | cons s route ih =>
    obtain ⟨u, hu, hrest⟩ := Option.bind_eq_some_iff.mp h
    cases n with
    | zero => exact absurd hv (not_fits_zero hu)
    | succ n =>
      obtain ⟨m, rfl, hm⟩ := ih (hv.child hu) hrest
      exact ⟨m, Nat.add_right_comm _ _ _, hm⟩

/-- A value stays within its limits if the changed part is within the room behind the route. -/
theorem Fits.modifyAt {route : Route} {m : Nat} (hv : v.Fits (route.length + m))
    (hd : v.Every HasDistinctNames) (h : v.at? route = some w) (hw : (f w).Fits m) :
    (v.modifyAt f route).Fits (route.length + m) := by
  induction route generalizing v with
  | nil =>
    cases h
    rwa [List.length_nil, Nat.zero_add]
  | cons s route ih =>
    obtain ⟨u, hu, hrest⟩ := Option.bind_eq_some_iff.mp h
    rw [List.length_cons, Nat.add_right_comm] at hv ⊢
    -- one step takes up one level of the room
    have hchild := ih (hv.child hu) (hd.child hu) hrest
    rcases child?_eq_some hu with ⟨name, es, rfl, rfl, hget⟩ | ⟨i, items, rfl, rfl, hget⟩
    · obtain ⟨after, hes, hmap⟩ := modify_entries hd.self hget
      have hparts := fits_obj.mp hv
      rw [hes] at hparts
      rw [Json.modifyAt, modifyChild, hmap, fits_obj]
      exact forall_mem_exchanged hparts hchild
    · obtain ⟨hitems, hmodify⟩ := modify_items hget (Json.modifyAt f route)
      have hparts := fits_arr.mp hv
      rw [hitems] at hparts
      rw [Json.modifyAt, modifyChild, hmodify, fits_arr]
      exact forall_mem_exchanged hparts hchild

end FormSchema.Json
