import FormSchema.Json.Value
import FormSchema.Text.CodePoint
import Mathlib.Data.List.Nodup

/-!
# Entries as finite maps

Entries are read as a finite map from names to values.  Each operation on entries is described once
by what it does to `get?` and to the names; a list of entries is `Distinct` if no name occurs twice,
and every operation keeps that.
-/

namespace FormSchema.Entries

variable {α : Type} {name other : Text} {value : α} {es : Entries α}

/-- No name has two entries. -/
def Distinct (es : Entries α) : Prop := es.names.Nodup

instance (es : Entries α) : Decidable es.Distinct := inferInstanceAs (Decidable es.names.Nodup)

/-! ## Section 1: Names -/

@[simp] theorem names_nil : names ([] : Entries α) = [] := rfl

@[simp] theorem names_cons (e : Text × α) (es : Entries α) :
    names (e :: es) = e.1 :: es.names := rfl

@[simp] theorem names_append (es fs : Entries α) : names (es ++ fs) = es.names ++ fs.names :=
  List.map_append

/-- Nothing is found under a name that is not there. -/
theorem get?_eq_none_iff : get? name es = none ↔ name ∉ es.names := by
  induction es with
  | nil => simp [get?]
  | cons e rest ih =>
    obtain ⟨k, v⟩ := e
    by_cases hk : k = name
    · simp [get?, hk]
    · simp only [get?, if_neg hk, ih, names_cons, List.mem_cons, not_or]
      exact ⟨fun h => ⟨Ne.symm hk, h⟩, fun h => h.2⟩

/-- Whether a name is there can be told from the list of names. -/
theorem has_iff : es.has name = true ↔ name ∈ es.names := by
  rw [has, Option.isSome_iff_ne_none, Ne, get?_eq_none_iff, not_not]

/-- What is found under a name is one of the entries. -/
theorem mem_of_get? (h : get? name es = some value) : (name, value) ∈ es := by
  induction es with
  | nil => simp [get?] at h
  | cons e rest ih =>
    obtain ⟨k, v⟩ := e
    simp only [get?] at h
    split at h
    · next hk =>
      cases h
      exact hk ▸ List.mem_cons_self
    · exact List.mem_cons_of_mem _ (ih h)

/-- Where every name is distinct, an entry is found under its name. -/
theorem get?_of_mem (hd : es.Distinct) (h : (name, value) ∈ es) : get? name es = some value := by
  induction es with
  | nil => simp at h
  | cons e rest ih =>
    obtain ⟨k, v⟩ := e
    obtain ⟨hk, hrest⟩ := List.nodup_cons.mp hd
    rcases List.mem_cons.mp h with heq | hmem
    · cases heq
      simp [get?]
    -- the front entry has another name, as this one comes later and names are distinct
    · have hname : name ∈ names rest := List.mem_map.mpr ⟨(name, value), hmem, rfl⟩
      have hne : k ≠ name := by
        intro heq
        exact hk (heq ▸ hname)
      rw [get?, if_neg hne]
      exact ih hrest hmem

/-- In front of the first entry of a name there are none of that name. -/
theorem ne_of_mem_takeWhile {e : Text × α} (h : e ∈ es.takeWhile fun e => e.1 ≠ name) :
    e.1 ≠ name :=
  of_decide_eq_true (List.all_eq_true.mp List.all_takeWhile e h)

/-- The entries around the one that is found under a name; no other entry has that name. -/
theorem exists_around (hd : es.Distinct) (h : get? name es = some value) :
    ∃ after, es = (es.takeWhile fun e => e.1 ≠ name) ++ (name, value) :: after ∧
      ∀ e ∈ after, e.1 ≠ name := by
  induction es with
  | nil => cases h
  | cons e rest ih =>
    obtain ⟨k, v⟩ := e
    obtain ⟨hk, hrest⟩ := List.nodup_cons.mp hd
    rw [get?] at h
    split at h
    -- here the front of other names ends
    · next heq =>
      cases h
      refine ⟨rest, by simp [heq], ?_⟩
      intro e he hname
      have hmem : e.1 ∈ names rest := List.mem_map_of_mem he
      rw [hname, ← heq] at hmem
      exact hk hmem
    · next hne =>
      obtain ⟨after, hafter, hnot⟩ := ih hrest h
      refine ⟨after, ?_, hnot⟩
      rw [List.takeWhile_cons_of_pos (by simpa using hne), List.cons_append, ← hafter]

/-! ## Section 2: Putting -/

/-- What is put under a name is found there, and under any other name what was there before. -/
theorem get?_put (name other : Text) (value : α) (es : Entries α) :
    get? other (put name value es) = if name = other then some value else get? other es := by
  induction es with
  | nil => simp [put, get?]
  | cons e rest ih =>
    obtain ⟨k, v⟩ := e
    by_cases hk : k = name
    · simp only [put, if_pos hk, get?]
      subst hk
      split <;> rfl
    · simp only [put, if_neg hk, get?, ih]
      -- `name` is not `other` in the first case, as `k` is `other` and not `name`
      by_cases hko : k = other
      · have hno : name ≠ other := fun h => hk (hko.trans h.symm)
        simp [hko, hno]
      · simp [hko]

/-- A name that is new goes to the end, and one that is there keeps its place. -/
theorem names_put (name : Text) (value : α) (es : Entries α) :
    (put name value es).names = if name ∈ es.names then es.names else es.names ++ [name] := by
  induction es with
  | nil => simp [put]
  | cons e rest ih =>
    obtain ⟨k, v⟩ := e
    by_cases hk : k = name
    · simp [put, hk]
    · simp only [put, if_neg hk, names_cons, ih, List.mem_cons, Ne.symm hk, false_or]
      split <;> simp

/-- Putting never makes a name come twice. -/
theorem Distinct.put (hd : es.Distinct) (name : Text) (value : α) :
    (Entries.put name value es).Distinct := by
  rw [Distinct, names_put]
  split
  · exact hd
  · next h =>
    rw [List.nodup_append]
    refine ⟨hd, List.nodup_singleton name, ?_⟩
    intro k hk l hl
    rw [List.mem_singleton.mp hl]
    intro heq
    exact h (heq ▸ hk)

/-- Behind entries of other names, the rest of the entries is changed as on its own. -/
theorem put_append_of_not_mem {fs : Entries α} (h : name ∉ es.names) (value : α) :
    put name value (es ++ fs) = es ++ put name value fs := by
  induction es with
  | nil => rfl
  | cons e rest ih =>
    obtain ⟨k, v⟩ := e
    simp only [names_cons, List.mem_cons, not_or] at h
    rw [List.cons_append, put, if_neg (Ne.symm h.1), ih h.2, List.cons_append]

/-- A new name is put behind all others. -/
theorem put_of_not_mem (h : name ∉ es.names) (value : α) :
    put name value es = es ++ [(name, value)] := by
  have happend : put name value (es ++ []) = es ++ put name value [] :=
    put_append_of_not_mem h value
  rwa [List.append_nil] at happend

/-- An entry that is there after putting was there before or is the new one. -/
theorem mem_put {e : Text × α} (h : e ∈ put name value es) : e = (name, value) ∨ e ∈ es := by
  -- up to the entry with the name, which is replaced where it stands
  induction es with
  | nil => exact .inl (List.mem_singleton.mp h)
  | cons f rest ih =>
    obtain ⟨k, v⟩ := f
    by_cases hk : k = name
    · rw [put, if_pos hk, hk, List.mem_cons] at h
      exact h.imp_right (List.mem_cons_of_mem _)
    · rw [put, if_neg hk, List.mem_cons] at h
      rcases h with heq | hmem
      · exact .inr (heq ▸ List.mem_cons_self)
      · exact (ih hmem).imp_right (List.mem_cons_of_mem _)

/-! ## Section 3: Removing -/

/-- Removing a name leaves all others as they were. -/
theorem get?_filter_ne (name other : Text) (es : Entries α) :
    get? other (es.filter fun e => e.1 ≠ name) = if name = other then none else get? other es := by
  induction es with
  | nil => simp [get?]
  | cons e rest ih =>
    obtain ⟨k, v⟩ := e
    by_cases hk : k = name
    -- an entry of the removed name is dropped, any other one is kept
    · have hdrop : ((k, v) :: rest).filter (fun e => e.1 ≠ name) =
          rest.filter (fun e => e.1 ≠ name) := by simp [hk]
      rw [hdrop, ih, get?, hk]
      split <;> rfl
    · have hkeep : ((k, v) :: rest).filter (fun e => e.1 ≠ name) =
          (k, v) :: rest.filter (fun e => e.1 ≠ name) := by simp [hk]
      rw [hkeep, get?, ih, get?]
      by_cases hko : k = other
      · have hno : name ≠ other := fun h => hk (hko.trans h.symm)
        simp [hko, hno]
      · simp [hko]

/-- Without some of the entries the names still are distinct. -/
theorem Distinct.filter (hd : es.Distinct) (p : Text × α → Bool) :
    Distinct (List.filter p es) :=
  (List.filter_sublist.map Prod.fst).nodup hd

/-! ## Section 4: Members of repeated names -/

/-- Members of distinct names are entries as they stand. -/
theorem ofMembers_of_distinct (hd : es.Distinct) : ofMembers es = es := by
  -- the fold, from any entries that are done already
  suffices h : ∀ (done rest : Entries α), Distinct (done ++ rest) →
      rest.foldl (fun acc m => put m.1 m.2 acc) done = done ++ rest from h [] es hd
  intro done rest
  induction rest generalizing done with
  | nil => simp
  | cons m rest ih =>
    intro h
    have hm : m.1 ∉ done.names := by
      rw [Distinct, names_append, names_cons, List.nodup_append] at h
      intro hmem
      exact h.2.2 m.1 hmem m.1 List.mem_cons_self rfl
    rw [List.foldl_cons, put_of_not_mem hm, ih (done ++ [m]) (by simpa using h)]
    simp

/-- Every entry of some members is one of the members. -/
theorem mem_of_mem_ofMembers {e : Text × α} {ms : Entries α} (h : e ∈ ofMembers ms) : e ∈ ms := by
  -- the members are put one by one into what is done already
  suffices hfold : ∀ done : Entries α, e ∈ ms.foldl (fun es m => put m.1 m.2 es) done →
      e ∈ ms ∨ e ∈ done from (hfold [] h).resolve_right List.not_mem_nil
  clear h
  induction ms with
  | nil => exact fun done he => .inr he
  | cons m ms ih =>
    intro done he
    rcases ih _ he with hlater | hdone
    · exact .inl (List.mem_cons_of_mem m hlater)
    · rcases mem_put hdone with rfl | hbefore
      · exact .inl List.mem_cons_self
      · exact .inr hbefore

/-! ## Section 5: What is found -/

/-- What comes first is found first. -/
theorem get?_append (name : Text) (es fs : Entries α) :
    get? name (es ++ fs) = (get? name es).or (get? name fs) := by
  induction es with
  | nil => rfl
  | cons e rest ih =>
    obtain ⟨k, v⟩ := e
    rw [List.cons_append, get?, get?]
    split
    · rfl
    · exact ih

/-- Changing all values changes what is found. -/
theorem get?_map {β : Type} (f : α → β) (name : Text) (es : Entries α) :
    get? name (es.map fun e => (e.1, f e.2)) = (get? name es).map f := by
  induction es with
  | nil => rfl
  | cons e rest ih =>
    obtain ⟨k, v⟩ := e
    rw [List.map_cons, get?, get?]
    split
    · rfl
    · exact ih

/-- Changing all values changes no name. -/
theorem names_map {β : Type} (f : α → β) (es : Entries α) :
    names (es.map fun e => (e.1, f e.2)) = es.names := by
  rw [names, List.map_map]
  rfl

/-- The entries of members have their names in the order in which these come first. -/
theorem names_ofMembers (ms : Entries α) : (ofMembers ms).names = Text.dedup ms.names := by
  -- the two folds go along the members together
  suffices h : ∀ done : Entries α,
      (ms.foldl (fun es m => put m.1 m.2 es) done).names =
        ms.names.foldl (fun seen t => if seen.contains t then seen else seen ++ [t]) done.names from
    h []
  induction ms with
  | nil => exact fun done => rfl
  | cons m ms ih =>
    intro done
    rw [List.foldl_cons, names_cons, List.foldl_cons, ih, names_put]
    simp only [List.contains_iff_mem]

/-- Under each name stands the value of its last member. -/
theorem get?_ofMembers (name : Text) (ms : Entries α) :
    get? name (ofMembers ms) = get? name ms.reverse := by
  suffices h : ∀ done : Entries α, get? name (ms.foldl (fun es m => put m.1 m.2 es) done) =
      (get? name ms.reverse).or (get? name done) by
    rw [ofMembers, h]
    exact Option.or_none
  induction ms with
  | nil => exact fun done => rfl
  | cons m ms ih =>
    intro done
    rw [List.foldl_cons, ih, get?_put, List.reverse_cons, get?_append, get?]
    -- a later member of the name decides, or else this one, or else what is there already
    cases get? name ms.reverse with
    | some v => rfl
    | none =>
      split
      · rfl
      · rfl

/-- The members of a repeated name are merged, but no name is lost. -/
theorem mem_names_ofMembers {ms : Entries α} : name ∈ (ofMembers ms).names ↔ name ∈ ms.names := by
  have hnone : get? name (ofMembers ms) = none ↔ name ∉ ms.names := by
    rw [get?_ofMembers, get?_eq_none_iff, names, names, List.map_reverse, List.mem_reverse]
  rw [← not_iff_not, ← get?_eq_none_iff, hnone]

/-- Members of new names become entries of their own. -/
theorem ofMembers_append {ms ns : Entries α} (h : ∀ n ∈ ns, n.1 ∉ (ofMembers ms).names) :
    ofMembers (ms ++ ns) = ofMembers ms ++ ofMembers ns := by
  -- what was put before stays in front, whatever is added behind it
  suffices hfold : ∀ done : Entries α,
      ns.foldl (fun es m => put m.1 m.2 es) (ofMembers ms ++ done) =
        ofMembers ms ++ ns.foldl (fun es m => put m.1 m.2 es) done by
    have hnil := hfold []
    rwa [List.append_nil, ofMembers, ← List.foldl_append] at hnil
  induction ns with
  | nil => exact fun done => rfl
  | cons n ns ih =>
    intro done
    obtain ⟨hn, hns⟩ := List.forall_mem_cons.mp h
    rw [List.foldl_cons, List.foldl_cons, put_append_of_not_mem hn, ih hns]

/-- After merging no name comes twice. -/
theorem distinct_ofMembers (ms : Entries α) : (ofMembers ms).Distinct := by
  suffices h : ∀ done : Entries α, done.Distinct →
      (ms.foldl (fun es m => put m.1 m.2 es) done).Distinct from h [] List.nodup_nil
  induction ms with
  | nil => exact fun done hdone => hdone
  | cons m ms ih => exact fun done hdone => ih _ (hdone.put m.1 m.2)

/-- Values can be changed before or after one of them is put. -/
theorem put_map {β : Type} (f : α → β) (name : Text) (value : α) (es : Entries α) :
    (put name value es).map (fun e => (e.1, f e.2)) =
      put name (f value) (es.map fun e => (e.1, f e.2)) := by
  induction es with
  | nil => rfl
  | cons e rest ih =>
    rw [put, List.map_cons, put]
    split
    · rfl
    · rw [List.map_cons, ih]

/-- It does not matter whether values are changed before or after members become entries. -/
theorem ofMembers_map {β : Type} (f : α → β) (ms : Entries α) :
    (ofMembers ms).map (fun e => (e.1, f e.2)) = ofMembers (ms.map fun e => (e.1, f e.2)) := by
  -- the values that are done already are mapped as well
  suffices h : ∀ done : Entries α,
      (ms.foldl (fun es m => put m.1 m.2 es) done).map (fun e => (e.1, f e.2)) =
        (ms.map fun e => (e.1, f e.2)).foldl (fun es m => put m.1 m.2 es)
          (done.map fun e => (e.1, f e.2)) from h []
  induction ms with
  | nil => exact fun done => rfl
  | cons m ms ih =>
    intro done
    rw [List.foldl_cons, ih, put_map, List.map_cons, List.foldl_cons]

/-- Where members of one name have one value, what stands under a name is the value of any member
of that name. -/
theorem get?_ofMembers_eq_some_iff {ms : Entries α}
    (h : ∀ e ∈ ms, ∀ f ∈ ms, e.1 = f.1 → e.2 = f.2) :
    get? name (ofMembers ms) = some value ↔ (name, value) ∈ ms := by
  constructor
  · exact fun hget => mem_of_mem_ofMembers (mem_of_get? hget)
  · intro hmem
    -- the name is there, and no other value has it
    have hname : name ∈ (ofMembers ms).names := by
      rw [← has_iff, has, get?_ofMembers, ← has, has_iff]
      exact List.mem_map.mpr ⟨(name, value), List.mem_reverse.mpr hmem, rfl⟩
    obtain ⟨other, hother⟩ := Option.isSome_iff_exists.mp (has_iff.mpr hname)
    have hsame : other = value :=
      h (name, other) (mem_of_mem_ofMembers (mem_of_get? hother)) (name, value) hmem rfl
    rw [hother, hsame]

/-- To put what is there already changes nothing. -/
theorem put_of_get? (h : get? name es = some value) : put name value es = es := by
  -- up to the entry with the name, which gets the value that it has
  induction es with
  | nil => cases h
  | cons e rest ih =>
    obtain ⟨k, v⟩ := e
    rw [get?] at h
    rw [put]
    split at h
    · next hk =>
      cases h
      rw [if_pos hk]
    · next hk => rw [if_neg hk, ih h]

/-- Members that are there already change nothing. -/
theorem ofMembers_append_of_subset {ms ns : Entries α} (hsub : ns ⊆ ms)
    (h : ∀ e ∈ ms, ∀ f ∈ ms, e.1 = f.1 → e.2 = f.2) : ofMembers (ms ++ ns) = ofMembers ms := by
  rw [ofMembers, List.foldl_append, ← ofMembers]
  induction ns with
  | nil => rfl
  | cons n ns ih =>
    obtain ⟨hn, hns⟩ := List.cons_subset.mp hsub
    rw [List.foldl_cons, put_of_get? ((get?_ofMembers_eq_some_iff h).mpr hn)]
    exact ih hns

/-- Where members of one name have one value, their order decides only that of the entries. -/
theorem ofMembers_perm {ms ns : Entries α} (hperm : ms.Perm ns)
    (h : ∀ e ∈ ms, ∀ f ∈ ms, e.1 = f.1 → e.2 = f.2) : (ofMembers ms).Perm (ofMembers ns) := by
  have h' : ∀ e ∈ ns, ∀ f ∈ ns, e.1 = f.1 → e.2 = f.2 := fun e he f hf =>
    h e (hperm.mem_iff.mpr he) f (hperm.mem_iff.mpr hf)
  have hmem (ms : Entries α) (h : ∀ e ∈ ms, ∀ f ∈ ms, e.1 = f.1 → e.2 = f.2) (e : Text × α) :
      e ∈ ofMembers ms ↔ e ∈ ms :=
    ⟨mem_of_mem_ofMembers, fun he => mem_of_get? ((get?_ofMembers_eq_some_iff h).mpr he)⟩
  refine (List.perm_ext_iff_of_nodup (.of_map Prod.fst (distinct_ofMembers ms))
    (.of_map Prod.fst (distinct_ofMembers ns))).mpr fun e => ?_
  rw [hmem ms h, hmem ns h', hperm.mem_iff]

/-- Entries with the same names in the same order and the same values under them are the same. -/
theorem ext_get? {es fs : Entries α} (hnames : es.names = fs.names) (hd : es.Distinct)
    (hget : ∀ name v w, get? name es = some v → get? name fs = some w → v = w) : es = fs := by
  induction es generalizing fs with
  | nil => exact (List.map_eq_nil_iff.mp hnames.symm).symm
  | cons e rest ih =>
    cases fs with
    | nil => cases hnames
    | cons f others =>
      obtain ⟨k, v⟩ := e
      obtain ⟨l, w⟩ := f
      obtain ⟨rfl, hrest⟩ : k = l ∧ names rest = names others := List.cons.inj hnames
      obtain ⟨hk, hdistinct⟩ := List.nodup_cons.mp hd
      have hvw : v = w := hget k v w (by simp [get?]) (by simp [get?])
      have htail : rest = others := by
        apply ih hrest hdistinct
        intro name a b ha hb
        -- a name of the tail is not the one in front
        have hname : k ≠ name := by
          rintro rfl
          exact hk (has_iff.mp (by rw [has, ha]; rfl))
        exact hget name a b (by rwa [get?, if_neg hname]) (by rwa [get?, if_neg hname])
      rw [hvw, htail]

/-! ## Section 6: Entries in another order -/

/-- Entries of the same names, read one by one, give the same up to order if they do so under each
name. -/
theorem flatMap_perm {β : Type} {g : Text × α → List β} {es fs : Entries α} (hd : es.Distinct)
    (hnames : es.names.Perm fs.names)
    (h : ∀ name v w, get? name es = some v → get? name fs = some w →
      (g (name, v)).Perm (g (name, w))) : (es.flatMap g).Perm (fs.flatMap g) := by
  induction es generalizing fs with
  | nil =>
    have hfs : fs = [] := List.map_eq_nil_iff.mp hnames.nil_eq.symm
    rw [hfs]
  | cons e rest ih =>
    obtain ⟨k, v⟩ := e
    obtain ⟨hk, hrest⟩ := List.nodup_cons.mp hd
    -- the entry of the same name is taken out of the other list, wherever it stands
    have hmem : k ∈ fs.names := hnames.mem_iff.mp List.mem_cons_self
    obtain ⟨w, hw⟩ := Option.isSome_iff_exists.mp (has_iff.mpr hmem)
    obtain ⟨after, hfs, -⟩ := exists_around (hnames.nodup_iff.mp hd) hw
    generalize fs.takeWhile (fun e => e.1 ≠ k) = before at hfs
    have hothers : (names rest).Perm (names (before ++ after)) := by
      rw [hfs, names_append, names_cons] at hnames
      rw [names_append]
      exact (hnames.trans List.perm_middle).cons_inv
    have hget (name : Text) (hne : k ≠ name) : get? name (before ++ after) = get? name fs := by
      rw [hfs, get?_append, get?_append, get?, if_neg hne]
    have hfirst : (g (k, v)).Perm (g (k, w)) := h k v w (by simp [get?]) hw
    have hbehind : (rest.flatMap g).Perm ((before ++ after).flatMap g) := by
      apply ih hrest hothers
      intro name a b ha hb
      have hne : k ≠ name := by
        rintro rfl
        exact hk (has_iff.mp (by rw [has, ha]; rfl))
      exact h name a b (by rwa [get?, if_neg hne]) (by rwa [← hget name hne])
    have hmiddle : ((before ++ (k, w) :: after).flatMap g).Perm
        (((k, w) :: (before ++ after)).flatMap g) := List.perm_middle.flatMap_right g
    rw [hfs]
    exact (hfirst.append hbehind).trans hmiddle.symm

/-- Where two lists have the same names in the same order, looking up the names of one in the other
is going through both in step. -/
theorem forall_get?_iff_forall₂ {β : Type} {R : α → β → Prop} {es : Entries α} {fs : Entries β}
    (hd : es.Distinct) (hnames : fs.names = es.names) :
    (∀ e ∈ es, ∀ v, get? e.1 fs = some v → R e.2 v) ↔
      List.Forall₂ (fun e f => R e.2 f.2) es fs := by
  -- on both lists at once: no later entry has the name of the first, so it is looked up behind it
  induction es generalizing fs with
  | nil =>
    rw [names_nil, names, List.map_eq_nil_iff] at hnames
    rw [hnames]
    exact iff_of_true nofun .nil
  | cons e es ih =>
    cases fs with
    | nil => cases hnames
    | cons f fs =>
      obtain ⟨hname, hrest⟩ := List.cons.inj hnames
      obtain ⟨hfresh, hd⟩ := List.nodup_cons.mp hd
      have hfirst : get? e.1 (f :: fs) = some f.2 := if_pos hname
      have hlater (d : Text × α) (hmem : d ∈ es) : get? d.1 (f :: fs) = get? d.1 fs := by
        apply if_neg
        intro heq
        exact hfresh (List.mem_map.mpr ⟨d, hmem, heq.symm.trans hname⟩)
      rw [List.forall_mem_cons, List.forall₂_cons, ← ih hd hrest, hfirst]
      refine and_congr (by simp) (forall₂_congr fun d hmem => ?_)
      rw [hlater d hmem]

end FormSchema.Entries
