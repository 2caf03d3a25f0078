import FormSchema.Json.Reader
import FormSchema.Proofs.Json.Tree

/-!
# The grammar of JSON texts

The grammar of RFC 8259 as derivations, each of which relates a text to the tree that it writes.
In that tree an object lists its members as the text does, so a name may come twice; `Json.merge`
gives the value of the tree, where the last value of a name stands in its first place.
-/

namespace FormSchema.Json

/-! ## Section 1: Numbers -/

/-- One or more digits. -/
def IsDigits (ds : Text) : Prop := ds ≠ [] ∧ ∀ d ∈ ds, d.isDigit

/-- The digits before the point: a lone zero, or digits that do not begin with zero. -/
def IsWhole (ds : Text) : Prop :=
  ds = [.scalar '0'] ∨ IsDigits ds ∧ ds.head? ≠ some (.scalar '0')

/-- What is written for the digits after the point. -/
inductive WritesFraction : Option Text → Text → Prop
  | absent : WritesFraction none []
  | present {ds : Text} (hd : IsDigits ds) : WritesFraction (some ds) (.scalar '.' :: ds)

/-- The sign in front of the digits of an exponent. -/
inductive WritesSign : Bool → Text → Prop
  | none : WritesSign false []
  | plus : WritesSign false [.scalar '+']
  | minus : WritesSign true [.scalar '-']

/-- What is written for an exponent. -/
inductive WritesPower : Option (Bool × Text) → Text → Prop
  | absent : WritesPower none []
  | present {negative : Bool} {e : CodePoint} {sign ds : Text}
      (he : e = .scalar 'e' ∨ e = .scalar 'E') (hs : WritesSign negative sign) (hd : IsDigits ds) :
      WritesPower (some (negative, ds)) (e :: (sign ++ ds))

/-- What is written for a numeral. -/
inductive WritesNumeral : Numeral → Text → Prop
  | mk (negative : Bool) {whole f p : Text} {fraction : Option Text} {power : Option (Bool × Text)}
      (hw : IsWhole whole) (hf : WritesFraction fraction f) (hp : WritesPower power p) :
      WritesNumeral ⟨negative, whole, fraction, power⟩
        ((if negative then [.scalar '-'] else []) ++ (whole ++ (f ++ p)))

/-- The number that a numeral means, of however many digits. -/
def Numeral.meaning (n : Numeral) : Json :=
  match n.fraction, n.power with
  | none, none => .int (if n.negative then -(digitsValue n.whole : Int) else digitsValue n.whole)
  | fraction, power =>
    .float (Binary64.ofDecimal n.negative ⟨digitsValue (n.whole ++ fraction.getD []),
      powerValue power - (fraction.getD []).length⟩)

/-! ## Section 2: Strings -/

/-- Six code points that write a code unit: a backslash, the letter `u` and four digits. -/
def writtenUnit (a b c d : CodePoint) (rest : Text) : Text :=
  .scalar '\\' :: .scalar 'u' :: a :: b :: c :: d :: rest

/-- Whether a text begins with an escape for the second half of a surrogate pair. -/
def BeginsWithLow (s : Text) : Prop :=
  ∃ a b c d rest n, s = writtenUnit a b c d rest ∧ hexFour? a b c d = some n ∧
    (CodePoint.ofNat n).isLowSurrogate

/-- `Spells s t`: between quotation marks, `s` writes the string `t`. -/
inductive Spells : Text → Text → Prop
  | nil : Spells [] []
  | plain {c : CodePoint} {s t : Text} (hq : c ≠ .scalar '"') (hb : c ≠ .scalar '\\')
      (hc : ¬ c.toNat < 0x20) (h : Spells s t) : Spells (c :: s) (c :: t)
  | short {e p : CodePoint} {s t : Text} (he : shortEscape? e = some p) (h : Spells s t) :
      Spells (.scalar '\\' :: e :: s) (p :: t)
  -- the first half of a pair stands for itself only where no second half follows
  | unit {a b c d : CodePoint} {n : Nat} {s t : Text} (hn : hexFour? a b c d = some n)
      (hs : (CodePoint.ofNat n).isHighSurrogate → ¬ BeginsWithLow s) (h : Spells s t) :
      Spells (writtenUnit a b c d s) (CodePoint.ofNat n :: t)
  | pair {a b c d a' b' c' d' : CodePoint} {n m : Nat} {s t : Text}
      (hn : hexFour? a b c d = some n) (hm : hexFour? a' b' c' d' = some m)
      (hhigh : (CodePoint.ofNat n).isHighSurrogate) (hlow : (CodePoint.ofNat m).isLowSurrogate)
      (h : Spells s t) :
      Spells (writtenUnit a b c d (writtenUnit a' b' c' d' s))
        (CodePoint.joinPair (CodePoint.ofNat n) (CodePoint.ofNat m) :: t)

/-! ## Section 3: Values -/

/-- Nothing but the white space that may stand between tokens. -/
def IsBlank (s : Text) : Prop := ∀ c ∈ s, isSpace c

/-- What a part of a text can be: a value, a value with the white space around it, the values of an
array, a member of an object, or its members. -/
inductive Phrase
  | value (v : Json)
  | element (v : Json)
  | elements (vs : List Json)
  | member (m : Text × Json)
  | members (ms : List (Text × Json))

/-- The texts of the phrases.  The text of a whole document is one for `Phrase.element`. -/
inductive Derives : Phrase → Text → Prop
  | null : Derives (.value .null) "null"
  | boolTrue : Derives (.value (.bool true)) "true"
  | boolFalse : Derives (.value (.bool false)) "false"
  | number {n : Numeral} {s : Text} (h : WritesNumeral n s) : Derives (.value n.meaning) s
  | string {s t : Text} (h : Spells s t) : Derives (.value (.str t)) s.inQuotes
  | emptyArray {w : Text} (hw : IsBlank w) :
      Derives (.value (.arr [])) (.scalar '[' :: (w ++ [.scalar ']']))
  | array {vs : List Json} {s : Text} (h : Derives (.elements vs) s) :
      Derives (.value (.arr vs)) (.scalar '[' :: (s ++ [.scalar ']']))
  | emptyObject {w : Text} (hw : IsBlank w) :
      Derives (.value (.obj [])) (.scalar '\x7b' :: (w ++ [.scalar '\x7d']))
  | object {ms : List (Text × Json)} {s : Text} (h : Derives (.members ms) s) :
      Derives (.value (.obj ms)) (.scalar '\x7b' :: (s ++ [.scalar '\x7d']))
  | element {l s r : Text} {v : Json} (hl : IsBlank l) (h : Derives (.value v) s) (hr : IsBlank r) :
      Derives (.element v) (l ++ (s ++ r))
  | lastElement {v : Json} {s : Text} (h : Derives (.element v) s) : Derives (.elements [v]) s
  | moreElements {v : Json} {vs : List Json} {s t : Text} (h : Derives (.element v) s)
      (hs : Derives (.elements vs) t) : Derives (.elements (v :: vs)) (s ++ .scalar ',' :: t)
  | member {l s r t name : Text} {v : Json} (hl : IsBlank l) (hn : Spells s name) (hr : IsBlank r)
      (h : Derives (.element v) t) :
      Derives (.member (name, v)) (l ++ (s.inQuotes ++ (r ++ .scalar ':' :: t)))
  | lastMember {m : Text × Json} {s : Text} (h : Derives (.member m) s) : Derives (.members [m]) s
  | moreMembers {m : Text × Json} {ms : List (Text × Json)} {s t : Text} (h : Derives (.member m) s)
      (hs : Derives (.members ms) t) : Derives (.members (m :: ms)) (s ++ .scalar ',' :: t)

/-! ## Section 4: Lists of phrases -/

/-- The text of a list: the texts of its parts, which are those of `P`, with commas between them. -/
inductive Parted {α : Type} (P : α → Text → Prop) : List α → Text → Prop
  | last {v : α} {s : Text} (h : P v s) : Parted P [v] s
  | more {v : α} {vs : List α} {s t : Text} (h : P v s) (hs : Parted P vs t) :
      Parted P (v :: vs) (s ++ .scalar ',' :: t)

section Parted

variable {α : Type} {P : α → Text → Prop} {vs : List α} {s : Text}

/-- White space in front of a list belongs to its first part. -/
theorem Parted.append_left {l : Text} (hP : ∀ {v t}, P v t → P v (l ++ t)) (h : Parted P vs s) :
    Parted P vs (l ++ s) := by
  cases h with
  | last h => exact .last (hP h)
  | more h hs =>
    rw [← List.append_assoc]
    exact .more (hP h) hs

/-- The text of a list begins with that of its first part. -/
theorem Parted.eq_append (h : Parted P vs s) : ∃ v x y, P v x ∧ s = x ++ y := by
  cases h with
  | last h => exact ⟨_, s, [], h, (List.append_nil s).symm⟩
  | more h hs => exact ⟨_, _, _, h, rfl⟩

end Parted

/-- The items of an array are a list of elements. -/
theorem derives_elements_iff {vs : List Json} {s : Text} :
    Derives (.elements vs) s ↔ Parted (fun v t => Derives (.element v) t) vs s := by
  constructor
  · intro h
    -- along the items; the grammar has one rule for the last one and one for the others
    induction vs generalizing s with
    | nil => cases h
    | cons v vs ih =>
      cases h with
      | lastElement h => exact .last h
      | moreElements h hs => exact .more h (ih hs)
  · intro h
    induction h with
    | last h => exact .lastElement h
    | more h hs ih => exact .moreElements h ih

/-- The members of an object are a list of members. -/
theorem derives_members_iff {ms : List (Text × Json)} {s : Text} :
    Derives (.members ms) s ↔ Parted (fun m t => Derives (.member m) t) ms s := by
  constructor
  · intro h
    -- along the members, by the same two rules
    induction ms generalizing s with
    | nil => cases h
    | cons m ms ih =>
      cases h with
      | lastMember h => exact .last h
      | moreMembers h hs => exact .more h (ih hs)
  · intro h
    induction h with
    | last h => exact .lastMember h
    | more h hs ih => exact .moreMembers h ih

/-! ## Section 5: White space around phrases -/

/-- Nothing at all is white space. -/
theorem isBlank_nil : IsBlank [] := fun _ hc => absurd hc List.not_mem_nil

/-- White space behind white space is white space. -/
theorem IsBlank.append {l m : Text} (hl : IsBlank l) (hm : IsBlank m) : IsBlank (l ++ m) := by
  intro c hc
  rcases List.mem_append.mp hc with hc | hc
  · exact hl c hc
  · exact hm c hc

/-- White space in front of an element belongs to it. -/
theorem Derives.blank_element {l s : Text} {v : Json} (hl : IsBlank l)
    (h : Derives (.element v) s) : Derives (.element v) (l ++ s) := by
  cases h with
  | element hl' hv hr =>
    rw [← List.append_assoc]
    exact .element (hl.append hl') hv hr

/-- White space in front of items belongs to the first of them. -/
theorem Derives.blank_elements {l s : Text} {vs : List Json} (hl : IsBlank l)
    (h : Derives (.elements vs) s) : Derives (.elements vs) (l ++ s) := by
  rw [derives_elements_iff] at h ⊢
  exact h.append_left fun hv => hv.blank_element hl

/-- White space in front of a member belongs to it. -/
theorem Derives.blank_member {l s : Text} {m : Text × Json} (hl : IsBlank l)
    (h : Derives (.member m) s) : Derives (.member m) (l ++ s) := by
  cases h with
  | member hl' hn hr h =>
    rw [← List.append_assoc]
    exact .member (hl.append hl') hn hr h

/-- White space in front of members belongs to the first of them. -/
theorem Derives.blank_members {l s : Text} {ms : List (Text × Json)} (hl : IsBlank l)
    (h : Derives (.members ms) s) : Derives (.members ms) (l ++ s) := by
  rw [derives_members_iff] at h ⊢
  exact h.append_left fun hm => hm.blank_member hl

private theorem Derives.element_blank {s r : Text} {v : Json} (h : Derives (.element v) s)
    (hr : IsBlank r) : Derives (.element v) (s ++ r) := by
  cases h with
  | element hl hv hr' =>
    rw [List.append_assoc, List.append_assoc]
    exact .element hl hv (hr'.append hr)

/-- White space behind a member belongs to its value. -/
theorem Derives.member_blank {s r : Text} {m : Text × Json} (h : Derives (.member m) s)
    (hr : IsBlank r) : Derives (.member m) (s ++ r) := by
  cases h with
  | member hl hn hr' h =>
    rw [List.append_assoc, List.append_assoc, List.append_assoc, List.cons_append]
    exact .member hl hn hr' (h.element_blank hr)

/-! ## Section 6: The value of a tree -/

/-- The value of a tree, a repeated name taking its last value in its first place. -/
def merge : Json → Json
  | .arr items => .arr (mergeItems items)
  | .obj es => .obj (Entries.ofMembers (mergeEntries es))
  | v => v
where
  /-- The values of the items of an array. -/
  mergeItems : List Json → List Json
    | [] => []
    | v :: rest => merge v :: mergeItems rest
  /-- The members of an object with their values. -/
  mergeEntries : List (Text × Json) → List (Text × Json)
    | [] => []
    | (k, v) :: rest => (k, merge v) :: mergeEntries rest

private theorem mergeItems_eq_map (items : List Json) :
    merge.mergeItems items = items.map merge := by
  induction items with
  | nil => rfl
  | cons v rest ih => rw [merge.mergeItems, ih, List.map_cons]

private theorem mergeEntries_eq_map (es : Entries Json) :
    merge.mergeEntries es = es.map fun e => (e.1, e.2.merge) := by
  induction es with
  | nil => rfl
  | cons e rest ih => rw [merge.mergeEntries, ih, List.map_cons]

/-- Merging goes through the items of an array. -/
theorem merge_arr (items : List Json) : (arr items).merge = .arr (items.map merge) := by
  rw [merge, mergeItems_eq_map]

/-- Merging goes through the values of an object and then merges its own names. -/
theorem merge_obj (es : Entries Json) :
    (obj es).merge = .obj (Entries.ofMembers (es.map fun e => (e.1, e.2.merge))) := by
  rw [merge, mergeEntries_eq_map]

/-- A tree without repeated names is its own value. -/
theorem merge_of_distinct {v : Json} (h : v.Every HasDistinctNames) : v.merge = v := by
  induction v using inductionOn with
  | null | bool _ | int _ | float _ | str _ => rfl
  | arr items ih =>
    have hitems : items.map merge = items.map id :=
      List.map_congr_left fun v hv => ih v hv ((every_arr.mp h).2 v hv)
    rw [merge_arr, hitems, List.map_id]
  -- the entries are merged each for itself, and putting distinct names in order changes nothing
  | obj es ih =>
    have hes : es.map (fun e => (e.1, e.2.merge)) = es.map id :=
      List.map_congr_left fun e he => congrArg (e.1, ·) (ih e he ((every_obj.mp h).2 e he))
    rw [merge_obj, hes, List.map_id, Entries.ofMembers_of_distinct h.self]

/-- Values without repeated names are left as they are. -/
theorem map_merge_of_distinct {es : Entries Json} (h : ∀ e ∈ es, e.2.Every HasDistinctNames) :
    es.map (fun e => (e.1, e.2.merge)) = es := by
  have hes : es.map (fun e => (e.1, e.2.merge)) = es.map id :=
    List.map_congr_left fun e he => congrArg (e.1, ·) (merge_of_distinct (h e he))
  rw [hes, List.map_id]

/-- Merging the members of an object adds no value. -/
theorem forall_mem_ofMembers (q : Json → Prop) {ms : Entries Json} (h : ∀ m ∈ ms, q m.2) :
    ∀ e ∈ Entries.ofMembers ms, q e.2 :=
  fun e he => h e (Entries.mem_of_mem_ofMembers he)

/-- Merging repeated names keeps every property that holds of all parts of a tree and does not
depend on the entries of an object. -/
theorem Every.merge {p : Json → Prop} (harr : ∀ items, p (.arr items)) (hobj : ∀ es, p (.obj es))
    {v : Json} (h : v.Every p) : v.merge.Every p := by
  -- merging only drops entries, and arrays and objects have the property anyway
  induction v using inductionOn with
  | null | bool _ | int _ | float _ | str _ => exact h
  | arr items ih =>
    rw [merge_arr]
    refine every_arr.mpr ⟨harr _, List.forall_mem_map.mpr ?_⟩
    intro v hv
    exact ih v hv ((every_arr.mp h).2 v hv)
  | obj es ih =>
    rw [merge_obj]
    refine every_obj.mpr ⟨hobj _, forall_mem_ofMembers (Every p) (List.forall_mem_map.mpr ?_)⟩
    intro e he
    exact ih e he ((every_obj.mp h).2 e he)

/-- In the value of a tree no name is repeated. -/
theorem distinct_merge (v : Json) : v.merge.Every HasDistinctNames := by
  induction v using inductionOn with
  | null | bool _ | int _ | float _ | str _ => exact every_of_parts_eq rfl trivial
  | arr items ih =>
    rw [merge_arr]
    exact every_arr.mpr ⟨trivial, List.forall_mem_map.mpr ih⟩
  | obj es ih =>
    rw [merge_obj]
    exact every_obj.mpr ⟨Entries.distinct_ofMembers _,
      forall_mem_ofMembers (Every HasDistinctNames) (List.forall_mem_map.mpr ih)⟩

/-- Merging makes nothing deeper; it can drop what is. -/
theorem depth_merge_le {v : Json} {n : Nat} (h : v.depth ≤ n) : v.merge.depth ≤ n := by
  -- an object that loses entries gets no deeper
  induction v using inductionOn generalizing n with
  | null | bool _ | int _ | float _ | str _ => exact h
  | arr items ih =>
    rw [merge_arr]
    cases n with
    | zero => simp [depth] at h
    | succ n =>
      refine depth_arr_le_iff.mpr (List.forall_mem_map.mpr ?_)
      intro v hv
      exact ih v hv (depth_arr_le_iff.mp h v hv)
  | obj es ih =>
    rw [merge_obj]
    cases n with
    | zero => simp [depth] at h
    | succ n =>
      refine depth_obj_le_iff.mpr (forall_mem_ofMembers (·.depth ≤ n) (List.forall_mem_map.mpr ?_))
      intro e he
      exact ih e he (depth_obj_le_iff.mp h e he)

/-! ## Section 7: What can be read -/

/-- A tree that is nested at most `room` deep and has no integer of too many digits. -/
def Fits (room : Nat) (v : Json) : Prop := v.depth ≤ room ∧ v.Every FitsDigits

instance (room : Nat) (v : Json) : Decidable (v.Fits room) :=
  inferInstanceAs (Decidable (v.depth ≤ room ∧ v.Every FitsDigits))

/-- A tree within the limits of the reader. -/
abbrev Readable (v : Json) : Prop := v.Fits maxDepth

/-- A string fits without any room. -/
theorem fits_str (room : Nat) (s : Text) : (str s).Fits room :=
  ⟨Nat.zero_le _, every_of_parts_eq rfl trivial⟩

/-- An array takes one level more than its items. -/
theorem fits_arr {room : Nat} {items : List Json} :
    (arr items).Fits (room + 1) ↔ ∀ v ∈ items, v.Fits room := by
  rw [Fits, depth_arr_le_iff, every_arr]
  exact ⟨fun h v hv => ⟨h.1 v hv, h.2.2 v hv⟩,
    fun h => ⟨fun v hv => (h v hv).1, trivial, fun v hv => (h v hv).2⟩⟩

/-- An object takes one level more than its values. -/
theorem fits_obj {room : Nat} {es : Entries Json} :
    (obj es).Fits (room + 1) ↔ ∀ e ∈ es, e.2.Fits room := by
  rw [Fits, depth_obj_le_iff, every_obj]
  exact ⟨fun h e he => ⟨h.1 e he, h.2.2 e he⟩,
    fun h => ⟨fun e he => (h e he).1, trivial, fun e he => (h e he).2⟩⟩

/-- An array needs room for its brackets. -/
theorem Fits.pos_of_arr {room : Nat} {items : List Json}
    (h : (arr items).Fits room) : ∃ n, room = n + 1 := by
  cases room with
  | zero => exact absurd h.1 (by simp [depth])
  | succ n => exact ⟨n, rfl⟩

/-- An object needs room for its braces. -/
theorem Fits.pos_of_obj {room : Nat} {es : Entries Json}
    (h : (obj es).Fits room) : ∃ n, room = n + 1 := by
  cases room with
  | zero => exact absurd h.1 (by simp [depth])
  | succ n => exact ⟨n, rfl⟩

/-- What fits also fits when repeated names are merged. -/
theorem Fits.merge {room : Nat} {v : Json} (h : v.Fits room) : v.merge.Fits room :=
  ⟨depth_merge_le h.1, h.2.merge (fun _ => trivial) fun _ => trivial⟩

/-- Sorting names does not change whether a value fits. -/
theorem fits_sortNames {room : Nat} {v : Json} : v.sortNames.Fits room ↔ v.Fits room := by
  rw [Fits, Fits, depth_sortNames, every_sortNames fitsDigits_sortNames]

end FormSchema.Json
