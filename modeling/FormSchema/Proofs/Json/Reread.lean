import FormSchema.Proofs.Decimal.Numerals
import FormSchema.Proofs.Json.Unambiguous

/-!
# What a printed text is read as

The text of any value, with fractional numbers in it or without, is read as nothing but the value
itself with its fractional numbers read back, so that names, strings and shapes are kept.  The names
of infinities and of not-a-number are not read at all, and neither is a text with one of them.
-/

namespace FormSchema.Json

/-! ## Section 1: Reading back -/

/-- The number that the text of a double is read as; the names of other doubles are no numerals. -/
def rereadFloat (x : Binary64) : Json :=
  match takeNumeral? (x.text .json) with
  | some (n, _) => n.meaning
  | none => .float x

/-- A value with its fractional numbers as they are read from their texts. -/
def reread : Json → Json
  | .float x => rereadFloat x
  | .arr items => .arr (rereadItems items)
  | .obj es => .obj (rereadEntries es)
  | v => v
where
  /-- The items of an array, each read back. -/
  rereadItems : List Json → List Json
    | [] => []
    | v :: rest => reread v :: rereadItems rest
  /-- The entries of an object, each with its value read back. -/
  rereadEntries : List (Text × Json) → List (Text × Json)
    | [] => []
    | (k, v) :: rest => (k, reread v) :: rereadEntries rest

/-- The items of an array are read back one by one. -/
theorem reread_arr (items : List Json) : (arr items).reread = .arr (items.map reread) := by
  suffices h : reread.rereadItems items = items.map reread from congrArg arr h
  induction items with
  | nil => rfl
  | cons v rest ih => rw [reread.rereadItems, ih, List.map_cons]

/-- The values of an object are read back one by one. -/
theorem reread_obj (es : Entries Json) :
    (obj es).reread = .obj (es.map fun e => (e.1, e.2.reread)) := by
  suffices h : reread.rereadEntries es = es.map fun e => (e.1, e.2.reread) from congrArg obj h
  induction es with
  | nil => rfl
  | cons e rest ih => rw [reread.rereadEntries, ih, List.map_cons]

/-- A number, whole or fractional. -/
def IsNumber : Json → Prop
  | int _ => True
  | float _ => True
  | _ => False

/-- A numeral means a number. -/
theorem Numeral.isNumber_meaning (n : Numeral) : n.meaning.IsNumber := by
  obtain ⟨negative, whole, fraction, power⟩ := n
  cases fraction with
  | some ds => trivial
  | none =>
    cases power with
    | some e => trivial
    | none => trivial

/-- A double is read back as a number, if at all. -/
theorem isNumber_rereadFloat (x : Binary64) : (rereadFloat x).IsNumber := by
  rw [rereadFloat]
  split
  · exact Numeral.isNumber_meaning _
  · trivial

/-! ## Section 2: Doubles -/

/-- The text of a finite double is a numeral, and the double is read back as what that means. -/
theorem rereadFloat_finite (negative : Bool) (m : Nat) (e : Int) :
    ∃ n, WritesNumeral n (Binary64.text .json (.finite negative m e)) ∧
      rereadFloat (.finite negative m e) = n.meaning := by
  obtain ⟨n, hn⟩ := Binary64.writesNumeral_text negative m e .json
  have htake : takeNumeral? (Binary64.text .json (.finite negative m e) ++ []) = some (n, []) :=
    takeNumeral_append hn nofun
  rw [List.append_nil] at htake
  exact ⟨n, hn, by rw [rereadFloat, htake]⟩

/-- A finite double is written as a number that is read back as the value says. -/
theorem derives_float (negative : Bool) (m : Nat) (e : Int) :
    Derives (.value (rereadFloat (.finite negative m e)))
      (Binary64.text .json (.finite negative m e)) := by
  obtain ⟨n, hn, hmeaning⟩ := rereadFloat_finite negative m e
  rw [hmeaning]
  exact .number hn

/-- No value begins with the name of a double that is not finite. -/
theorem Derives.not_name {w : Json} {t : Text} (h : Derives (.value w) t) {x : Binary64}
    (hx : x.isFinite = false) (r q : Text) : x.text .json ++ r ≠ t ++ q := by
  intro heq
  cases x with
  | finite negative m e => cases hx
  | nan =>
    cases h with
    | number hn => exact hn.append_ne_cons rfl (by decide) q _ heq.symm
    | _ => cases heq
  | infinite negative =>
    cases negative with
    | false =>
      cases h with
      | number hn => exact hn.append_ne_cons rfl (by decide) q _ heq.symm
      | _ => cases heq
    | true =>
      cases h with
      | number hn =>
        obtain ⟨rest, hrest⟩ : ∃ rest, Binary64.text .json (.infinite true) ++ r =
            .scalar '-' :: .scalar 'I' :: rest := ⟨_, rfl⟩
        rw [hrest] at heq
        -- a digit stands behind the minus sign of a numeral
        obtain ⟨d, tail, hd, rfl | rfl⟩ := hn.eq_cons
        · exact ne_of_isDigit hd rfl (List.cons.inj heq).1
        · exact ne_of_isDigit hd rfl (List.cons.inj (List.cons.inj heq).2).1
      | _ => cases heq

private theorem unique_float (x : Binary64) : Unique (.value (rereadFloat x)) (x.text .json) := by
  cases hx : x.isFinite with
  | true =>
    cases x with
    | finite negative m e => exact unique_of_derives (derives_float negative m e)
    | _ => cases hx
  | false =>
    intro w t r q h _ _ heq
    exact absurd heq (h.not_name hx r q)

/-- The text of a double begins as a value can begin, also for the three that are not numbers. -/
theorem beginsValue_float (x : Binary64) : BeginsValue (x.text .json) := by
  cases x with
  | finite negative m e => exact (derives_float negative m e).beginsValue
  | nan => exact ⟨_, _, rfl, rfl, by decide⟩
  | infinite negative => cases negative <;> exact ⟨_, _, rfl, rfl, by decide⟩

/-! ## Section 3: Arrays and objects -/

/-- A text that is read as one value at most, and as such begins like a value. -/
structure ReadOnlyAs (v : Json) (s : Text) : Prop where
  unique : Unique (.value v) s
  begins : BeginsValue s

private theorem Derives.readOnlyAs {v : Json} {s : Text} (h : Derives (.value v) s) :
    ReadOnlyAs v s :=
  ⟨unique_of_derives h, h.beginsValue⟩

private theorem BeginsValue.notBlank {l s : Text} (hs : BeginsValue s) (hl : IsBlank l)
    (rest : Text) :
    NotBlankBefore (.scalar ']') (l ++ (s ++ rest)) := by
  obtain ⟨c, tail, rfl, hc, hne⟩ := hs
  exact notBlankBefore_gap rfl hc hne hl rest

/-- A text that is read as one member at most, whatever white space stands around it. -/
structure MemberReadOnlyAs (m : Text × Json) (s : Text) : Prop where
  unique : ∀ ⦃l r⦄, IsBlank l → IsBlank r → Unique (.member m) (l ++ (s ++ r))
  begins : ∃ rest, s = .scalar '"' :: rest

private theorem MemberReadOnlyAs.notBlank {m : Text × Json} {l s : Text} (hs : MemberReadOnlyAs m s)
    (hl : IsBlank l) (rest : Text) :
    NotBlankBefore (.scalar '\x7d') (l ++ (s ++ rest)) := by
  obtain ⟨tail, rfl⟩ := hs.begins
  exact notBlankBefore_gap rfl rfl (by decide) hl rest

section Brackets

variable {l m r : Text} (hm : IsBlank m) (hr : IsBlank r)
include hm hr

private theorem unique_elements {vs : List Json} {texts : List Text} (hne : texts ≠ [])
    (h : List.Forall₂ ReadOnlyAs vs texts) (hl : IsBlank l) :
    Unique (.elements vs) (l ++ (Text.join (.scalar ',' :: m) texts ++ r)) := by
  apply join_items (P := fun vs s => Unique (.elements vs) s) _ _ hm hne h hl
  · intro v t l hl hv
    exact unique_lastElement (unique_element hl hv.begins hr hv.unique)
  · intro v t vs s l hl hv hs
    have hmore := unique_moreElements (unique_element hl hv.begins isBlank_nil hv.unique) hs
    simpa using hmore

private theorem unique_members {ms : List (Text × Json)} {texts : List Text} (hne : texts ≠ [])
    (h : List.Forall₂ MemberReadOnlyAs ms texts) (hl : IsBlank l) :
    Unique (.members ms) (l ++ (Text.join (.scalar ',' :: m) texts ++ r)) := by
  apply join_items (P := fun ms s => Unique (.members ms) s) _ _ hm hne h hl
  · intro e t l hl he
    exact unique_lastMember (he.unique hl hr)
  · intro e t ms s l hl he hs
    have hmore := unique_moreMembers (he.unique hl isBlank_nil) hs
    simpa using hmore

end Brackets

section Style

variable {style : Style} (hgap : IsBlank style.gap)
include hgap

/-- An array can be read only as an array of what its items can be read as. -/
theorem readOnlyAs_enclose_array (depth : Nat) {vs : List Json} {texts : List Text}
    (h : List.Forall₂ ReadOnlyAs vs texts) :
    ReadOnlyAs (.arr vs) (style.enclose depth '[' ']' texts) := by
  cases h with
  | nil => exact Derives.readOnlyAs (.emptyArray isBlank_nil)
  | @cons v t vs texts hv hvs =>
    obtain ⟨l, m, r, hl, hm, hr, heq⟩ := enclose_eq hgap depth '[' ']' (List.cons_ne_nil t texts)
    have hunique := unique_elements hm hr (List.cons_ne_nil _ _) (.cons hv hvs) hl
    -- the first item stands in front of the others
    have hblank := hv.begins.notBlank hl (texts.flatMap (.scalar ',' :: m ++ ·) ++ r)
    rw [← List.append_assoc t, ← Text.join_cons] at hblank
    rw [heq]
    exact ⟨unique_array hblank hunique, _, _, rfl, rfl, by decide⟩

/-- An object can be read only as an object of what its members can be read as. -/
theorem readOnlyAs_enclose_object (depth : Nat) {ms : List (Text × Json)} {texts : List Text}
    (h : List.Forall₂ MemberReadOnlyAs ms texts) :
    ReadOnlyAs (.obj ms) (style.enclose depth '\x7b' '\x7d' texts) := by
  cases h with
  | nil => exact Derives.readOnlyAs (.emptyObject isBlank_nil)
  | @cons e t ms texts he hes =>
    -- all gaps are blank, so that nothing but the members can be read
    obtain ⟨l, m, r, hl, hm, hr, heq⟩ :=
      enclose_eq hgap depth '\x7b' '\x7d' (List.cons_ne_nil t texts)
    have hunique := unique_members hm hr (List.cons_ne_nil _ _) (.cons he hes) hl
    have hblank := he.notBlank hl (texts.flatMap (.scalar ',' :: m ++ ·) ++ r)
    rw [← List.append_assoc t, ← Text.join_cons] at hblank
    rw [heq]
    exact ⟨unique_object hblank hunique, _, _, rfl, rfl, by decide⟩

/-! ## Section 4: Values -/

variable (hascii : style.ascii = false)
include hascii

/-- A member can be read only with its name and with what its value can be read as. -/
theorem memberReadOnlyAs_printEntry (name : Text) {v : Json} {text : Text}
    (h : ReadOnlyAs v text) : MemberReadOnlyAs (name, v) (printEntry style name text) := by
  rw [printEntry, hascii, printString_eq]
  refine ⟨fun l r hl hr => ?_, _, rfl⟩
  have helement := unique_element hgap h.begins hr h.unique
  have hmember := unique_member hl (spells_printed name) isBlank_nil helement
  simpa using hmember

/-- A scalar that is no double is written as itself. -/
theorem derives_scalar {v : Json} (hparts : v.parts = [v]) (hv : v.IsExact) (depth : Nat) :
    Derives (.value v) (printAt style depth v) :=
  derives_printAt hgap hascii (every_of_parts_eq hparts hv) depth

/-- The text of a value is read as nothing but the value with its numbers read back. -/
theorem readOnlyAs_printAt (v : Json) (depth : Nat) :
    ReadOnlyAs v.reread (printAt style depth v) := by
  -- a value that is read back is no other value, and so are all its parts
  induction v using inductionOn generalizing depth with
  | null | bool _ | int _ | str _ =>
    exact Derives.readOnlyAs (derives_scalar hgap hascii rfl (by trivial) depth)
  | float x => exact ⟨unique_float x, beginsValue_float x⟩
  | arr items ih =>
    rw [printAt, printItems_eq_map, reread_arr]
    apply readOnlyAs_enclose_array hgap
    rw [List.forall₂_map_left_iff, List.forall₂_map_right_iff]
    exact List.forall₂_same.mpr fun v hv => ih v hv (depth + 1)
  | obj es ih =>
    rw [printAt, printEntries_eq_map, reread_obj]
    apply readOnlyAs_enclose_object hgap
    rw [List.forall₂_map_left_iff, List.forall₂_map_right_iff]
    apply List.forall₂_same.mpr
    intro e he
    exact memberReadOnlyAs_printEntry hgap hascii e.1 (ih e he (depth + 1))

end Style

/-- A canonical text that is parsed at all is parsed as the value of the tree that its text is read
as. -/
theorem eq_of_parse_canonical {v w : Json} {indent : Option Nat}
    (h : parse (v.canonical indent) = .ok w) : w = v.sortNames.reread.merge := by
  obtain ⟨u, hu, _, rfl⟩ := parse_eq_ok_iff.mp h
  have hread := readOnlyAs_printAt (isBlank_canonical_gap indent) rfl v.sortNames 0
  have hunique := unique_element isBlank_nil hread.begins isBlank_lineFeed hread.unique
  rw [(hunique hu stops_nil stops_nil rfl).1]

private theorem IsNumber.depth_eq {v : Json} (h : v.IsNumber) : v.depth = 0 := by
  cases v with
  | arr _ | obj _ => exact h.elim
  | _ => rfl

/-- Reading numbers back changes no brackets. -/
theorem depth_reread (v : Json) : v.reread.depth = v.depth := by
  induction v using inductionOn with
  | null | bool _ | int _ | str _ => rfl
  | float x =>
    -- a number is read in its place, if not the same one
    rw [reread, (isNumber_rereadFloat x).depth_eq]
    rfl
  | arr items ih =>
    rw [reread_arr]
    refine depth_arr_congr fun n => ?_
    rw [List.forall_mem_map]
    exact forall₂_congr fun v hv => by rw [ih v hv]
  | obj es ih =>
    rw [reread_obj]
    refine depth_obj_congr fun n => ?_
    rw [List.forall_mem_map]
    exact forall₂_congr fun e he => by rw [ih e he]

/-- What a canonical text is parsed as is no deeper than the value whose text it is. -/
theorem depth_of_parse_canonical {v w : Json} {indent : Option Nat}
    (h : parse (v.canonical indent) = .ok w) : w.depth ≤ v.depth := by
  rw [eq_of_parse_canonical h]
  refine depth_merge_le (Nat.le_of_eq ?_)
  rw [depth_reread, depth_sortNames]

end FormSchema.Json
