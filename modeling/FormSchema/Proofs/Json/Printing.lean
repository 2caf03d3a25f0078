import FormSchema.Proofs.Json.Escapes
import FormSchema.Proofs.Json.Soundness
import Mathlib.Data.List.Forall2

/-!
# What is printed is derived

Every value without fractional numbers is printed as a text that the grammar derives for it, however
it is laid out; in ASCII, if its strings have no surrogate pair in two halves.  The texts of arrays
and objects are built from the texts of their parts by one lemma each, which says nothing of how the
parts came about.
-/

namespace FormSchema.Json

/-! ## Section 1: Integers -/

private theorem digitsValue_concat (ds : Text) (d : CodePoint) :
    digitsValue (ds ++ [d]) = 10 * digitsValue ds + d.digitValue := by
  rw [digitsValue, List.foldl_append]
  rfl

private theorem digitValue_digitChar {n : Nat} (h : n < 10) :
    (CodePoint.scalar (Nat.digitChar n)).digitValue = n :=
  Nat.toNat_digitChar_sub_48_of_lt_ten h

private theorem ofNat_of_base_le {n : Nat} (h : 10 ≤ n) :
    Text.ofNat n = Text.ofNat (n / 10) ++ [.scalar (Nat.digitChar (n % 10))] := by
  rw [Text.ofNat, Nat.toDigits_of_base_le (by decide) h, List.map_append]
  rfl

private theorem ofNat_of_lt_base {n : Nat} (h : n < 10) :
    Text.ofNat n = [.scalar (Nat.digitChar n)] := by
  rw [Text.ofNat, Nat.toDigits_of_lt_base h]
  rfl

/-- The digits of a number write it. -/
theorem digitsValue_ofNat (n : Nat) : digitsValue (Text.ofNat n) = n := by
  induction n using Nat.strongRecOn with
  | ind n ih =>
    -- on the number, which loses its last digit
    by_cases h : n < 10
    · rw [ofNat_of_lt_base h, ← List.nil_append [_], digitsValue_concat, digitValue_digitChar h]
      exact Nat.zero_add n
    · have hmod : n % 10 < 10 := Nat.mod_lt n (by decide)
      rw [ofNat_of_base_le (Nat.not_lt.mp h), digitsValue_concat, ih (n / 10) (by omega),
        digitValue_digitChar hmod]
      omega

/-- A number is written in digits. -/
theorem isDigits_ofNat (n : Nat) : IsDigits (Text.ofNat n) := by
  refine ⟨fun h => Nat.toDigits_ne_nil (List.map_eq_nil_iff.mp h), ?_⟩
  rw [Text.ofNat, List.forall_mem_map]
  intro c hc
  exact Nat.isDigit_of_mem_toDigits (by decide) (by decide) hc

/-- No number but zero begins with a zero. -/
theorem head_ofNat {n : Nat} (h : 0 < n) : (Text.ofNat n).head? ≠ some (.scalar '0') := by
  -- the first digit is that of a tenth of the number
  induction n using Nat.strongRecOn with
  | ind n ih =>
    by_cases hlt : n < 10
    · rw [ofNat_of_lt_base hlt]
      intro heq
      have hzero : Nat.digitChar n = '0' := CodePoint.scalar.inj (Option.some.inj heq)
      rw [Nat.digitChar_eq_zero] at hzero
      omega
    · rw [ofNat_of_base_le (Nat.not_lt.mp hlt), List.head?_append_of_ne_nil _ (isDigits_ofNat _).1]
      exact ih (n / 10) (by omega) (by omega)

/-- A number is written as the grammar has it, without a leading zero. -/
theorem isWhole_ofNat (n : Nat) : IsWhole (Text.ofNat n) := by
  cases n with
  | zero => exact .inl rfl
  | succ n => exact .inr ⟨isDigits_ofNat _, head_ofNat (Nat.succ_pos n)⟩

/-- An integer is printed as a sign and digits, with neither fraction nor exponent. -/
theorem writesNumeral_ofInt (n : Int) :
    WritesNumeral ⟨decide (n < 0), Text.ofNat n.natAbs, none, none⟩ (Text.ofInt n) := by
  have hwrites := WritesNumeral.mk (decide (n < 0)) (isWhole_ofNat n.natAbs) .absent .absent
  -- no fraction and no power, so that only the sign is in front of the digits
  have htext : Text.ofInt n = (if decide (n < 0) then [CodePoint.scalar '-'] else []) ++
      (Text.ofNat n.natAbs ++ ([] ++ [])) := by
    rw [Text.ofInt]
    by_cases hn : n < 0 <;> simp [hn]
  rwa [htext]

private theorem derives_ofInt (n : Int) : Derives (.value (.int n)) (Text.ofInt n) := by
  have hmeaning : Json.int n =
      Numeral.meaning ⟨decide (n < 0), Text.ofNat n.natAbs, none, none⟩ := by
    simp only [Numeral.meaning, digitsValue_ofNat, decide_eq_true_iff, Json.int.injEq]
    split <;> omega
  rw [hmeaning]
  exact .number (writesNumeral_ofInt n)

/-! ## Section 2: Arrays and objects -/

/-- What holds of a list in brackets if it holds of its last item and is carried on by an item in
front, a comma between the two, holds of joined items, whatever white space stands there. -/
theorem join_items {α : Type} {R : α → Text → Prop} {P : List α → Text → Prop} {l m r : Text}
    (hlast : ∀ ⦃a t l⦄, IsBlank l → R a t → P [a] (l ++ (t ++ r)))
    (hmore : ∀ ⦃a t as s l⦄, IsBlank l → R a t → P as s →
      P (a :: as) (l ++ (t ++ .scalar ',' :: s)))
    (hm : IsBlank m) {as : List α} {texts : List Text} (hne : texts ≠ [])
    (h : List.Forall₂ R as texts) (hl : IsBlank l) :
    P as (l ++ (Text.join (.scalar ',' :: m) texts ++ r)) := by
  -- the white space in front stays general: for all items but the first it is that behind a comma
  induction h generalizing l with
  | nil => exact absurd rfl hne
  | @cons a t as texts ha htail ih =>
    cases htail with
    | nil =>
      rw [Text.join, List.intercalate_singleton]
      exact hlast hl ha
    | @cons b u bs us hb hbs =>
      have hrest := hmore hl ha (ih (List.cons_ne_nil _ _) hm)
      rw [Text.join, List.intercalate_cons_of_ne_nil (List.cons_ne_nil _ _)]
      simpa [Text.join] using hrest

section Brackets

variable {l m r : Text} (hm : IsBlank m) (hr : IsBlank r)
include hm hr

/-- Items with commas between them make up an array. -/
theorem derives_elements {vs : List Json} {texts : List Text} (hne : texts ≠ [])
    (h : List.Forall₂ (fun v t => Derives (.value v) t) vs texts) (hl : IsBlank l) :
    Derives (.elements vs) (l ++ (Text.join (.scalar ',' :: m) texts ++ r)) := by
  apply join_items (P := fun vs s => Derives (.elements vs) s) _ _ hm hne h hl
  · intro v t l hl hv
    exact .lastElement (.element hl hv hr)
  · intro v t vs s l hl hv hs
    have hmore := Derives.moreElements (.element hl hv isBlank_nil) hs
    simpa using hmore

/-- Members with commas between them make up an object. -/
theorem derives_members {ms : List (Text × Json)} {texts : List Text} (hne : texts ≠ [])
    (h : List.Forall₂ (fun e t => Derives (.member e) t) ms texts) (hl : IsBlank l) :
    Derives (.members ms) (l ++ (Text.join (.scalar ',' :: m) texts ++ r)) := by
  apply join_items (P := fun ms s => Derives (.members ms) s) _ _ hm hne h hl
  · intro e t l hl he
    exact .lastMember ((he.member_blank hr).blank_member hl)
  · intro e t ms s l hl he hs
    have hmore := Derives.moreMembers (he.blank_member hl) hs
    simpa using hmore

end Brackets

/-- A line feed and the margin behind it are white space. -/
theorem isBlank_newline (style : Style) (depth : Nat) : IsBlank (style.newline depth) := by
  rw [Style.newline]
  -- nothing, or a line feed and spaces
  split
  · exact isBlank_nil
  · intro c hc
    rcases List.mem_cons.mp hc with rfl | hc
    · rfl
    · rw [List.eq_of_mem_replicate hc]
      rfl

/-- Behind the comma between neighbours stands nothing but white space. -/
theorem separator_eq {style : Style} (hgap : IsBlank style.gap) (depth : Nat) :
    ∃ m, IsBlank m ∧ style.separator depth = .scalar ',' :: m := by
  rw [Style.separator]
  split
  · exact ⟨_, hgap, rfl⟩
  · exact ⟨_, isBlank_newline style depth, rfl⟩

section Style

variable {style : Style} (hgap : IsBlank style.gap)
include hgap

/-- Parts between brackets stand there with commas and white space. -/
theorem enclose_eq (depth : Nat) (opening closing : Char) {texts : List Text} (hne : texts ≠ []) :
    ∃ l m r, IsBlank l ∧ IsBlank m ∧ IsBlank r ∧ style.enclose depth opening closing texts =
      .scalar opening ::
        ((l ++ (Text.join (.scalar ',' :: m) texts ++ r)) ++ [.scalar closing]) := by
  obtain ⟨m, hm, hsep⟩ := separator_eq hgap (depth + 1)
  -- with parts there are gaps; all of them are blank
  have hparts : ¬ texts.isEmpty = true := by
    rw [List.isEmpty_iff]
    exact hne
  refine ⟨_, m, _, isBlank_newline style (depth + 1), hm, isBlank_newline style depth, ?_⟩
  rw [Style.enclose, if_neg hparts, hsep]
  simp

/-- Values between square brackets make an array, with white space between them. -/
theorem derives_enclose_array (depth : Nat) {vs : List Json} {texts : List Text}
    (h : List.Forall₂ (fun v t => Derives (.value v) t) vs texts) :
    Derives (.value (.arr vs)) (style.enclose depth '[' ']' texts) := by
  cases h with
  | nil => exact .emptyArray isBlank_nil
  | @cons v t vs texts hv hvs =>
    obtain ⟨l, m, r, hl, hm, hr, heq⟩ := enclose_eq hgap depth '[' ']' (List.cons_ne_nil t texts)
    rw [heq]
    exact .array (derives_elements hm hr (List.cons_ne_nil _ _) (.cons hv hvs) hl)

/-- Members between braces make an object, with white space between them. -/
theorem derives_enclose_object (depth : Nat) {ms : List (Text × Json)} {texts : List Text}
    (h : List.Forall₂ (fun e t => Derives (.member e) t) ms texts) :
    Derives (.value (.obj ms)) (style.enclose depth '\x7b' '\x7d' texts) := by
  cases h with
  | nil => exact .emptyObject isBlank_nil
  | @cons e t ms texts he hes =>
    obtain ⟨l, m, r, hl, hm, hr, heq⟩ :=
      enclose_eq hgap depth '\x7b' '\x7d' (List.cons_ne_nil t texts)
    rw [heq]
    exact .object (derives_members hm hr (List.cons_ne_nil _ _) (.cons he hes) hl)

/-! ## Section 3: Values -/

/-- A string without a surrogate pair in two halves, or an object without such a name. -/
def HasJoinedStrings : Json → Prop
  | str s => s.IsJoined
  | obj es => ∀ e ∈ es, Text.IsJoined e.1
  | _ => True

instance : DecidablePred HasJoinedStrings := fun
  | str s => inferInstanceAs (Decidable s.IsJoined)
  | obj es => inferInstanceAs (Decidable (∀ e ∈ es, Text.IsJoined e.1))
  | null | bool _ | int _ | float _ | arr _ => isTrue trivial

/-- A printed entry, given the text of its value. -/
def printEntry (style : Style) (name text : Text) : Text :=
  printString style.ascii name ++ .scalar ':' :: style.gap ++ text

/-- The text of an entry at a depth. -/
def entryText (style : Style) (depth : Nat) (e : Text × Json) : Text :=
  printEntry style e.1 (printAt style depth e.2)

omit hgap in
/-- The text of a value is at the end of that of the entry. -/
theorem printEntry_append (name s t : Text) :
    printEntry style name (s ++ t) = printEntry style name s ++ t := by
  rw [printEntry, printEntry, ← List.append_assoc]

omit hgap in
/-- Items are printed one by one. -/
theorem printItems_eq_map (depth : Nat) (items : List Json) :
    printItems style depth items = items.map (printAt style depth) := by
  induction items with
  | nil => rfl
  | cons v rest ih => rw [printItems, ih, List.map_cons]

omit hgap in
/-- Entries are printed one by one. -/
theorem printEntries_eq_map (depth : Nat) (es : Entries Json) :
    printEntries style depth es = es.map (entryText style depth) := by
  induction es with
  | nil => rfl
  | cons e rest ih => rw [printEntries, ih, List.map_cons, entryText, printEntry]

/-- In ASCII a name is read back if it has no surrogate pair in two halves. -/
theorem derives_joined_entry {name : Text} (hname : style.ascii = true → name.IsJoined)
    {text : Text} {v : Json} (h : Derives (.value v) text) :
    Derives (.member (name, v)) (printEntry style name text) := by
  have helement := Derives.element hgap h isBlank_nil
  have hmember := Derives.member isBlank_nil (spells_escaped hname) isBlank_nil helement
  rw [printEntry, printString_eq]
  simpa using hmember

/-- A value without fractional numbers is derived from its printed text, if no string in it would be
read with a pair joined. -/
theorem derives_joined {v : Json} (hv : v.Every IsExact)
    (hjoined : style.ascii = true → v.Every HasJoinedStrings) (depth : Nat) :
    Derives (.value v) (printAt style depth v) := by
  -- on the value, at every depth
  induction v using inductionOn generalizing depth with
  | null => exact .null
  | bool b =>
    cases b with
    | true => exact .boolTrue
    | false => exact .boolFalse
  | int n => exact derives_ofInt n
  | float x => exact absurd hv.self id
  | str s =>
    rw [printAt, printString_eq]
    exact .string (spells_escaped fun hascii => (hjoined hascii).self)
  | arr items ih =>
    rw [printAt, printItems_eq_map]
    refine derives_enclose_array hgap depth (List.forall₂_map_right_iff.mpr ?_)
    apply List.forall₂_same.mpr
    intro v hmem
    exact ih v hmem ((every_arr.mp hv).2 v hmem)
      (fun hascii => (every_arr.mp (hjoined hascii)).2 v hmem) (depth + 1)
  | obj es ih =>
    rw [printAt, printEntries_eq_map]
    refine derives_enclose_object hgap depth (List.forall₂_map_right_iff.mpr ?_)
    apply List.forall₂_same.mpr
    intro e hmem
    have hvalue := ih e hmem ((every_obj.mp hv).2 e hmem)
      (fun hascii => (every_obj.mp (hjoined hascii)).2 e hmem) (depth + 1)
    exact derives_joined_entry hgap (fun hascii => (hjoined hascii).self e hmem) hvalue

variable (hascii : style.ascii = false)
include hascii

/-- An entry is printed as a member. -/
theorem derives_printEntry (name : Text) {text : Text} {v : Json} (h : Derives (.value v) text) :
    Derives (.member (name, v)) (printEntry style name text) :=
  derives_joined_entry hgap (fun htrue => absurd htrue (Bool.eq_false_iff.mp hascii)) h

/-- A value without fractional numbers is derived from its printed text. -/
theorem derives_printAt {v : Json} (hv : v.Every IsExact) (depth : Nat) :
    Derives (.value v) (printAt style depth v) :=
  derives_joined hgap hv (fun htrue => absurd htrue (Bool.eq_false_iff.mp hascii)) depth

/-- All entries are printed as members. -/
theorem derives_entryTexts {es : Entries Json} (h : ∀ e ∈ es, e.2.Every IsExact) (depth : Nat) :
    List.Forall₂ (fun e t => Derives (.member e) t) es (es.map (entryText style depth)) := by
  refine List.forall₂_map_right_iff.mpr (List.forall₂_same.mpr fun e he => ?_)
  exact derives_printEntry hgap hascii e.1 (derives_printAt hgap hascii (h e he) depth)

/-- All items are printed as values. -/
theorem derives_itemTexts {items : List Json} (h : ∀ v ∈ items, v.Every IsExact) (depth : Nat) :
    List.Forall₂ (fun v t => Derives (.value v) t) items (items.map (printAt style depth)) := by
  refine List.forall₂_map_right_iff.mpr (List.forall₂_same.mpr fun v hv => ?_)
  exact derives_printAt hgap hascii (h v hv) depth

/-- A printed value is parsed as itself, in the order in which its entries stand. -/
theorem parse_print_iff {v : Json} (hv : v.Every IsExact) (hd : v.Every HasDistinctNames) :
    parse (print style v) = .ok v ↔ v.Readable := by
  have helement := Derives.element isBlank_nil (derives_printAt hgap hascii hv 0) isBlank_nil
  rw [List.nil_append, List.append_nil] at helement
  exact parse_of_derives_iff helement hd

end Style

/-! ## Section 4: Canonical texts -/

/-- The style of canonical texts. -/
def canonicalStyle (indent : Option Nat) : Style := ⟨indent, false, " "⟩

/-- There is a space behind the colon, or nothing. -/
theorem isBlank_canonical_gap (indent : Option Nat) : IsBlank (canonicalStyle indent).gap := by
  intro c hc
  rw [List.mem_singleton.mp hc]
  rfl

/-- A printed value is parsed as itself, whether or not it is laid out. -/
theorem parse_print_canonicalStyle (v : Json) (indent : Option Nat) (hv : v.Every IsExact)
    (hd : v.Every HasDistinctNames) (hreadable : v.Readable) :
    parse (print (canonicalStyle indent) v) = .ok v :=
  (parse_print_iff (isBlank_canonical_gap indent) rfl hv hd).mpr hreadable

/-- The line feed at the end is white space. -/
theorem isBlank_lineFeed : IsBlank [.lineFeed] := by
  intro c hc
  rw [List.mem_singleton.mp hc]
  rfl

/-- The canonical text of a value is one of the value with its names sorted. -/
theorem derives_canonical {v : Json} (hv : v.Every IsExact) (indent : Option Nat) :
    Derives (.element v.sortNames) (v.canonical indent) := by
  have hsorted : v.sortNames.Every IsExact := (every_sortNames isExact_sortNames).mpr hv
  have hprint := derives_printAt (isBlank_canonical_gap indent) rfl hsorted 0
  exact .element isBlank_nil hprint isBlank_lineFeed

/-- The canonical text of a value is parsed as the value with its names sorted. -/
theorem parse_canonical_iff {v : Json} (hv : v.Every IsExact) (hd : v.Every HasDistinctNames)
    (indent : Option Nat) : parse (v.canonical indent) = .ok v.sortNames ↔ v.Readable := by
  have hsorted : v.sortNames.Every HasDistinctNames :=
    (every_sortNames hasDistinctNames_sortNames).mpr hd
  rw [parse_of_derives_iff (derives_canonical hv indent) hsorted, Readable, fits_sortNames]

end FormSchema.Json
