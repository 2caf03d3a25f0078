import FormSchema.Proofs.Datum.Canonical
import FormSchema.Proofs.Decimal.Overflow
import FormSchema.Proofs.Json.Reread

/-!
# Which canonical texts are parsed

The canonical text of a value that was parsed is parsed again exactly if all its fractional numbers
are finite, and then as the value with its names sorted and its fractional numbers read back.  A
numeral that is too great for a finite double is read as an infinity, but the name with which an
infinity is written is not read, and no text with one in it is the text of a value.
-/

namespace FormSchema.Json

/-! ## Section 1: Finite values -/

/-- Anything but an infinity or not-a-number. -/
def IsFinite : Json → Prop
  | float x => x.isFinite = true
  | _ => True

instance : DecidablePred IsFinite := fun
  | float x => inferInstanceAs (Decidable (x.isFinite = true))
  | null | bool _ | int _ | str _ | arr _ | obj _ => isTrue trivial

private theorem isFinite_sortNames (v : Json) : v.sortNames.IsFinite ↔ v.IsFinite := by
  cases v <;> exact Iff.rfl

section Style

variable {style : Style} (hgap : IsBlank style.gap) (hascii : style.ascii = false)
include hgap hascii

/-- The text of a finite value is one of the value with its numbers read back. -/
theorem derives_reread {v : Json} (hv : v.Every IsFinite) (depth : Nat) :
    Derives (.value v.reread) (printAt style depth v) := by
  -- only numbers change, and none that has no JSON is left
  induction v using inductionOn generalizing depth with
  | null | bool _ | int _ | str _ => exact derives_scalar hgap hascii rfl (by trivial) depth
  | float x =>
    cases x with
    | finite negative m e => exact derives_float negative m e
    | infinite negative => exact absurd hv.self Bool.false_ne_true
    | nan => exact absurd hv.self Bool.false_ne_true
  | arr items ih =>
    rw [printAt, printItems_eq_map, reread_arr]
    apply derives_enclose_array hgap
    rw [List.forall₂_map_left_iff, List.forall₂_map_right_iff]
    exact List.forall₂_same.mpr fun v hmem => ih v hmem ((every_arr.mp hv).2 v hmem) (depth + 1)
  | obj es ih =>
    rw [printAt, printEntries_eq_map, reread_obj]
    apply derives_enclose_object hgap
    rw [List.forall₂_map_left_iff, List.forall₂_map_right_iff]
    apply List.forall₂_same.mpr
    intro e he
    exact derives_printEntry hgap hascii e.1 (ih e he ((every_obj.mp hv).2 e he) (depth + 1))

end Style

/-! ## Section 2: Texts that are not read -/

/-- A text that is read as nothing but one value, and as nothing but another one, is not read. -/
theorem ReadOnlyAs.of_ne {v w : Json} {s : Text} (hv : ReadOnlyAs v s) (hw : ReadOnlyAs w s)
    (hne : v ≠ w) (u : Json) : ReadOnlyAs u s := by
  refine ⟨?_, hv.begins⟩
  intro x t r q h hr hq heq
  have hvx : v = x := (hv.unique h hr hq heq).1
  have hwx : w = x := (hw.unique h hr hq heq).1
  exact absurd (hvx.trans hwx.symm) hne

/-- What a value is read as: itself with its numbers read back if it is finite, else anything. -/
def rereadOr (other v : Json) : Json := if v.Every IsFinite then v.reread else other

/-- Two things for a value that is not finite are told apart. -/
theorem rereadOr_ne {v : Json} (hv : ¬v.Every IsFinite) :
    rereadOr .null v ≠ rereadOr (.int 0) v := by
  rw [rereadOr, rereadOr, if_neg hv, if_neg hv]
  nofun

section Style

variable {style : Style} (hgap : IsBlank style.gap) (hascii : style.ascii = false)
include hgap hascii

/-- A value that is not read back keeps the text around it from being read, and so stands for any
value. -/
private theorem readOnlyAs_rereadOr {v : Json} {depth : Nat}
    (ih : ¬v.Every IsFinite → ∀ u, ReadOnlyAs u (printAt style depth v)) (other : Json) :
    ReadOnlyAs (rereadOr other v) (printAt style depth v) := by
  by_cases hv : v.Every IsFinite
  · rw [rereadOr, if_pos hv]
    exact readOnlyAs_printAt hgap hascii v depth
  · exact ih hv _

/-- The text of a value that is not finite is not read. -/
theorem readOnlyAs_of_not_finite {v : Json} (hv : ¬v.Every IsFinite) (depth : Nat) (u : Json) :
    ReadOnlyAs u (printAt style depth v) := by
  induction v using inductionOn generalizing depth u with
  | null | bool _ | int _ | str _ => exact absurd (every_of_parts_eq rfl trivial) hv
  | float x =>
    have hx : x.isFinite = false := by
      by_contra hx
      exact hv (every_of_parts_eq rfl ((Bool.not_eq_false _).mp hx))
    refine ⟨?_, beginsValue_float x⟩
    intro w t r q h _ _ heq
    exact absurd heq (h.not_name hx r q)
  | arr items ih =>
    -- some item can be read as one thing and as another, and so can the array
    obtain ⟨v, hmem, hfinite⟩ : ∃ v ∈ items, ¬v.Every IsFinite := by
      by_contra hall
      exact hv (every_arr.mpr ⟨trivial, by simpa using hall⟩)
    have hread (other : Json) :
        ReadOnlyAs (.arr (items.map (rereadOr other))) (printAt style depth (.arr items)) := by
      rw [printAt, printItems_eq_map]
      apply readOnlyAs_enclose_array hgap
      rw [List.forall₂_map_left_iff, List.forall₂_map_right_iff]
      apply List.forall₂_same.mpr
      intro v hv
      exact readOnlyAs_rereadOr hgap hascii (fun hfinite => ih v hv hfinite (depth + 1)) other
    refine (hread .null).of_ne (hread (.int 0)) ?_ u
    intro heq
    exact rereadOr_ne hfinite (List.map_inj_left.mp (Json.arr.inj heq) v hmem)
  | obj es ih =>
    obtain ⟨e, hmem, hfinite⟩ : ∃ e ∈ es, ¬e.2.Every IsFinite := by
      by_contra hall
      exact hv (every_obj.mpr ⟨trivial, by simpa using hall⟩)
    have hread (other : Json) :
        ReadOnlyAs (.obj (es.map fun e => (e.1, rereadOr other e.2)))
          (printAt style depth (.obj es)) := by
      rw [printAt, printEntries_eq_map]
      apply readOnlyAs_enclose_object hgap
      rw [List.forall₂_map_left_iff, List.forall₂_map_right_iff]
      apply List.forall₂_same.mpr
      intro e he
      apply memberReadOnlyAs_printEntry hgap hascii
      exact readOnlyAs_rereadOr hgap hascii (fun hfinite => ih e he hfinite (depth + 1)) other
    refine (hread .null).of_ne (hread (.int 0)) ?_ u
    intro heq
    exact rereadOr_ne hfinite (Prod.mk.inj (List.map_inj_left.mp (Json.obj.inj heq) e hmem)).2

end Style

/-! ## Section 3: Numbers read back -/

/-- A numeral with a point or an exponent is a fractional number. -/
theorem WritesNumeral.meaning_eq_float {n : Numeral} {t : Text} (h : WritesNumeral n t)
    (hmark : .scalar '.' ∈ t ∨ .scalar 'e' ∈ t) : ∃ x, n.meaning = .float x := by
  cases h with
  | mk negative hw hf hp =>
    cases hf with
    | present => exact ⟨_, rfl⟩
    | absent =>
      cases hp with
      | present => exact ⟨_, rfl⟩
      | absent =>
        -- without both there are only digits, and a minus sign
        have hdigits (c : CodePoint) (hc : c ∈ _) := hw.isDigits.2 c hc
        rcases hmark with hmark | hmark
        · cases negative <;> simp at hmark <;> exact absurd (hdigits _ hmark) (by decide)
        · cases negative <;> simp at hmark <;> exact absurd (hdigits _ hmark) (by decide)

/-- The text of a decimal has a point or an exponent. -/
theorem mark_mem_text (d : Decimal) : .scalar '.' ∈ d.text ∨ .scalar 'e' ∈ d.text := by
  -- a point or a letter is in each of the four layouts
  have hpoint : CodePoint.scalar '.' ∈ ("0." : Text) ∧ .scalar '.' ∈ (".0" : Text) ∧
      .scalar '.' ∈ ("." : Text) := by decide
  have hletter : CodePoint.scalar 'e' ∈ ("e" : Text) := by decide
  rw [Decimal.text]
  split
  · left
    rw [Decimal.positional]
    split
    · simp only [List.mem_append, hpoint, true_or]
    · dsimp only
      split
      · simp only [List.mem_append, hpoint, or_true]
      · simp only [List.mem_append, hpoint, true_or, or_true]
  · right
    simp only [Decimal.scientific, Decimal.exponentText, List.mem_append, hletter, true_or, or_true]

/-- A finite double is read back as a double. -/
theorem rereadFloat_eq_float (negative : Bool) (m : Nat) (e : Int) :
    ∃ x, rereadFloat (.finite negative m e) = .float x := by
  obtain ⟨n, hn, hmeaning⟩ := rereadFloat_finite negative m e
  -- a point or an exponent, so that it is never read as an integer
  have hmark : .scalar '.' ∈ Binary64.text .json (.finite negative m e) ∨
      .scalar 'e' ∈ Binary64.text .json (.finite negative m e) := by
    cases m with
    | zero => exact .inl (List.mem_append_right _ (by decide))
    | succ m =>
      exact (mark_mem_text _).imp (List.mem_append_right _) (List.mem_append_right _)
  rw [hmeaning]
  exact hn.meaning_eq_float hmark

private theorem fits_reread {room : Nat} {v : Json} (hv : v.Every IsFinite) (h : v.Fits room) :
    v.reread.Fits room := by
  -- the shape stays, and a number that is read again is no integer
  induction v using inductionOn generalizing room with
  | null | bool _ | int _ | str _ => exact h
  | float x =>
    cases x with
    | finite negative m e =>
      obtain ⟨y, hy⟩ := rereadFloat_eq_float negative m e
      rw [reread, hy]
      have hdigits : FitsDigits (.float y) := trivial
      exact fits_scalar rfl rfl hdigits room
    | infinite negative => exact absurd hv.self Bool.false_ne_true
    | nan => exact absurd hv.self Bool.false_ne_true
  | arr items ih =>
    obtain ⟨room, rfl⟩ := h.pos_of_arr
    rw [reread_arr, fits_arr, List.forall_mem_map]
    intro v hmem
    exact ih v hmem ((every_arr.mp hv).2 v hmem) (fits_arr.mp h v hmem)
  | obj es ih =>
    obtain ⟨room, rfl⟩ := h.pos_of_obj
    rw [reread_obj, fits_obj, List.forall_mem_map]
    intro e he
    exact ih e he ((every_obj.mp hv).2 e he) (fits_obj.mp h e he)

/-- A number has no parts but itself. -/
theorem IsNumber.every_iff {v : Json} (h : v.IsNumber) {p : Json → Prop} : v.Every p ↔ p v := by
  refine ⟨Every.self, fun hp => ?_⟩
  cases v with
  | int n => exact every_of_parts_eq rfl hp
  | float x => exact every_of_parts_eq rfl hp
  | _ => exact absurd h id

private theorem distinct_reread {v : Json} (h : v.Every HasDistinctNames) :
    v.reread.Every HasDistinctNames := by
  -- the names stay as they are
  induction v using inductionOn with
  | null | bool _ | int _ | str _ => exact h
  | float x =>
    have hnumber := isNumber_rereadFloat x
    rw [reread, hnumber.every_iff]
    generalize rereadFloat x = v at hnumber
    cases v with
    | obj es => exact absurd hnumber id
    | _ => trivial
  | arr items ih =>
    rw [reread_arr, every_arr, List.forall_mem_map]
    exact ⟨trivial, fun v hv => ih v hv ((every_arr.mp h).2 v hv)⟩
  | obj es ih =>
    rw [reread_obj, every_obj, List.forall_mem_map]
    refine ⟨?_, fun e he => ih e he ((every_obj.mp h).2 e he)⟩
    have hnames : es.Distinct := h.self
    rw [Entries.Distinct, ← Entries.names_map (fun v => reread v)] at hnames
    exact hnames

/-! ## Section 4: Canonical texts -/

/-- The canonical text of a finite value is parsed. -/
theorem parse_canonical_of_finite {v : Json} (hv : v.Every IsFinite)
    (hd : v.Every HasDistinctNames) (hr : v.Readable) (indent : Option Nat) :
    parse (v.canonical indent) = .ok v.sortNames.reread := by
  have hfinite : v.sortNames.Every IsFinite := (every_sortNames isFinite_sortNames).mpr hv
  have hdistinct : v.sortNames.Every HasDistinctNames :=
    (every_sortNames hasDistinctNames_sortNames).mpr hd
  have hprint := derives_reread (isBlank_canonical_gap indent) rfl hfinite 0
  have helement : Derives (.element v.sortNames.reread) (v.canonical indent) :=
    .element isBlank_nil hprint isBlank_lineFeed
  exact (parse_of_derives_iff helement (distinct_reread hdistinct)).mpr
    (fits_reread hfinite (fits_sortNames.mpr hr))

/-- The canonical text of a value that is not finite is not parsed. -/
theorem finite_of_parse_canonical {v w : Json} {indent : Option Nat}
    (h : parse (v.canonical indent) = .ok w) : v.Every IsFinite := by
  by_contra hv
  have hsorted : ¬v.sortNames.Every IsFinite := mt (every_sortNames isFinite_sortNames).mp hv
  obtain ⟨u, hu, -⟩ := parse_eq_ok_iff.mp h
  have hread (x : Json) : x = u := by
    have hx := readOnlyAs_of_not_finite (isBlank_canonical_gap indent) rfl hsorted 0 x
    have hunique := unique_element isBlank_nil hx.begins isBlank_lineFeed hx.unique
    exact (hunique hu stops_nil stops_nil rfl).1
  exact nomatch (hread .null).trans (hread (.int 0)).symm

/-- Of what number a fractional numeral is rounded to a double. -/
def Numeral.decimal (n : Numeral) : Decimal :=
  ⟨digitsValue (n.whole ++ n.fraction.getD []), powerValue n.power - (n.fraction.getD []).length⟩

/-- A numeral is an integer, or it is fractional and its size decides whether it is finite. -/
theorem Numeral.isFinite_meaning_iff (n : Numeral) :
    n.meaning.IsFinite ↔
      (n.fraction = none ∧ n.power = none) ∨ n.decimal.toRat < Binary64.overflow := by
  obtain ⟨negative, whole, fraction, power⟩ := n
  -- with a fraction or a power the numeral is rounded, else it is an integer
  cases fraction with
  | some ds =>
    rw [or_iff_right (by simp)]
    exact Binary64.isFinite_ofDecimal_iff negative _
  | none =>
    cases power with
    | some e =>
      rw [or_iff_right (by simp)]
      exact Binary64.isFinite_ofDecimal_iff negative _
    | none => exact iff_of_true trivial (.inl ⟨rfl, rfl⟩)

end FormSchema.Json

namespace FormSchema.Datum

open Json (parse IsFinite WritesNumeral)

end FormSchema.Datum
