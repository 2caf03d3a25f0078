import FormSchema.Proofs.Json.Soundness

/-!
# White space exchanged

No numeral and no string holds a control, however it is written.  So the controls of a text that
are white space stand between its tokens, and other white space in their places writes the same
tree.
-/

namespace FormSchema.Json

/-! ## Section 1: Tokens without controls -/

/-- A text without control characters. -/
def NoControls (s : Text) : Prop := ∀ c ∈ s, ¬ c.toNat < 0x20

instance (s : Text) : Decidable (NoControls s) :=
  inferInstanceAs (Decidable (∀ c ∈ s, ¬ c.toNat < 0x20))

private theorem noControls_nil : NoControls [] := fun _ hc => absurd hc List.not_mem_nil

private theorem noControls_cons {c : CodePoint} {s : Text} :
    NoControls (c :: s) ↔ ¬ c.toNat < 0x20 ∧ NoControls s := List.forall_mem_cons

private theorem noControls_append {s t : Text} :
    NoControls (s ++ t) ↔ NoControls s ∧ NoControls t :=
  List.forall_mem_append

private theorem not_control_of_isDigit {d : CodePoint} (h : d.isDigit) : ¬ d.toNat < 0x20 := by
  have hrange := toNat_of_isDigit h
  omega

/-- A number is written without controls. -/
theorem WritesNumeral.noControls {n : Numeral} {s : Text} (h : WritesNumeral n s) :
    NoControls s := by
  have hothers : NoControls "+-.eE" := by decide
  exact fun c hc => (h.isNumeralPart c hc).elim not_control_of_isDigit (hothers c)

private theorem not_control_of_shortEscape {e p : CodePoint} (h : shortEscape? e = some p) :
    ¬ e.toNat < 0x20 := by
  unfold shortEscape? at h
  split at h
  case h_9 => cases h
  all_goals decide

private theorem not_control_of_hexValue {c : CodePoint} {n : Nat} (h : hexValue? c = some n) :
    ¬ c.toNat < 0x20 := by
  cases c with
  | surrogate s => cases h
  | scalar c =>
    intro hc
    -- the digits and both ranges of letters begin far above the controls
    have hlow {d : Char} (hd : 0x20 ≤ d.toNat) : ¬ d ≤ c := by
      intro hle
      have hd' : d.toNat ≤ c.toNat := UInt32.le_iff_toNat_le.mp (Char.le_def.mp hle)
      rw [CodePoint.toNat] at hc
      omega
    have hdigit := hlow (d := '0') (by decide)
    have hsmall := hlow (d := 'a') (by decide)
    have hcapital := hlow (d := 'A') (by decide)
    simp [hexValue?, hdigit, hsmall, hcapital] at h

private theorem noControls_of_hexFour {a b c d : CodePoint} {n : Nat}
    (h : hexFour? a b c d = some n) :
    NoControls [a, b, c, d] := by
  unfold hexFour? at h
  split at h
  · next ha hb hc hd =>
    exact noControls_cons.mpr ⟨not_control_of_hexValue ha, noControls_cons.mpr
      ⟨not_control_of_hexValue hb, noControls_cons.mpr ⟨not_control_of_hexValue hc,
        noControls_cons.mpr ⟨not_control_of_hexValue hd, noControls_nil⟩⟩⟩⟩
  · cases h

private theorem noControls_writtenUnit {a b c d : CodePoint} {n : Nat} {s : Text}
    (h : hexFour? a b c d = some n) (hs : NoControls s) : NoControls (writtenUnit a b c d s) := by
  have hunit : NoControls ([.scalar '\\', .scalar 'u'] ++ ([a, b, c, d] ++ s)) :=
    noControls_append.mpr ⟨by decide, noControls_append.mpr ⟨noControls_of_hexFour h, hs⟩⟩
  exact hunit

/-- Controls are always escaped in a string. -/
theorem Spells.noControls {s t : Text} (h : Spells s t) : NoControls s := by
  -- a control character in a string is always escaped, and the escapes have none
  induction h with
  | nil => exact noControls_nil
  | plain hq hb hc h ih => exact noControls_cons.mpr ⟨hc, ih⟩
  | short he h ih =>
    exact noControls_cons.mpr ⟨by decide, noControls_cons.mpr ⟨not_control_of_shortEscape he, ih⟩⟩
  | unit hn hs h ih => exact noControls_writtenUnit hn ih
  | pair hn hm hhigh hlow h ih => exact noControls_writtenUnit hn (noControls_writtenUnit hm ih)

/-- Quotation marks are no controls. -/
theorem noControls_inQuotes {s : Text} (h : NoControls s) : NoControls s.inQuotes :=
  noControls_append.mpr ⟨noControls_cons.mpr ⟨by decide, h⟩, by decide⟩

/-! ## Section 2: Other white space -/

/-- What is put in the place of each code point of a text: white space of any length for a control
that is white space, and the code point itself for any other than a control. -/
structure Respaces (f : CodePoint → Text) : Prop where
  blank : ∀ c, isSpace c → IsBlank (f c)
  other : ∀ c, ¬ c.toNat < 0x20 → f c = [c]

/-- White space in the place of one control. -/
theorem respaces_replacing {d : CodePoint} {w : Text} (hd : d.toNat < 0x20) (hw : IsBlank w) :
    Respaces fun c => if c = d then w else [c] where
  blank c hc := by
    split
    · exact hw
    · exact fun e he => List.mem_singleton.mp he ▸ hc
  other c hc := by
    -- a code point that is no control character is not the one that is replaced
    apply if_neg
    rintro rfl
    exact hc hd

section Respaces

variable {f : CodePoint → Text} (hf : Respaces f)
include hf

private theorem Respaces.flatMap_noControls {s : Text} (h : NoControls s) : s.flatMap f = s := by
  induction s with
  | nil => rfl
  | cons c s ih =>
    rw [noControls_cons] at h
    rw [List.flatMap_cons, hf.other c h.1, ih h.2, List.singleton_append]

private theorem Respaces.flatMap_blank {w : Text} (h : IsBlank w) : IsBlank (w.flatMap f) := by
  intro c hc
  obtain ⟨d, hd, hcd⟩ := List.mem_flatMap.mp hc
  exact hf.blank d (h d hd) c hcd

/-- A text with other white space writes the same tree. -/
theorem Derives.respaced {p : Phrase} {s : Text} (h : Derives p s) : Derives p (s.flatMap f) := by
  have hcons {c : CodePoint} (hc : ¬ c.toNat < 0x20) (t : Text) :
      (c :: t).flatMap f = c :: t.flatMap f := by
    rw [List.flatMap_cons, hf.other c hc, List.singleton_append]
  have hbrackets {a b : CodePoint} (ha : ¬ a.toNat < 0x20) (hb : ¬ b.toNat < 0x20) (t : Text) :
      (a :: (t ++ [b])).flatMap f = a :: (t.flatMap f ++ [b]) := by
    rw [hcons ha, List.flatMap_append, hcons hb, List.flatMap_nil]
  -- the tokens have no controls and stay; only the white space between them is exchanged
  induction h with
  | null =>
    rw [hf.flatMap_noControls (by decide)]
    exact .null
  | boolTrue =>
    rw [hf.flatMap_noControls (by decide)]
    exact .boolTrue
  | boolFalse =>
    rw [hf.flatMap_noControls (by decide)]
    exact .boolFalse
  | number h =>
    rw [hf.flatMap_noControls h.noControls]
    exact .number h
  | string h =>
    rw [hf.flatMap_noControls (noControls_inQuotes h.noControls)]
    exact .string h
  | emptyArray hw =>
    rw [hbrackets (by decide) (by decide)]
    exact .emptyArray (hf.flatMap_blank hw)
  | array h ih =>
    rw [hbrackets (by decide) (by decide)]
    exact .array ih
  | emptyObject hw =>
    rw [hbrackets (by decide) (by decide)]
    exact .emptyObject (hf.flatMap_blank hw)
  | object h ih =>
    rw [hbrackets (by decide) (by decide)]
    exact .object ih
  | element hl h hr ih =>
    rw [List.flatMap_append, List.flatMap_append]
    exact .element (hf.flatMap_blank hl) ih (hf.flatMap_blank hr)
  | lastElement h ih => exact .lastElement ih
  | moreElements h hs ih ihs =>
    rw [List.flatMap_append, hcons (by decide)]
    exact .moreElements ih ihs
  | member hl hn hr h ih =>
    rw [List.flatMap_append, List.flatMap_append, List.flatMap_append, hcons (by decide),
      hf.flatMap_noControls (noControls_inQuotes hn.noControls)]
    exact .member (hf.flatMap_blank hl) hn (hf.flatMap_blank hr) ih
  | lastMember h ih => exact .lastMember ih
  | moreMembers h hs ih ihs =>
    rw [List.flatMap_append, hcons (by decide)]
    exact .moreMembers ih ihs

/-- What is parsed is still parsed as the same value with other white space in it. -/
theorem parse_respaced {s : Text} {w : Json} (h : parse s = .ok w) :
    parse (s.flatMap f) = .ok w := by
  obtain ⟨v, hv, hreadable, rfl⟩ := parse_eq_ok_iff.mp h
  exact parse_eq_ok_iff.mpr ⟨v, hv.respaced hf, hreadable, rfl⟩

end Respaces

end FormSchema.Json
