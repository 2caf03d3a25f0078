import FormSchema.Proofs.Json.Printing
import Mathlib.Data.List.DropRight

/-!
# Doubles are printed as numerals

The text of a finite double is a numeral of the grammar, in the positional and in the scientific
layout.  The names of infinities and of not-a-number are none.
-/

namespace FormSchema

open Json (IsDigits IsWhole WritesNumeral WritesFraction WritesPower WritesSign)

/-! ## Section 1: Significant digits -/

/-- Digits that do not begin with a zero. -/
def LeadingDigits (ds : Text) : Prop := IsDigits ds ∧ ds.head? ≠ some (.scalar '0')

private theorem isDigits_append_left {ds es : Text} (h : IsDigits ds) (hes : ∀ d ∈ es, d.isDigit) :
    IsDigits (ds ++ es) :=
  ⟨List.append_ne_nil_of_left_ne_nil h.1 es, List.forall_mem_append.mpr ⟨h.2, hes⟩⟩

private theorem isDigits_append_right {ds es : Text} (hds : ∀ d ∈ ds, d.isDigit) (h : IsDigits es) :
    IsDigits (ds ++ es) :=
  ⟨List.append_ne_nil_of_right_ne_nil ds h.1, List.forall_mem_append.mpr ⟨hds, h.2⟩⟩

/-- Digits that follow do not change the first digit. -/
theorem LeadingDigits.append {ds es : Text} (h : LeadingDigits ds) (hes : ∀ d ∈ es, d.isDigit) :
    LeadingDigits (ds ++ es) := by
  refine ⟨isDigits_append_left h.1 hes, ?_⟩
  rw [List.head?_append_of_ne_nil ds h.1.1]
  exact h.2

/-- What is left in front of some digits does not begin with a zero either, if anything is left. -/
theorem LeadingDigits.of_append {ds es : Text} (h : LeadingDigits (ds ++ es)) (hne : ds ≠ []) :
    LeadingDigits ds := by
  refine ⟨⟨hne, fun d hd => h.1.2 d (List.mem_append_left es hd)⟩, ?_⟩
  rw [← List.head?_append_of_ne_nil ds hne]
  exact h.2

private theorem leadingDigits_ofNat {n : Nat} (h : n ≠ 0) : LeadingDigits (Text.ofNat n) :=
  ⟨Json.isDigits_ofNat n, Json.head_ofNat (Nat.pos_of_ne_zero h)⟩

namespace Decimal

private theorem isDigit_of_mem_zeros (n : Nat) : ∀ c ∈ zeros n, c.isDigit := by
  intro c hc
  rw [List.eq_of_mem_replicate hc]
  rfl

/-- Without the zeros at its end a positive decimal still has its first digit. -/
theorem leadingDigits_significant {d : Decimal} (h : d.digits ≠ 0) :
    LeadingDigits (significant d) := by
  have hall := leadingDigits_ofNat h
  obtain ⟨dropped, hdropped⟩ : significant d <+: Text.ofNat d.digits := List.rdropWhile_prefix _ _
  rw [← hdropped] at hall
  apply hall.of_append
  intro hnil
  -- if nothing is left, then all digits are zeros, the first one too
  have hzeros := List.rdropWhile_eq_nil_iff.mp hnil
  obtain ⟨c, rest, hcons, _⟩ := (Json.isDigits_ofNat d.digits).eq_cons
  have hc : c = .scalar '0' := of_decide_eq_true (hzeros c (hcons ▸ List.mem_cons_self))
  apply Json.head_ofNat (Nat.pos_of_ne_zero h)
  rw [hcons, hc]
  rfl

/-! ## Section 2: Layouts -/

/-- A text that is a numeral, with a minus sign or without. -/
def IsNumeral (t : Text) : Prop := ∀ negative, ∃ n, WritesNumeral n (signText negative ++ t)

private theorem isNumeral_append {whole f p : Text} {fraction : Option Text}
    {power : Option (Bool × Text)}
    (hw : IsWhole whole) (hf : WritesFraction fraction f) (hp : WritesPower power p) :
    IsNumeral (whole ++ (f ++ p)) := by
  intro negative
  exact ⟨_, .mk negative hw hf hp⟩

private theorem isNumeral_positional {ds : Text} (h : LeadingDigits ds) (lead : Int) :
    IsNumeral (positional ds lead) := by
  rw [positional]
  split
  · -- a lone zero in front of the point
    have hfraction := isDigits_append_right (isDigit_of_mem_zeros (-lead - 1).toNat) h.1
    have hnumeral := isNumeral_append (.inl rfl) (.present hfraction) .absent
    rw [List.append_nil] at hnumeral
    exact hnumeral
  · dsimp only
    split
    · -- all digits in front of the point, and a zero behind it
      have hwhole := h.append (isDigit_of_mem_zeros (lead.toNat + 1 - ds.length))
      have hzero : IsDigits [.scalar '0'] := ⟨List.cons_ne_nil _ _, by decide⟩
      have hnumeral := isNumeral_append (.inr hwhole) (.present hzero) .absent
      rw [List.append_nil] at hnumeral
      exact hnumeral
    · next hlength =>
      -- the point stands among the digits
      have hlength : lead.toNat + 1 < ds.length := Nat.not_le.mp hlength
      have hsplit := List.take_append_drop (lead.toNat + 1) ds
      have htake : ds.take (lead.toNat + 1) ≠ [] := by
        rw [← List.length_pos_iff, List.length_take]
        omega
      have hdrop : ds.drop (lead.toNat + 1) ≠ [] := by
        rw [← List.length_pos_iff, List.length_drop]
        omega
      have hwhole : LeadingDigits (ds.take (lead.toNat + 1)) := by
        rw [← hsplit] at h
        exact h.of_append htake
      have hfraction : IsDigits (ds.drop (lead.toNat + 1)) :=
        ⟨hdrop, fun d hd => h.1.2 d (List.mem_of_mem_drop hd)⟩
      have hnumeral := isNumeral_append (.inr hwhole) (.present hfraction) .absent
      rw [List.append_nil] at hnumeral
      rw [List.append_assoc]
      exact hnumeral

private theorem writesPower_exponentText (e : Int) :
    ∃ power, WritesPower power (exponentText e) := by
  have hdigits := isDigits_append_right
    (isDigit_of_mem_zeros (2 - (Text.ofNat e.natAbs).length)) (Json.isDigits_ofNat e.natAbs)
  rw [exponentText]
  -- only the sign differs
  by_cases he : e < 0
  · have hpower := WritesPower.present (.inl rfl) .minus hdigits
    rw [if_pos he, List.append_assoc]
    exact ⟨_, hpower⟩
  · have hpower := WritesPower.present (.inl rfl) .plus hdigits
    rw [if_neg he, List.append_assoc]
    exact ⟨_, hpower⟩

private theorem isNumeral_scientific {ds : Text} (h : LeadingDigits ds) (lead : Int) :
    IsNumeral (scientific ds lead) := by
  obtain ⟨power, hpower⟩ := writesPower_exponentText lead
  obtain ⟨d, rest, rfl, hd⟩ := h.1.eq_cons
  have hwhole : LeadingDigits [d] := by
    rw [← List.singleton_append] at h
    exact h.of_append (List.cons_ne_nil d [])
  -- a single digit has no fraction behind it
  cases rest with
  | nil =>
    have hnumeral := isNumeral_append (.inr hwhole) .absent hpower
    exact hnumeral
  | cons c rest =>
    have hfraction : IsDigits (c :: rest) :=
      ⟨List.cons_ne_nil _ _, fun b hb => h.1.2 b (List.mem_cons_of_mem d hb)⟩
    have hnumeral := isNumeral_append (.inr hwhole) (.present hfraction) hpower
    exact hnumeral

private theorem isNumeral_text {d : Decimal} (h : d.digits ≠ 0) : IsNumeral d.text := by
  have hdigits := leadingDigits_significant h
  rw [text]
  split
  · exact isNumeral_positional hdigits _
  · exact isNumeral_scientific hdigits _

end Decimal

/-! ## Section 3: Doubles -/

namespace Binary64

/-- A decimal that rounds to a positive double has a digit other than zero, and so has the one that
is taken if no other is found. -/
theorem digits_shortest_ne_zero {m : Nat} (hm : m ≠ 0) (e : Int) : (shortest m e).digits ≠ 0 := by
  rw [shortest]
  -- either the digits found, which stand for the same number, or the mantissa itself
  cases hfound : (List.range 17).findSome? fun i => onGrid? m e (i + 1) with
  | none => exact hm
  | some c =>
    obtain ⟨i, _, hc⟩ := List.exists_of_findSome?_eq_some hfound
    have hfound := List.find?_some (p := fun c => decide (ofDecimal false c = .finite false m e)) hc
    have hrounds : ofDecimal false c = .finite false m e := of_decide_eq_true hfound
    intro hzero
    rw [Option.getD_some] at hzero
    rw [ofDecimal, if_pos hzero] at hrounds
    cases hrounds
    exact hm rfl

/-- A finite double is printed as a numeral. -/
theorem writesNumeral_text (negative : Bool) (m : Nat) (e : Int) (names : FloatNames) :
    ∃ n, WritesNumeral n ((finite negative m e).text names) := by
  cases m with
  | zero =>
    have hzero : IsDigits [.scalar '0'] := ⟨List.cons_ne_nil _ _, by decide⟩
    exact Decimal.isNumeral_append (.inl rfl) (.present hzero) .absent negative
  | succ m =>
    exact Decimal.isNumeral_text (digits_shortest_ne_zero (Nat.succ_ne_zero m) e) negative

end Binary64

end FormSchema
