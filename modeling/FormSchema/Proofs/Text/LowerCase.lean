import FormSchema.Text.LowerCase
import FormSchema.Proofs.Text.Utf8
import Mathlib.Data.List.Forall2

/-!
# Lower case

A code point is small if it is its own lower-case form.  Lower-casing leaves only small code points
and keeps those that are there, so that a text is its own lower-case form exactly if all its code
points are small.  What comes before or after a small code point does not matter for it, and the
case of ASCII letters does not matter for the whole text.
-/

namespace FormSchema.LowerCase

/-! ## Section 1: The table -/

/-- The lower-case form of a number in a run. -/
def Run.formAt (r : Run) (n : Nat) : Nat := (n + r.shift).toNat

/-- Whether no form in one run lies in another one: all its forms are below or above that one, or
they are the numbers that are passed over in it. -/
def Run.avoids (r q : Run) : Bool :=
  -- every pair of runs is looked at, and the kernel compares numbers fastest in this way
  Nat.blt (r.formAt r.last) q.first || Nat.blt q.last (r.formAt r.first) ||
    (Nat.beq r.step 2 || Nat.beq r.first r.last) && Nat.beq q.step 2 &&
      Nat.beq ((r.formAt r.first + q.first) % 2) 1

/-- What the forms in a run are: code points, and the dotted capital I is none of them. -/
def Run.isSound (r : Run) : Bool :=
  0 ≤ r.first + r.shift && r.formAt r.last < 0x110000 &&
    (r.formAt r.last < 0x130 || 0x130 < r.formAt r.first)

/-- The runs of the table have no code points in common with the forms that they give. -/
private theorem runs_avoid {r q : Run} (hr : r ∈ runs) (hq : q ∈ runs) : r.avoids q = true := by
  have hall : (runs.all fun r => runs.all fun q => r.avoids q) = true := by decide +kernel
  exact List.all_eq_true.mp (List.all_eq_true.mp hall r hr) q hq

private theorem runs_sound {r : Run} (hr : r ∈ runs) : r.isSound = true := by
  have hall : (runs.all Run.isSound) = true := by decide +kernel
  exact List.all_eq_true.mp hall r hr

private theorem Run.contains_iff {r : Run} {n : Nat} :
    r.contains n = true ↔ r.first ≤ n ∧ n ≤ r.last ∧ (n - r.first) % r.step = 0 := by
  simp [Run.contains, and_assoc]

/-- The form that a run gives is a code point, and not the one with two code points for its form. -/
private theorem Run.formAt_sound {r : Run} (hr : r ∈ runs) {n : Nat} (hn : r.contains n = true) :
    r.formAt n < 0x110000 ∧ r.formAt n ≠ 0x130 := by
  have hsound := runs_sound hr
  rw [Run.contains_iff] at hn
  simp only [Run.isSound, Bool.and_eq_true, Bool.or_eq_true, decide_eq_true_iff] at hsound
  simp only [Run.formAt] at *
  omega

/-- No form in one run lies in another one. -/
theorem Run.not_contains_formAt {r q : Run} (hr : r ∈ runs) (hq : q ∈ runs) {n : Nat}
    (hn : r.contains n = true) : q.contains (r.formAt n) = false := by
  have havoids := runs_avoid hr hq
  have hsound := runs_sound hr
  rw [Run.contains_iff] at hn
  obtain ⟨hfirst, hlast, hstep⟩ := hn
  by_contra hcontains
  rw [Bool.not_eq_false, Run.contains_iff] at hcontains
  obtain ⟨hfirst', hlast', hstep'⟩ := hcontains
  simp only [Run.avoids, Bool.or_eq_true, Bool.and_eq_true, Nat.blt_eq, Nat.beq_eq] at havoids
  simp only [Run.isSound, Bool.and_eq_true, decide_eq_true_iff] at hsound
  simp only [Run.formAt] at *
  -- the runs are apart, or they share a stretch with capitals and small letters in turn
  rcases havoids with (hbelow | habove) | ⟨⟨heven | hone, heven'⟩, hparity⟩
  · omega
  · omega
  · -- both runs go in steps of two, and the forms are those between
    rw [heven] at hstep
    rw [heven'] at hstep'
    omega
  · rw [heven'] at hstep'
    omega

/-! ## Section 2: Small code points -/

/-- Whether a code point is its own lower-case form. -/
def IsSmall (c : CodePoint) : Prop := ofCodePoint c = [c]

instance (c : CodePoint) : Decidable (IsSmall c) := inferInstanceAs (Decidable (_ = _))

private theorem isSmall_of_not_contains {c : CodePoint}
    (hruns : ∀ r ∈ runs, r.contains c.toNat = false)
    (hdot : c.toNat ≠ 0x130) : IsSmall c := by
  have hfind : runs.find? (·.contains c.toNat) = none := by
    rw [List.find?_eq_none]
    intro r hr hcontains
    exact Bool.false_ne_true ((hruns r hr).symm.trans hcontains)
  -- the capitals of ASCII are one of the runs
  have hcapital : ¬(0x41 ≤ c.toNat ∧ c.toNat ≤ 0x5A) := by
    rintro ⟨hfirst, hlast⟩
    have hletters := hruns ⟨0x41, 0x5A, 1, 32⟩ List.mem_cons_self
    have hcontains : Run.contains ⟨0x41, 0x5A, 1, 32⟩ c.toNat = true :=
      Run.contains_iff.mpr ⟨hfirst, hlast, Nat.mod_one _⟩
    exact Bool.false_ne_true (hletters.symm.trans hcontains)
  simp [IsSmall, ofCodePoint, hcapital, hdot, hfind]

/-- A code point is small, or the dotted capital I, or its form is the one that a run gives it. -/
theorem ofCodePoint_cases (c : CodePoint) :
    IsSmall c ∨ ofCodePoint c = [CodePoint.ofNat 0x69, CodePoint.ofNat 0x307] ∨
      ∃ r ∈ runs, r.contains c.toNat = true ∧
        ofCodePoint c = [CodePoint.ofNat (r.formAt c.toNat)] := by
  -- the letters of ASCII are a run as well; the dotted capital is the one with two code points
  by_cases hascii : c.toNat < 0x80
  · by_cases hcapital : 0x41 ≤ c.toNat ∧ c.toNat ≤ 0x5A
    · refine .inr (.inr ⟨⟨0x41, 0x5A, 1, 32⟩, List.mem_cons_self, ?_, ?_⟩)
      · exact Run.contains_iff.mpr ⟨hcapital.1, hcapital.2, Nat.mod_one _⟩
      · have hform : Run.formAt ⟨0x41, 0x5A, 1, 32⟩ c.toNat = c.toNat + 0x20 := by
          simp only [Run.formAt]
          omega
        simp [ofCodePoint, hascii, hcapital, hform]
    · exact .inl (by simp [IsSmall, ofCodePoint, hascii, hcapital])
  · by_cases hdot : c.toNat = 0x130
    · exact .inr (.inl (by simp [ofCodePoint, hdot]))
    · cases hfind : runs.find? (·.contains c.toNat) with
      | none => exact .inl (by simp [IsSmall, ofCodePoint, hascii, hdot, hfind])
      | some r =>
        have hcontains := List.find?_some hfind
        have hform : ofCodePoint c = [CodePoint.ofNat (r.formAt c.toNat)] := by
          simp [ofCodePoint, hascii, hdot, hfind, Run.formAt]
        exact .inr (.inr ⟨r, List.mem_of_find?_eq_some hfind, hcontains, hform⟩)

/-- What is the lower-case form of a code point is small. -/
theorem isSmall_of_mem_ofCodePoint {c d : CodePoint} (h : d ∈ ofCodePoint c) : IsSmall d := by
  -- small already, the capital with a dot, or a capital in one of the runs
  rcases ofCodePoint_cases c with hsmall | hdotted | ⟨r, hr, hcontains, hform⟩
  · rw [hsmall, List.mem_singleton] at h
    rwa [h]
  · rw [hdotted] at h
    have hforms : ∀ d ∈ [CodePoint.ofNat 0x69, CodePoint.ofNat 0x307], IsSmall d := by decide
    exact hforms d h
  · rw [hform, List.mem_singleton] at h
    obtain ⟨hbound, hdot⟩ := Run.formAt_sound hr hcontains
    have hnumber : d.toNat = r.formAt c.toNat := by rw [h, CodePoint.toNat_ofNat hbound]
    apply isSmall_of_not_contains
    · intro q hq
      rw [hnumber]
      exact Run.not_contains_formAt hr hq hcontains
    · rwa [hnumber]

/-! ## Section 3: Small texts -/

/-- The lower-case form of a code point between two texts, of which the first is given backwards. -/
def formOf (before after : Text) (c : CodePoint) : Text :=
  if c.toNat = 0x3A3 then [CodePoint.ofNat (if isFinal before after then 0x3C2 else 0x3C3)]
  else ofCodePoint c

private theorem lowerFrom_acc (before acc t : Text) :
    lowerFrom before acc t = acc.reverse ++ lowerFrom before [] t := by
  -- what is done already stays in front
  induction t generalizing before acc with
  | nil => simp [lowerFrom]
  | cons c t ih =>
    simp only [lowerFrom]
    rw [ih, ih _ (List.reverse _ ++ [])]
    simp

private theorem lowerFrom_cons (before : Text) (c : CodePoint) (after : Text) :
    lowerFrom before [] (c :: after) =
      formOf before after c ++ lowerFrom (c :: before) [] after := by
  simp only [lowerFrom]
  rw [lowerFrom_acc]
  simp [formOf]

private theorem isSmall_of_mem_formOf {before after : Text} {c d : CodePoint}
    (h : d ∈ formOf before after c) : IsSmall d := by
  have hsigmas : IsSmall (CodePoint.ofNat 0x3C2) ∧ IsSmall (CodePoint.ofNat 0x3C3) := by decide
  unfold formOf at h
  -- both forms of sigma are small, and any other letter has one form
  split at h
  · rw [List.mem_singleton] at h
    split at h
    · exact h ▸ hsigmas.1
    · exact h ▸ hsigmas.2
  · exact isSmall_of_mem_ofCodePoint h

/-- What stands around a small code point does not matter for it. -/
theorem IsSmall.formOf_eq {c : CodePoint} (h : IsSmall c) (before after : Text) :
    formOf before after c = [c] := by
  have hsigma : c.toNat ≠ 0x3A3 := by
    intro hsigma
    obtain rfl : c = CodePoint.ofNat 0x3A3 := CodePoint.toNat_injective (by rw [hsigma]; rfl)
    exact absurd h (by decide)
  rw [formOf, if_neg hsigma, h]

private theorem isSmall_of_mem_lowerFrom {before t : Text} {d : CodePoint}
    (h : d ∈ lowerFrom before [] t) : IsSmall d := by
  induction t generalizing before with
  | nil => cases h
  | cons c t ih =>
    rw [lowerFrom_cons, List.mem_append] at h
    exact h.elim isSmall_of_mem_formOf ih

private theorem lowerFrom_of_isSmall {t : Text} (h : ∀ c ∈ t, IsSmall c) (before : Text) :
    lowerFrom before [] t = t := by
  induction t generalizing before with
  | nil => rfl
  | cons c t ih =>
    obtain ⟨hc, ht⟩ := List.forall_mem_cons.mp h
    rw [lowerFrom_cons, hc.formOf_eq, ih ht]
    rfl

/-- Lower-casing the end of a text is the end of lower-casing the text. -/
theorem exists_lowerFrom_append (before s t : Text) :
    ∃ front, lowerFrom before [] (s ++ t) = front ++ lowerFrom (s.reverse ++ before) [] t := by
  induction s generalizing before with
  | nil => exact ⟨[], rfl⟩
  | cons c s ih =>
    obtain ⟨front, hfront⟩ := ih (c :: before)
    refine ⟨formOf before (s ++ t) c ++ front, ?_⟩
    rw [List.cons_append, lowerFrom_cons, hfront, List.append_assoc, List.reverse_cons,
      List.append_assoc]
    rfl

/-! ## Section 4: The case of ASCII letters -/

def IsCapital (c : CodePoint) : Prop := 0x41 ≤ c.toNat ∧ c.toNat ≤ 0x5A

/-- Whether two code points are the same, or the two cases of one ASCII letter. -/
def SameLetter (c d : CodePoint) : Prop :=
  c = d ∨ IsCapital c ∧ d.toNat = c.toNat + 0x20 ∨ IsCapital d ∧ c.toNat = d.toNat + 0x20

instance (c : CodePoint) : Decidable (IsCapital c) := inferInstanceAs (Decidable (_ ∧ _))

instance (c d : CodePoint) : Decidable (SameLetter c d) := inferInstanceAs (Decidable (_ ∨ _))

/-- Every code point is the same letter as itself. -/
theorem SameLetter.refl (c : CodePoint) : SameLetter c c := .inl rfl

/-- No ASCII letter is passed over, whatever its case. -/
theorem isPassed_letter {c : CodePoint}
    (h : IsCapital c ∨ 0x61 ≤ c.toNat ∧ c.toNat ≤ 0x7A) : isPassed c = false := by
  -- no range of the table meets the letters; checked once for the whole table
  have hranges : ∀ r ∈ passedRanges, r.2 < 0x41 ∨ 0x5A < r.1 ∧ r.2 < 0x61 ∨ 0x7A < r.1 := by
    decide +kernel
  rw [isPassed, inRanges, List.any_eq_false]
  intro r hr
  have hrange := hranges r hr
  simp only [IsCapital, Bool.and_eq_true, decide_eq_true_iff] at h ⊢
  omega

private theorem isCased_letter {c : CodePoint}
    (h : IsCapital c ∨ 0x61 ≤ c.toNat ∧ c.toNat ≤ 0x7A) : isCased c = true := by
  rw [isCased, inRanges, List.any_eq_true]
  rcases h with h | h
  · exact ⟨(0x41, 0x5A), List.mem_of_elem_eq_true (by rfl), by simpa [IsCapital] using h⟩
  · exact ⟨(0x61, 0x7A), List.mem_of_elem_eq_true (by rfl), by simpa using h⟩

/-- The two cases of an ASCII letter are told apart by nothing that lower-casing looks at. -/
theorem capital_congr {c d : CodePoint} (hc : IsCapital c) (hd : d.toNat = c.toNat + 0x20) :
    ofCodePoint c = ofCodePoint d ∧ isPassed c = isPassed d ∧ isCased c = isCased d := by
  obtain ⟨hfirst, hlast⟩ := hc
  have hsmall : 0x61 ≤ d.toNat ∧ d.toNat ≤ 0x7A := by omega
  have hform : CodePoint.ofNat (c.toNat + 0x20) = d :=
    CodePoint.toNat_injective (by rw [hd, CodePoint.toNat_ofNat (by omega)])
  refine ⟨?_, ?_, ?_⟩
  · have hascii : c.toNat < 0x80 ∧ d.toNat < 0x80 ∧ ¬d.toNat ≤ 0x5A := by omega
    simp [ofCodePoint, hascii, hfirst, hlast, hform]
  · rw [isPassed_letter (.inl ⟨hfirst, hlast⟩), isPassed_letter (.inr hsmall)]
  · rw [isCased_letter (.inl ⟨hfirst, hlast⟩), isCased_letter (.inr hsmall)]

/-- Both cases of a letter have one form, and are seen alike by a sigma. -/
theorem SameLetter.congr {c d : CodePoint} (h : SameLetter c d) :
    ofCodePoint c = ofCodePoint d ∧ isPassed c = isPassed d ∧ isCased c = isCased d := by
  rcases h with rfl | ⟨hc, hd⟩ | ⟨hd, hc⟩
  · exact ⟨rfl, rfl, rfl⟩
  · exact capital_congr hc hd
  · obtain ⟨hform, hpassed, hcased⟩ := capital_congr hd hc
    exact ⟨hform.symm, hpassed.symm, hcased.symm⟩

/-- A letter is no capital sigma. -/
theorem SameLetter.eq_of_sigma {c d : CodePoint} (h : SameLetter c d)
    (hsigma : c.toNat = 0x3A3 ∨ d.toNat = 0x3A3) : c = d := by
  rcases h with rfl | ⟨⟨-, hc⟩, hd⟩ | ⟨⟨-, hd⟩, hc⟩
  · rfl
  · omega
  · omega

private theorem meetsCased_cons (c : CodePoint) (t : Text) :
    meetsCased (c :: t) = if isPassed c then meetsCased t else isCased c := by
  unfold meetsCased
  rw [List.dropWhile_cons]
  cases isPassed c <;> rfl

private theorem meetsCased_congr {s t : Text} (h : List.Forall₂ SameLetter s t) :
    meetsCased s = meetsCased t := by
  induction h with
  | nil => rfl
  | cons hletter _ ih =>
    obtain ⟨-, hpassed, hcased⟩ := hletter.congr
    rw [meetsCased_cons, meetsCased_cons, hpassed, hcased, ih]

/-- The form of a code point does not depend on the case of the letters around it. -/
private theorem formOf_congr {before before' after after' : Text} {c d : CodePoint}
    (hbefore : List.Forall₂ SameLetter before before') (hletter : SameLetter c d)
    (hafter : List.Forall₂ SameLetter after after') :
    formOf before after c = formOf before' after' d := by
  -- only sigma looks around, and what it looks at is alike
  by_cases hsigma : c.toNat = 0x3A3
  · obtain rfl := hletter.eq_of_sigma (.inl hsigma)
    rw [formOf, formOf, isFinal, isFinal, meetsCased_congr hbefore, meetsCased_congr hafter]
  · have hsigma' : d.toNat ≠ 0x3A3 := by
      intro hd
      rw [hletter.eq_of_sigma (.inr hd)] at hsigma
      exact hsigma hd
    rw [formOf, formOf, if_neg hsigma, if_neg hsigma', hletter.congr.1]

private theorem lowerFrom_congr {before before' s t : Text} (h : List.Forall₂ SameLetter s t)
    (hbefore : List.Forall₂ SameLetter before before') :
    lowerFrom before [] s = lowerFrom before' [] t := by
  induction h generalizing before before' with
  | nil => rfl
  | cons hletter hafter ih =>
    rw [lowerFrom_cons, lowerFrom_cons, formOf_congr hbefore hletter hafter,
      ih (.cons hletter hbefore)]

/-- The lower-case form of an ASCII letter is that letter. -/
theorem exists_formOf_ascii {c : CodePoint} (hc : c.toNat < 0x80) (before after : Text) :
    ∃ d, formOf before after c = [d] ∧ SameLetter d c := by
  rw [formOf, if_neg (by omega)]
  -- a capital gets its small letter, and anything else stays
  by_cases hcapital : 0x41 ≤ c.toNat ∧ c.toNat ≤ 0x5A
  · refine ⟨CodePoint.ofNat (c.toNat + 0x20), ?_, .inr (.inr ⟨hcapital, ?_⟩)⟩
    · simp [ofCodePoint, hc, hcapital]
    · rw [CodePoint.toNat_ofNat (by omega)]
  · exact ⟨c, by simp [ofCodePoint, hc, hcapital], .refl c⟩

private theorem forall₂_lowerFrom {t : Text} (ht : ∀ c ∈ t, c.toNat < 0x80) (before : Text) :
    List.Forall₂ SameLetter (lowerFrom before [] t) t := by
  induction t generalizing before with
  | nil => exact .nil
  | cons c t ih =>
    obtain ⟨hc, ht⟩ := List.forall_mem_cons.mp ht
    obtain ⟨d, hform, hletter⟩ := exists_formOf_ascii hc before t
    rw [lowerFrom_cons, hform]
    exact .cons hletter (ih ht (c :: before))

end FormSchema.LowerCase

namespace FormSchema.Text

open LowerCase

private theorem isSmall_of_mem_lower {t : Text} {c : CodePoint} (h : c ∈ t.lower) : IsSmall c :=
  isSmall_of_mem_lowerFrom h

private theorem lower_eq_self_iff {t : Text} : t.lower = t ↔ ∀ c ∈ t, IsSmall c := by
  constructor
  · intro h c hc
    exact isSmall_of_mem_lower (h.symm ▸ hc)
  · intro h
    exact lowerFrom_of_isSmall h []

/-- Only a small text ends a text in lower case. -/
theorem lower_eq_self_of_suffix {s t : Text} (h : s <:+ t.lower) : s.lower = s :=
  lower_eq_self_iff.mpr fun _ hc => isSmall_of_mem_lower (h.subset hc)

/-- A small text that ends a text ends that one in lower case, too. -/
theorem suffix_lower {s t : Text} (hs : s.lower = s) (h : s <:+ t) : s <:+ t.lower := by
  obtain ⟨front, rfl⟩ := h
  obtain ⟨front', hfront⟩ := exists_lowerFrom_append [] front s
  rw [lowerFrom_of_isSmall (lower_eq_self_iff.mp hs)] at hfront
  exact ⟨front', hfront.symm⟩

/-- The case of ASCII letters does not matter for the lower-case form of a text. -/
theorem lower_congr {s t : Text} (h : List.Forall₂ SameLetter s t) : s.lower = t.lower :=
  lowerFrom_congr h .nil

/-- A small text that ends a text up to the case of ASCII letters ends its lower-case form. -/
theorem suffix_lower_of_sameLetters {s ending t : Text} (hs : s.lower = s) (h : ending <:+ t)
    (hletters : List.Forall₂ SameLetter s ending) : s <:+ t.lower := by
  obtain ⟨front, rfl⟩ := h
  have hsame : List.Forall₂ SameLetter (front ++ s) (front ++ ending) :=
    List.rel_append (List.forall₂_same.mpr fun c _ => .refl c) hletters
  rw [← lower_congr hsame]
  exact suffix_lower hs (List.suffix_append front s)

/-- In ASCII these are the only ones. -/
theorem exists_ending_of_suffix_lower {s t : Text} (ht : ∀ c ∈ t, c.toNat < 0x80)
    (h : s <:+ t.lower) : ∃ ending, ending <:+ t ∧ List.Forall₂ SameLetter s ending := by
  obtain ⟨front, hfront⟩ := h
  have hletters := List.forall₂_drop front.length (forall₂_lowerFrom ht [])
  change List.Forall₂ SameLetter (List.drop front.length t.lower) _ at hletters
  rw [← hfront, List.drop_left] at hletters
  exact ⟨t.drop front.length, List.drop_suffix _ _, hletters⟩

end FormSchema.Text
