import FormSchema.Proofs.Json.Grammar
import FormSchema.Proofs.Text.Utf8
import Mathlib.Data.List.Chain

/-!
# Printed strings

A string is printed on one line and between quotation marks, as a text that spells it.  Where only
ASCII may be used, the halves of a surrogate pair are escaped like any other code point, and two
halves next to each other are read as the code point that they stand for; a string without such
halves is spelled in ASCII as well.
-/

namespace FormSchema

/-- A text in which no first half of a surrogate pair is followed by a second half. -/
def Text.IsJoined (t : Text) : Prop :=
  t.IsChain fun c d => c.isHighSurrogate → ¬ d.isLowSurrogate

instance (t : Text) : Decidable t.IsJoined :=
  inferInstanceAs (Decidable (t.IsChain _))

namespace Json

/-! ## Section 1: Digits -/

private theorem hexValue_hexDigit {n : Nat} (h : n < 16) : hexValue? (hexDigit n) = some n := by
  have hall : ∀ m ∈ List.range 16, hexValue? (hexDigit m) = some m := by decide
  exact hall n (List.mem_range.mpr h)

private theorem hexFour_hexDigits {n : Nat} (h : n < 0x10000) :
    hexFour? (hexDigit (n / 0x1000 % 16)) (hexDigit (n / 0x100 % 16)) (hexDigit (n / 0x10 % 16))
      (hexDigit (n % 16)) = some n := by
  rw [hexFour?, hexValue_hexDigit (Nat.mod_lt _ (by decide)),
    hexValue_hexDigit (Nat.mod_lt _ (by decide)), hexValue_hexDigit (Nat.mod_lt _ (by decide)),
    hexValue_hexDigit (Nat.mod_lt _ (by decide))]
  exact congrArg some (by omega)

/-- An escaped code unit in front of a text, as the grammar has it. -/
theorem escapeUnit_append (n : Nat) (s : Text) :
    escapeUnit n ++ s = writtenUnit (hexDigit (n / 0x1000 % 16)) (hexDigit (n / 0x100 % 16))
      (hexDigit (n / 0x10 % 16)) (hexDigit (n % 16)) s := rfl

/-- Behind an escaped code unit that a text begins with, the digits are those of the unit. -/
theorem eq_of_escapeUnit_append {n m : Nat} {s rest : Text} {a b c d : CodePoint}
    (hn : n < 0x10000) (h : escapeUnit n ++ s = writtenUnit a b c d rest)
    (hm : hexFour? a b c d = some m) : m = n := by
  rw [escapeUnit_append] at h
  cases h
  rw [hexFour_hexDigits hn] at hm
  exact (Option.some.inj hm).symm

/-- An escaped code unit is written with a backslash, the letter `u` and digits. -/
theorem mem_escapeUnit {c : CodePoint} {n : Nat} (h : c ∈ escapeUnit n) :
    c = .scalar '\\' ∨ c = .scalar 'u' ∨ (hexValue? c).isSome := by
  -- four digits behind the backslash and the letter
  have hdigit (m : Nat) : (hexValue? (hexDigit (m % 16))).isSome := by
    rw [hexValue_hexDigit (Nat.mod_lt m (by decide))]
    rfl
  simp only [escapeUnit, List.mem_cons, List.not_mem_nil, or_false] at h
  rcases h with hb | hu | rfl | rfl | rfl | rfl
  · exact .inl hb
  · exact .inr (.inl hu)
  · exact .inr (.inr (hdigit _))
  · exact .inr (.inr (hdigit _))
  · exact .inr (.inr (hdigit _))
  · exact .inr (.inr (hdigit _))

private theorem mem_escapeCodePoint {c d : CodePoint} (h : d ∈ escapeCodePoint c) :
    d = .scalar '\\' ∨ d = .scalar 'u' ∨ (hexValue? d).isSome := by
  rw [escapeCodePoint] at h
  split at h
  · exact mem_escapeUnit h
  · exact (List.mem_append.mp h).elim mem_escapeUnit mem_escapeUnit

/-! ## Section 2: One code point -/

/-- The four ways in which a code point is printed in a string. -/
theorem escapeInString_cases (ascii : Bool) (c : CodePoint) :
    (∃ e, shortEscape? e = some c ∧ escapeInString ascii c = [.scalar '\\', e]) ∨
      (c.toNat < 0x20 ∧ escapeInString ascii c = escapeUnit c.toNat) ∨
      (ascii = true ∧ escapeInString ascii c = escapeCodePoint c) ∨
      (c ≠ .scalar '"' ∧ c ≠ .scalar '\\' ∧ ¬ c.toNat < 0x20 ∧ escapeInString ascii c = [c]) := by
  -- the code points with a short escape come first, in the order in which they are tested
  by_cases hq : c = .scalar '"'
  · subst hq
    exact .inl ⟨.scalar '"', rfl, rfl⟩
  by_cases hb : c = .scalar '\\'
  · subst hb
    exact .inl ⟨.scalar '\\', rfl, rfl⟩
  by_cases hn : c = .scalar '\n'
  · subst hn
    exact .inl ⟨.scalar 'n', rfl, rfl⟩
  by_cases hr : c = .scalar '\x0d'
  · subst hr
    exact .inl ⟨.scalar 'r', rfl, rfl⟩
  by_cases ht : c = .scalar '\t'
  · subst ht
    exact .inl ⟨.scalar 't', rfl, rfl⟩
  by_cases hback : c = .scalar '\x08'
  · subst hback
    exact .inl ⟨.scalar 'b', rfl, rfl⟩
  by_cases hfeed : c = .scalar '\x0c'
  · subst hfeed
    exact .inl ⟨.scalar 'f', rfl, rfl⟩
  rw [escapeInString, if_neg hq, if_neg hb, if_neg hn, if_neg hr, if_neg ht, if_neg hback,
    if_neg hfeed]
  by_cases hcontrol : c.toNat < 0x20
  · exact .inr (.inl ⟨hcontrol, if_pos hcontrol⟩)
  rw [if_neg hcontrol]
  by_cases hascii : (ascii && decide (0x7E < c.toNat)) = true
  · exact .inr (.inr (.inl ⟨(Bool.and_eq_true_iff.mp hascii).1, if_pos hascii⟩))
  · exact .inr (.inr (.inr ⟨hq, hb, hcontrol, if_neg hascii⟩))

/-- An escaped code unit spells its code point, unless the two halves of a pair meet. -/
theorem Spells.escapeUnit {s t : Text} {c : CodePoint} (hc : c.toNat < 0x10000)
    (hpair : c.isHighSurrogate → ¬ BeginsWithLow s) (h : Spells s t) :
    Spells (escapeUnit c.toNat ++ s) (c :: t) := by
  rw [← CodePoint.ofNat_toNat c] at hpair
  have hunit := Spells.unit (hexFour_hexDigits hc) hpair h
  rwa [CodePoint.ofNat_toNat] at hunit

/-- An escaped code point spells itself, beyond the basic plane as a surrogate pair. -/
theorem Spells.escapeCodePoint {s t : Text} {c : CodePoint}
    (hpair : c.isHighSurrogate → ¬ BeginsWithLow s) (h : Spells s t) :
    Spells (escapeCodePoint c ++ s) (c :: t) := by
  rw [Json.escapeCodePoint]
  split
  · next hc => exact h.escapeUnit hc hpair
  · next hc =>
    -- each half of the pair has ten bits of what is above the basic plane
    have hlt := c.toNat_lt
    generalize hn : c.toNat - 0x10000 = n
    have hfirst : (CodePoint.ofNat (0xD800 + n / 0x400)).toNat = 0xD800 + n / 0x400 :=
      CodePoint.toNat_ofNat (by omega)
    have hsecond : (CodePoint.ofNat (0xDC00 + n % 0x400)).toNat = 0xDC00 + n % 0x400 :=
      CodePoint.toNat_ofNat (by omega)
    have hhigh : (CodePoint.ofNat (0xD800 + n / 0x400)).isHighSurrogate := by
      rw [CodePoint.isHighSurrogate, hfirst, Bool.and_eq_true, decide_eq_true_iff,
        decide_eq_true_iff]
      omega
    have hlow : (CodePoint.ofNat (0xDC00 + n % 0x400)).isLowSurrogate := by
      rw [CodePoint.isLowSurrogate, hsecond, Bool.and_eq_true, decide_eq_true_iff,
        decide_eq_true_iff]
      omega
    have hjoin : CodePoint.joinPair (.ofNat (0xD800 + n / 0x400)) (.ofNat (0xDC00 + n % 0x400)) =
        c := by
      rw [CodePoint.joinPair, hfirst, hsecond, ← CodePoint.ofNat_toNat c]
      exact congrArg CodePoint.ofNat (by omega)
    have hspells := Spells.pair (hexFour_hexDigits (by omega)) (hexFour_hexDigits (by omega))
      hhigh hlow h
    rw [hjoin, ← escapeUnit_append, ← escapeUnit_append] at hspells
    rwa [List.append_assoc]

/-- A code point that is printed in a string spells itself.  In ASCII the two halves of a pair must
not meet. -/
theorem Spells.escape {ascii : Bool} {s t : Text} (c : CodePoint)
    (hpair : ascii = true → c.isHighSurrogate → ¬ BeginsWithLow s) (h : Spells s t) :
    Spells (escapeInString ascii c ++ s) (c :: t) := by
  -- one case for each way to write a code point
  rcases escapeInString_cases ascii c with ⟨e, he, hc⟩ | ⟨hcontrol, hc⟩ | ⟨hascii, hc⟩ |
      ⟨hq, hb, hcontrol, hc⟩
  · rw [hc]
    exact .short he h
  · have hhigh : ¬ c.isHighSurrogate = true := by
      rw [CodePoint.isHighSurrogate, Bool.and_eq_true, decide_eq_true_iff]
      omega
    rw [hc]
    exact h.escapeUnit (by omega) fun hc => absurd hc hhigh
  · rw [hc]
    exact h.escapeCodePoint (hpair hascii)
  · rw [hc]
    exact .plain hq hb hcontrol h

/-! ## Section 3: Whole strings -/

/-- A printed string begins with the escape of a second half of a pair only if the string begins
with that half. -/
theorem BeginsWithLow.of_escaped {ascii : Bool} {c : CodePoint} {s : Text}
    (h : BeginsWithLow (escapeInString ascii c ++ s)) : c.isLowSurrogate := by
  obtain ⟨a, b, c', d, rest, n, heq, hn, hlow⟩ := h
  -- the number of the unit is that of the code point
  have hunit (hc : c.toNat < 0x10000) (heq : escapeUnit c.toNat ++ s = writtenUnit a b c' d rest) :
      c.isLowSurrogate := by
    rwa [eq_of_escapeUnit_append hc heq hn, CodePoint.ofNat_toNat] at hlow
  rcases escapeInString_cases ascii c with ⟨e, he, hc⟩ | ⟨hcontrol, hc⟩ | ⟨-, hc⟩ | ⟨-, hb, -, hc⟩
  · rw [hc] at heq
    cases heq
    cases he
  · rw [hc] at heq
    exact hunit (by omega) heq
  · rw [hc, escapeCodePoint] at heq
    split at heq
    · next hbasic => exact hunit hbasic heq
    · next hbasic =>
      -- beyond the basic plane the first half comes first
      have hlt := c.toNat_lt
      rw [List.append_assoc] at heq
      have hnumber := eq_of_escapeUnit_append (by omega) heq hn
      rw [hnumber, CodePoint.isLowSurrogate, CodePoint.toNat_ofNat (by omega), Bool.and_eq_true,
        decide_eq_true_iff] at hlow
      omega
  · rw [hc] at heq
    exact absurd (List.cons.inj heq).1 hb

/-- A string is printed as a text that spells it, if no pair in it is in two halves or none of its
halves is escaped. -/
theorem spells_escaped {ascii : Bool} {s : Text} (h : ascii = true → s.IsJoined) :
    Spells (s.flatMap (escapeInString ascii)) s := by
  -- code point by code point; a pair of surrogates is never split by what follows
  induction s with
  | nil => exact .nil
  | cons c s ih =>
    refine (ih fun hascii => (h hascii).tail).escape c ?_
    rintro hascii hhigh hlow
    cases s with
    | nil =>
      obtain ⟨_, _, _, _, _, _, heq, _⟩ := hlow
      cases heq
    | cons d s => exact (List.isChain_cons_cons.mp (h hascii)).1 hhigh hlow.of_escaped

/-- A string that is not limited to ASCII is printed as a text that spells it. -/
theorem spells_printed (s : Text) : Spells (s.flatMap (escapeInString false)) s :=
  spells_escaped nofun

/-- A string is printed code point by code point. -/
theorem printString_eq (ascii : Bool) (s : Text) :
    printString ascii s = Text.inQuotes (s.flatMap (escapeInString ascii)) := rfl

/-- What is printed for a code point: itself, if it is neither a quotation mark nor a control, or an
escape. -/
theorem mem_escapeInString {ascii : Bool} {c d : CodePoint} (h : d ∈ escapeInString ascii c) :
    (d = c ∧ c ≠ .scalar '"' ∧ ¬ c.toNat < 0x20) ∨ shortEscape? d = some c ∨
      (d = .scalar '\\' ∨ d = .scalar 'u' ∨ (hexValue? d).isSome) := by
  -- one case for each way to write a code point
  rcases escapeInString_cases ascii c with ⟨e, he, hc⟩ | ⟨_, hc⟩ | ⟨_, hc⟩ | ⟨hq, _, hcontrol, hc⟩
  · rw [hc, List.mem_pair] at h
    rcases h with rfl | rfl
    · exact .inr (.inr (.inl rfl))
    · exact .inr (.inl he)
  · exact .inr (.inr (mem_escapeUnit (hc ▸ h)))
  · exact .inr (.inr (mem_escapeCodePoint (hc ▸ h)))
  · rw [hc, List.mem_singleton] at h
    exact .inl ⟨h, hq, hcontrol⟩

/-- A string is printed on one line. -/
theorem lineFeed_not_mem_escaped (ascii : Bool) (s : Text) :
    CodePoint.lineFeed ∉ s.flatMap (escapeInString ascii) := by
  rw [List.mem_flatMap]
  rintro ⟨c, _, hmem⟩
  rcases mem_escapeInString hmem with ⟨rfl, _, hcontrol⟩ | hshort | hescape
  · exact hcontrol (by decide)
  · cases hshort
  · exact absurd hescape (by decide)

/-- A printed string is on one line, since line feeds are escaped. -/
theorem lineFeed_not_mem_printString (ascii : Bool) (s : Text) :
    CodePoint.lineFeed ∉ printString ascii s := by
  rw [printString_eq, Text.inQuotes]
  simp [lineFeed_not_mem_escaped ascii s]

/-- Quotation marks are printed for quotation marks only. -/
theorem mark_not_mem_escaped (ascii : Bool) {s : Text} (h : .scalar '"' ∉ s) :
    .scalar '"' ∉ s.flatMap (escapeInString ascii) := by
  rw [List.mem_flatMap]
  rintro ⟨c, hmem, hmark⟩
  rcases mem_escapeInString hmark with ⟨rfl, hq, _⟩ | hshort | hescape
  · exact hq rfl
  · exact h (Option.some.inj hshort ▸ hmem)
  · exact absurd hescape (by decide)

/-- A printed string holds no surrogates but those of the string. -/
theorem isSurrogate_printString (ascii : Bool) {s : Text} (h : ∀ c ∈ s, c.isSurrogate = false) :
    ∀ c ∈ printString ascii s, c.isSurrogate = false := by
  rw [printString_eq, Text.inQuotes]
  simp only [List.cons_append, List.forall_mem_cons, List.forall_mem_append,
    List.forall_mem_flatMap]
  refine ⟨rfl, fun c hc d hd => ?_, rfl, List.forall_mem_nil _⟩
  -- an escape has only characters, and any other code point stands in the string itself
  rcases mem_escapeInString hd with ⟨rfl, _⟩ | hshort | rfl | rfl | hdigit
  · exact h d hc
  · cases d with
    | scalar d => rfl
    | surrogate u => cases hshort
  · rfl
  · rfl
  · cases d with
    | scalar d => rfl
    | surrogate u => cases hdigit

end Json

end FormSchema
