import FormSchema.Proofs.Json.Grammar
import FormSchema.Proofs.Text.Lines

/-!
# Reading numbers

The reader takes a numeral off the front of a text exactly as the grammar writes it, provided that
the text behind it does not carry the numeral on, and whatever it takes is written by the grammar.
-/

namespace FormSchema.Json

/-! ## Section 1: Runs of digits -/

/-- A text that does not begin with a digit. -/
def NoDigitFirst (s : Text) : Prop := ∀ c ∈ s.head?, c.isDigit = false

/-- All digits up to the first other code point are taken. -/
theorem takeDigits_append {ds rest : Text} (hd : ∀ d ∈ ds, d.isDigit) (hr : NoDigitFirst rest) :
    takeDigits (ds ++ rest) = (ds, rest) := by
  rw [takeDigits, List.takeWhile_append_of_pos hd, List.dropWhile_append_of_pos hd,
    Text.takeWhile_eq_nil hr, Text.dropWhile_eq_self hr, List.append_nil]

private theorem takeDigits_eq (s : Text) : s = (takeDigits s).1 ++ (takeDigits s).2 :=
  List.takeWhile_append_dropWhile.symm

private theorem isDigits_takeDigits {s : Text} (h : (takeDigits s).1 ≠ []) :
    IsDigits (takeDigits s).1 :=
  ⟨h, List.all_eq_true.mp List.all_takeWhile⟩

/-- A run of digits has a first digit. -/
theorem IsDigits.eq_cons {ds : Text} (h : IsDigits ds) : ∃ d rest, ds = d :: rest ∧ d.isDigit := by
  obtain ⟨d, rest, rfl⟩ := List.exists_cons_of_ne_nil h.1
  exact ⟨d, rest, rfl, h.2 d List.mem_cons_self⟩

/-- The whole part of a number is a run of digits. -/
theorem IsWhole.isDigits {ds : Text} (h : IsWhole ds) : IsDigits ds := by
  rcases h with rfl | h
  · exact ⟨List.cons_ne_nil _ _, by decide⟩
  · exact h.1

/-- The code points that numerals are written with. -/
def IsNumeralPart (c : CodePoint) : Prop := c.isDigit ∨ c ∈ ("+-.eE" : Text)

/-- Digits can be parts of a number. -/
theorem IsDigits.isNumeralPart {ds : Text} (h : IsDigits ds) : ∀ c ∈ ds, IsNumeralPart c :=
  fun c hc => .inl (h.2 c hc)

/-- A number has digits, signs, a point and an exponent, and nothing else. -/
theorem WritesNumeral.isNumeralPart {n : Numeral} {s : Text} (h : WritesNumeral n s) :
    ∀ c ∈ s, IsNumeralPart c := by
  obtain ⟨negative, hw, hf, hp⟩ := h
  simp only [List.forall_mem_append]
  -- a minus sign, digits, a point with digits, and a power
  refine ⟨?_, hw.isDigits.isNumeralPart, ?_, ?_⟩
  · cases negative with
    | true => exact List.forall_mem_singleton.mpr (.inr (by decide))
    | false => exact nofun
  · cases hf with
    | absent => exact nofun
    | present hd => exact List.forall_mem_cons.mpr ⟨.inr (by decide), hd.isNumeralPart⟩
  · cases hp with
    | absent => exact nofun
    | present he hs hd =>
      refine List.forall_mem_cons.mpr ⟨.inr ?_, List.forall_mem_append.mpr ⟨?_, hd.isNumeralPart⟩⟩
      · rcases he with rfl | rfl <;> decide
      · cases hs with
        | none => exact nofun
        | plus => exact List.forall_mem_singleton.mpr (.inr (by decide))
        | minus => exact List.forall_mem_singleton.mpr (.inr (by decide))

/-! ## Section 2: Taking what is written -/

/-- A text that does not carry on a numeral that stands in front of it. -/
def EndsNumeral (s : Text) : Prop :=
  ∀ c ∈ s.head?, c.isDigit = false ∧ c ≠ .scalar '.' ∧ c ≠ .scalar 'e' ∧ c ≠ .scalar 'E'

private theorem takeWhole_append {ds rest : Text} (hd : IsWhole ds) (hr : NoDigitFirst rest) :
    takeWhole? (ds ++ rest) = some (ds, rest) := by
  rcases hd with rfl | ⟨hd, hzero⟩
  · rfl
  · obtain ⟨d, tail, rfl, hdigit⟩ := hd.eq_cons
    -- digits without a leading zero do not stop at the first of them
    have hne : d ≠ .scalar '0' := fun h => hzero (h ▸ rfl)
    rw [List.cons_append, takeWhole?, if_neg hne, if_pos hdigit, ← List.cons_append,
      takeDigits_append hd.2 hr]

private theorem takeFraction_append {fraction : Option Text} {f rest : Text}
    (hf : WritesFraction fraction f) (hdigit : NoDigitFirst rest)
    (hpoint : rest.head? ≠ some (.scalar '.')) :
    takeFraction (f ++ rest) = (fraction, rest) := by
  -- without a fraction no point may follow, or it would be taken for one
  cases hf with
  | absent =>
    cases rest with
    | nil => rfl
    | cons c rest =>
      have hc : c ≠ .scalar '.' := fun h => hpoint (congrArg some h)
      simp [takeFraction, hc]
  | @present fractionDigits hd =>
    have hne : fractionDigits.isEmpty = false := List.isEmpty_eq_false_iff.mpr hd.1
    rw [List.cons_append, takeFraction, takeDigits_append hd.2 hdigit, hne]
    rfl

private theorem takeSign_append {negative : Bool} {sign ds rest : Text}
    (hs : WritesSign negative sign)
    (hd : IsDigits ds) : takeSign (sign ++ (ds ++ rest)) = (negative, ds ++ rest) := by
  cases hs with
  | none =>
    -- a digit is no sign
    obtain ⟨d, tail, rfl, hdigit⟩ := hd.eq_cons
    rw [List.nil_append, List.cons_append, takeSign]
    · rintro r ⟨⟩
      simp [CodePoint.isDigit] at hdigit
    · rintro r ⟨⟩
      simp [CodePoint.isDigit] at hdigit
  | plus => rfl
  | minus => rfl

private theorem takePower_append {power : Option (Bool × Text)} {p rest : Text}
    (hp : WritesPower power p)
    (hr : EndsNumeral rest) : takePower (p ++ rest) = (power, rest) := by
  cases hp with
  | absent =>
    cases rest with
    | nil => rfl
    | cons c rest =>
      obtain ⟨_, _, he, hE⟩ := hr c rfl
      simp [takePower, he, hE]
  | @present negative e sign ds he hs hd =>
    -- the digits of the exponent go on to the end of the numeral
    have hdigits : takeDigits (ds ++ rest) = (ds, rest) :=
      takeDigits_append hd.2 fun c hc => (hr c hc).1
    have hne : ds.isEmpty = false := List.isEmpty_eq_false_iff.mpr hd.1
    rw [List.cons_append, List.append_assoc, takePower, takeSign_append hs hd, hdigits, hne]
    rcases he with rfl | rfl <;> rfl

/-- What stands in front of the digits of a fraction or of an exponent is no digit. -/
theorem noDigitFirst_append {fraction : Option Text} {power : Option (Bool × Text)}
    {f p rest : Text} (hf : WritesFraction fraction f) (hp : WritesPower power p)
    (hr : EndsNumeral rest) : NoDigitFirst (f ++ (p ++ rest)) := by
  -- in front is a point, the letter of an exponent or what ends the numeral
  cases hf with
  | present _ =>
    rintro c ⟨⟩
    rfl
  | absent =>
    cases hp with
    | absent => exact fun c hc => (hr c hc).1
    | present he _ _ =>
      rintro c ⟨⟩
      rcases he with rfl | rfl <;> rfl

private theorem head_power_append {power : Option (Bool × Text)} {p rest : Text}
    (hp : WritesPower power p) (hr : EndsNumeral rest) :
    NoDigitFirst (p ++ rest) ∧ (p ++ rest).head? ≠ some (.scalar '.') := by
  refine ⟨noDigitFirst_append .absent hp hr, ?_⟩
  cases hp with
  | absent =>
    intro h
    exact (hr _ h).2.1 rfl
  | present he _ _ =>
    intro h
    cases h
    rcases he with he | he <;> cases he

/-- A minus sign is taken if there is one. -/
theorem takeMinus_append (negative : Bool) {ds rest : Text} (hd : IsDigits ds) :
    takeMinus ((if negative then [.scalar '-'] else []) ++ (ds ++ rest)) =
      (negative, ds ++ rest) := by
  cases negative with
  | true => rfl
  | false =>
    obtain ⟨d, tail, rfl, hdigit⟩ := hd.eq_cons
    rw [if_neg Bool.false_ne_true, List.nil_append, List.cons_append, takeMinus]
    rintro r ⟨⟩
    simp [CodePoint.isDigit] at hdigit

/-- A written numeral is taken off the front of every text that does not carry it on. -/
theorem takeNumeral_append {n : Numeral} {s rest : Text} (h : WritesNumeral n s)
    (hr : EndsNumeral rest) : takeNumeral? (s ++ rest) = some (n, rest) := by
  cases h with
  | @mk negative whole f p fraction power hw hf hp =>
    obtain ⟨hdigit, hpoint⟩ := head_power_append hp hr
    simp only [takeNumeral?, List.append_assoc, takeMinus_append negative hw.isDigits,
      takeWhole_append hw (noDigitFirst_append hf hp hr), takeFraction_append hf hdigit hpoint,
      takePower_append hp hr]

/-! ## Section 3: What is taken is written -/

private theorem takeMinus_eq (s : Text) :
    s = (if (takeMinus s).1 then [.scalar '-'] else []) ++ (takeMinus s).2 := by
  unfold takeMinus
  split <;> rfl

private theorem takeWhole_eq_some {s ds rest : Text} (h : takeWhole? s = some (ds, rest)) :
    IsWhole ds ∧ s = ds ++ rest := by
  cases s with
  | nil => cases h
  | cons c r =>
    rw [takeWhole?] at h
    split at h
    · next hc =>
      cases h
      exact ⟨.inl (hc ▸ rfl), rfl⟩
    · next hc =>
      split at h
      · next hd =>
        have heq : takeDigits (c :: r) = (ds, rest) := Option.some.inj h
        have hsplit := takeDigits_eq (c :: r)
        -- the digits that are taken begin with the one that was looked at
        have hcons : ds = c :: r.takeWhile CodePoint.isDigit := by
          rw [takeDigits, List.takeWhile_cons_of_pos hd] at heq
          exact (congrArg Prod.fst heq).symm
        rw [heq] at hsplit
        refine ⟨.inr ⟨?_, ?_⟩, hsplit⟩
        · have := isDigits_takeDigits (s := c :: r)
          rw [heq] at this
          exact this (hcons ▸ List.cons_ne_nil _ _)
        · rw [hcons]
          intro hhead
          exact hc (Option.some.inj hhead)
      · cases h

private theorem takeFraction_eq (s : Text) :
    ∃ f, WritesFraction (takeFraction s).1 f ∧ s = f ++ (takeFraction s).2 := by
  fun_cases takeFraction s with
  | case1 => exact ⟨[], .absent, rfl⟩
  | case2 c r h =>
    rw [Bool.and_eq_true, decide_eq_true_iff, Bool.not_eq_true', List.isEmpty_eq_false_iff] at h
    refine ⟨.scalar '.' :: (takeDigits r).1, .present (isDigits_takeDigits h.2), ?_⟩
    rw [h.1, List.cons_append, ← takeDigits_eq]
  | case3 c r => exact ⟨[], .absent, rfl⟩

private theorem takeSign_eq (s : Text) :
    ∃ sign, WritesSign (takeSign s).1 sign ∧ s = sign ++ (takeSign s).2 := by
  unfold takeSign
  split
  · exact ⟨_, .minus, rfl⟩
  · exact ⟨_, .plus, rfl⟩
  · exact ⟨_, .none, rfl⟩

private theorem takePower_eq (s : Text) :
    ∃ p, WritesPower (takePower s).1 p ∧ s = p ++ (takePower s).2 := by
  -- a letter without digits behind it is no power, and nothing is taken
  fun_cases takePower s with
  | case1 => exact ⟨[], .absent, rfl⟩
  | case2 c r h =>
    rw [Bool.and_eq_true, Bool.or_eq_true, decide_eq_true_iff, decide_eq_true_iff,
      Bool.not_eq_true', List.isEmpty_eq_false_iff] at h
    obtain ⟨sign, hs, hr⟩ := takeSign_eq r
    refine ⟨_, .present h.1 hs (isDigits_takeDigits h.2), ?_⟩
    rw [List.cons_append, List.append_assoc, ← takeDigits_eq, ← hr]
  | case3 c r => exact ⟨[], .absent, rfl⟩

/-- Whatever numeral is taken off the front of a text is written there. -/
theorem takeNumeral_eq_some {n : Numeral} {s rest : Text} (h : takeNumeral? s = some (n, rest)) :
    ∃ written, WritesNumeral n written ∧ s = written ++ rest := by
  simp only [takeNumeral?] at h
  split at h
  · cases h
  · next whole s₂ hw =>
    cases h
    -- part by part, each from what the part before has left
    obtain ⟨hwhole, hs₁⟩ := takeWhole_eq_some hw
    obtain ⟨f, hf, hs₂⟩ := takeFraction_eq s₂
    obtain ⟨p, hp, hs₃⟩ := takePower_eq (takeFraction s₂).2
    refine ⟨_, .mk (takeMinus s).1 hwhole hf hp, ?_⟩
    rw [List.append_assoc, List.append_assoc, List.append_assoc, ← hs₃, ← hs₂, ← hs₁,
      ← takeMinus_eq]

/-! ## Section 4: Values -/

/-- The digits are ten code points in a row. -/
theorem toNat_of_isDigit {d : CodePoint} (h : d.isDigit) : 48 ≤ d.toNat ∧ d.toNat ≤ 57 := by
  cases d with
  | surrogate s => cases h
  | scalar c =>
    rw [CodePoint.isDigit, Char.isDigit, Bool.and_eq_true, decide_eq_true_iff,
      decide_eq_true_iff] at h
    exact h

private theorem digitValue_le_nine {d : CodePoint} (h : d.isDigit) : d.digitValue ≤ 9 := by
  have hrange := toNat_of_isDigit h
  rw [CodePoint.digitValue]
  omega

private theorem foldl_digits (ds : Text) (n : Nat) :
    ds.foldl (fun n d => 10 * n + d.digitValue) n = n * 10 ^ ds.length + digitsValue ds := by
  -- the number read so far stays general: it is carried through the fold
  induction ds generalizing n with
  | nil => simp [digitsValue]
  | cons d ds ih =>
    rw [digitsValue, List.foldl_cons, List.foldl_cons, ih, ih (10 * 0 + d.digitValue),
      List.length_cons, Nat.pow_succ, Nat.mul_zero, Nat.zero_add, Nat.add_mul, Nat.mul_comm 10 n,
      Nat.mul_assoc, Nat.mul_comm 10 (10 ^ ds.length), Nat.add_assoc]

private theorem digitsValue_cons (d : CodePoint) (ds : Text) :
    digitsValue (d :: ds) = d.digitValue * 10 ^ ds.length + digitsValue ds := by
  rw [digitsValue, List.foldl_cons, foldl_digits, Nat.mul_zero, Nat.zero_add]

private theorem digitsValue_lt {ds : Text} (h : ∀ d ∈ ds, d.isDigit) :
    digitsValue ds < 10 ^ ds.length := by
  induction ds with
  | nil => exact Nat.zero_lt_one
  | cons d ds ih =>
    rw [List.forall_mem_cons] at h
    have hd := digitValue_le_nine h.1
    have hds := ih h.2
    -- the front digit counts at most nine times the power of the rest
    have hmul : d.digitValue * 10 ^ ds.length ≤ 9 * 10 ^ ds.length := Nat.mul_le_mul_right _ hd
    rw [digitsValue_cons, List.length_cons, Nat.pow_succ]
    omega

private theorem one_le_digitValue {d : CodePoint} (h : d.isDigit) (hzero : d ≠ .scalar '0') :
    1 ≤ d.digitValue := by
  have hrange := toNat_of_isDigit h
  have hne : d.toNat ≠ 48 := fun heq => hzero (CodePoint.toNat_injective heq)
  rw [CodePoint.digitValue]
  omega

/-- Digits without a leading zero are as many as their number needs. -/
theorem IsWhole.length_le_iff {ds : Text} (h : IsWhole ds) {m : Nat} (hm : 0 < m) :
    ds.length ≤ m ↔ digitsValue ds < 10 ^ m := by
  constructor
  · intro hle
    exact Nat.lt_of_lt_of_le (digitsValue_lt h.isDigits.2) (Nat.pow_le_pow_right (by decide) hle)
  · intro hlt
    rcases h with rfl | ⟨hd, hzero⟩
    · exact hm
    · obtain ⟨d, tail, rfl, hdigit⟩ := hd.eq_cons
      -- one digit more, the first not a zero, makes the number too large
      by_contra hlen
      have hpos := one_le_digitValue hdigit fun heq => hzero (congrArg some heq)
      have hpow : 10 ^ m ≤ 10 ^ tail.length :=
        Nat.pow_le_pow_right (by decide) (by rw [List.length_cons] at hlen; omega)
      have hmul : 1 * 10 ^ tail.length ≤ d.digitValue * 10 ^ tail.length :=
        Nat.mul_le_mul_right _ hpos
      rw [digitsValue_cons] at hlt
      omega

/-- The value of a written numeral is what it means, unless that is an integer of too many
digits. -/
theorem WritesNumeral.value_eq_ok_iff {n : Numeral} {s : Text} (h : WritesNumeral n s) {v : Json} :
    n.value = .ok v ↔ v = n.meaning ∧ v.FitsDigits := by
  cases h with
  | @mk negative whole f p fraction power hw hf hp =>
    rw [Numeral.value, Numeral.meaning]
    -- only an integer can have too many digits
    cases fraction with
    | some ds =>
      simp only [Except.ok.injEq]
      exact ⟨fun heq => ⟨heq.symm, heq ▸ trivial⟩, fun heq => heq.1.symm⟩
    | none =>
      cases power with
      | some e =>
        simp only [Except.ok.injEq]
        exact ⟨fun heq => ⟨heq.symm, heq ▸ trivial⟩, fun heq => heq.1.symm⟩
      | none =>
        -- the number of digits is compared where the value is read, the number itself where it fits
        have hfits := hw.length_le_iff (m := maxIntegerDigits) (by decide)
        have habs (b : Bool) :
            (if b then -(digitsValue whole : Int) else digitsValue whole).natAbs =
              digitsValue whole := by
          cases b
          · exact Int.natAbs_natCast _
          · exact (Int.natAbs_neg _).trans (Int.natAbs_natCast _)
        by_cases hlong : maxIntegerDigits < whole.length
        · simp only [if_pos hlong, reduceCtorEq, false_iff]
          rintro ⟨rfl, hv⟩
          rw [FitsDigits, habs, ← hfits] at hv
          omega
        · simp only [if_neg hlong, Except.ok.injEq]
          constructor
          · rintro rfl
            exact ⟨rfl, by rw [FitsDigits, habs, ← hfits]; omega⟩
          · rintro ⟨rfl, _⟩
            rfl

end FormSchema.Json
