import FormSchema.Proofs.Json.Faults

/-!
# Where reading is settled

What the strict reader makes of a text it makes of every text that begins in the same way, up to and
including the code point at which a value ended or something else than that code point was expected.
The exceptions are a point and the letters of an exponent behind a number, which belong to it or not
by what comes after them.
-/

namespace FormSchema.Json

/-! ## Section 1: Endings -/

/-- How a step of the reader can end: with a value, or with what is wrong at the place. -/
inductive Ending (α : Type)
  | value (v : α)
  | fault (cause : Cause)

variable {α β : Type}

/-- The reading that ends so in front of `rest`. -/
def Ending.reading : Ending α → Text → Reading α
  | .value v, rest => .ok (v, rest)
  | .fault cause, rest => .error (.atPlace cause rest)

@[simp] theorem Ending.ok_eq_reading {v : α} {r rest : Text} {e : Ending α} :
    .ok (v, r) = e.reading rest ↔ e = .value v ∧ r = rest := by
  cases e <;> simp [Ending.reading, eq_comm]

@[simp] theorem Ending.error_eq_reading {f : Fault} {rest : Text} {e : Ending α} :
    .error f = e.reading rest ↔ ∃ cause, e = .fault cause ∧ f = .atPlace cause rest := by
  cases e <;> simp [Ending.reading]

private theorem Ending.atPlace_eq_reading {cause : Cause} {r rest : Text} {e : Ending α} :
    .error (.atPlace cause r) = e.reading rest ↔ e = .fault cause ∧ r = rest := by
  cases e <;> simp [Ending.reading, eq_comm]

/-- An ending with something made of its value. -/
def Ending.map (g : α → β) : Ending α → Ending β
  | .value v => .value (g v)
  | .fault cause => .fault cause

@[simp] theorem mapReading_reading (g : α → β) (e : Ending α) (rest : Text) :
    mapReading g (e.reading rest) = (e.map g).reading rest := by
  cases e <;> rfl

private theorem exists_of_mapReading {g : α → β} {reading : Reading α} {e : Ending β} {rest : Text}
    (h : mapReading g reading = e.reading rest) :
    ∃ e' : Ending α, reading = e'.reading rest ∧ e = e'.map g := by
  rcases reading with f | ⟨v, r⟩
  · obtain ⟨cause, rfl, rfl⟩ := Ending.error_eq_reading.mp h
    exact ⟨.fault cause, rfl, rfl⟩
  · obtain ⟨rfl, rfl⟩ := Ending.ok_eq_reading.mp h
    exact ⟨.value v, rfl, rfl⟩

/-- Whether the code point at the place is what is wrong, whatever comes after it. -/
def Cause.isFinal : Cause → Bool
  | .expectingName => true
  | .expectingColon => true
  | .expectingComma => true
  | .controlCharacter => true
  | _ => false

/-- Whether what comes after the place cannot change the ending. -/
def Ending.IsFinal : Ending α → Prop
  | .value _ => True
  | .fault cause => cause.isFinal

private theorem Ending.isFinal_map {g : α → β} {e : Ending α} : (e.map g).IsFinal ↔ e.IsFinal := by
  cases e <;> rfl

/-- Whether a code point settles what a number in front of it is. -/
def Settles (c : CodePoint) : Prop := c ≠ .scalar '.' ∧ c ≠ .scalar 'e' ∧ c ≠ .scalar 'E'

instance (c : CodePoint) : Decidable (Settles c) :=
  inferInstanceAs (Decidable (c ≠ .scalar '.' ∧ c ≠ .scalar 'e' ∧ c ≠ .scalar 'E'))

/-- A step that ends in front of a code point ends in the same way on every text that is the same up
to and including that code point.  One law covers values and faults: a loop goes on where a value
ended, and it needs to know that the value ends there on the other text as well. -/
def Settled (step : Text → Reading α) : Prop :=
  ∀ ⦃s : Text⦄ ⦃e : Ending α⦄ ⦃c : CodePoint⦄ ⦃r : Text⦄, e.IsFinal → Settles c →
    step s = e.reading (c :: r) →
      ∃ x, s = x ++ c :: r ∧ ∀ r', step (x ++ c :: r') = e.reading (c :: r')

/-- What is made of a settled reading is settled. -/
theorem Settled.map {step : Text → Reading α} (hstep : Settled step) (g : α → β) :
    Settled fun s => mapReading g (step s) := by
  intro s e c r he hc h
  obtain ⟨e, hread, rfl⟩ := exists_of_mapReading h
  obtain ⟨x, hs, hx⟩ := hstep (Ending.isFinal_map.mp he) hc hread
  exact ⟨x, hs, fun r' => by simp [hx r']⟩

/-! ## Section 2: White space -/

private theorem settles_of_isSpace {c : CodePoint} (h : isSpace c) : Settles c := by
  simp only [isSpace, Bool.or_eq_true, decide_eq_true_iff] at h
  rcases h with ((rfl | rfl) | rfl) | rfl <;> decide

private theorem isSpace_of_skipSpace {s r : Text} {c : CodePoint} (h : skipSpace s = c :: r) :
    isSpace c = false := by
  have hhead := List.head?_dropWhile_not isSpace s
  rw [skipSpace] at h
  simpa [h] using hhead

/-- White space is skipped up to the same code point on every text that goes on as this one does. -/
theorem skipSpace_settled {s x r : Text} {c : CodePoint} (h : skipSpace s = x ++ c :: r) :
    ∃ l, s = l ++ (x ++ c :: r) ∧ ∀ r', skipSpace (l ++ (x ++ c :: r')) = x ++ c :: r' := by
  obtain ⟨l, hl, hs⟩ := exists_blank s
  refine ⟨l, h ▸ hs, fun r' => ?_⟩
  rw [skipSpace_append hl]
  -- the first code point behind the white space is the same
  cases x with
  | nil => exact skipSpace_cons (isSpace_of_skipSpace h) r'
  | cons d x => exact skipSpace_cons (isSpace_of_skipSpace h) (x ++ c :: r')

/-- A value with white space behind it. -/
theorem Settled.skip {step : Text → Reading α} (hstep : Settled step) {s after r : Text} {v : α}
    {c : CodePoint} (h : step s = .ok (v, after)) (hafter : skipSpace after = c :: r)
    (hc : Settles c) :
    ∃ x, s = x ++ c :: r ∧ ∀ r', ∃ after',
      step (x ++ c :: r') = .ok (v, after') ∧ skipSpace after' = c :: r' := by
  obtain ⟨l, hl, hsplit⟩ := exists_blank after
  rw [hafter] at hsplit
  subst hsplit
  cases l with
  | nil =>
    obtain ⟨x, hs, hx⟩ := hstep (e := .value v) trivial hc h
    exact ⟨x, hs, fun r' => ⟨c :: r', hx r', skipSpace_cons (isSpace_of_skipSpace hafter) r'⟩⟩
  | cons d l =>
    -- the value ends in front of the white space
    have hd : Settles d := settles_of_isSpace (hl d List.mem_cons_self)
    obtain ⟨x, hs, hx⟩ := hstep (e := .value v) trivial hd h
    refine ⟨x ++ d :: l, by simpa using hs, fun r' => ⟨d :: l ++ c :: r', ?_, ?_⟩⟩
    · rw [List.append_assoc]
      exact hx (l ++ c :: r')
    · rw [skipSpace_append hl, skipSpace_cons (isSpace_of_skipSpace hafter)]

/-! ## Section 3: Numbers -/

private theorem noDigitFirst_takeDigits (s : Text) : NoDigitFirst (takeDigits s).2 := by
  intro c hc
  have hhead := List.head?_dropWhile_not CodePoint.isDigit s
  rw [takeDigits, Option.mem_def] at hc
  simpa [hc] using hhead

private theorem takeWhole_cases {s ds rest : Text} (h : takeWhole? s = some (ds, rest)) :
    ds = [.scalar '0'] ∨ NoDigitFirst rest := by
  cases s with
  | nil => cases h
  | cons c r =>
    rw [takeWhole?] at h
    split at h
    · next hc =>
      -- a zero stands alone, whatever digit follows
      cases h
      exact .inl (hc ▸ rfl)
    · split at h
      · cases h
        exact .inr (noDigitFirst_takeDigits (c :: r))
      · cases h

private theorem takeFraction_cases (s : Text) :
    takeFraction s = (none, s) ∨ NoDigitFirst (takeFraction s).2 := by
  fun_cases takeFraction s with
  | case1 => exact .inl rfl
  | case2 c r h => exact .inr (noDigitFirst_takeDigits r)
  | case3 c r => exact .inl rfl

private theorem takePower_cases (s : Text) :
    takePower s = (none, s) ∨ NoDigitFirst (takePower s).2 := by
  fun_cases takePower s with
  | case1 => exact .inl rfl
  | case2 c r h => exact .inr (noDigitFirst_takeDigits _)
  | case3 c r => exact .inl rfl

/-- A numeral right in front of a digit is a zero. -/
theorem takeNumeral_digit {s r : Text} {n : Numeral} {d : CodePoint} (hd : d.isDigit)
    (h : takeNumeral? s = some (n, d :: r)) :
    n.whole = [.scalar '0'] ∧ n.fraction = none ∧ n.power = none := by
  have hno : ¬ NoDigitFirst (d :: r) := fun hfirst => by simp [hfirst d rfl] at hd
  simp only [takeNumeral?] at h
  split at h
  · cases h
  · next whole s₂ hw =>
    simp only [Option.some.injEq, Prod.mk.injEq] at h
    obtain ⟨rfl, hrest⟩ := h
    -- from behind: no exponent, then no fraction, and then no more than one digit
    have hpower := (takePower_cases (takeFraction s₂).2).resolve_right (hrest ▸ hno)
    rw [hpower] at hrest
    have hfraction := (takeFraction_cases s₂).resolve_right (hrest ▸ hno)
    rw [hfraction] at hrest hpower
    have hs₂ : s₂ = d :: r := hrest
    exact ⟨(takeWhole_cases hw).resolve_right (hs₂ ▸ hno), by rw [hfraction],
      by rw [hfraction, hpower]⟩

/-- A number that is followed by something that settles it does not depend on what is behind. -/
private theorem takeNumeral_settled {s r : Text} {n : Numeral} {c : CodePoint} (hc : Settles c)
    (h : takeNumeral? s = some (n, c :: r)) :
    ∃ x, WritesNumeral n x ∧ s = x ++ c :: r ∧
      ∀ r', takeNumeral? (x ++ c :: r') = some (n, c :: r') := by
  obtain ⟨x, hx, hs⟩ := takeNumeral_eq_some h
  refine ⟨x, hx, hs, fun r' => ?_⟩
  cases hd : c.isDigit with
  | false => exact takeNumeral_append hx (endsNumeral_cons r' hd hc)
  | true =>
    -- only a zero stands in front of a digit, and it is taken alone whatever follows
    obtain ⟨hwhole, hfraction, hpower⟩ := takeNumeral_digit hd h
    cases hx with
    | mk negative hw hf hp =>
      obtain rfl := hwhole
      obtain rfl := hfraction
      obtain rfl := hpower
      cases hf
      cases hp
      have htake : takeWhole? ([.scalar '0'] ++ c :: r') = some ([.scalar '0'], c :: r') := rfl
      have hpoint : takeFraction (c :: r') = (none, c :: r') := by simp [takeFraction, hc.1]
      have hletter : takePower (c :: r') = (none, c :: r') := by simp [takePower, hc.2]
      simp only [takeNumeral?, List.append_assoc, List.nil_append,
        takeMinus_append negative hw.isDigits, htake, hpoint, hletter]

/-! ## Section 4: Strings -/

private theorem readSecondHalf_cause {high : CodePoint} {s rest : Text} {cause : Cause}
    (h : readSecondHalf high s = .error (.atPlace cause rest)) : cause = .badCodeUnit := by
  rw [readSecondHalf.eq_def] at h
  split at h
  · split at h
    · cases h
      rfl
    · split at h <;> cases h
  · cases h

private theorem readEscape_cause {opening s rest : Text} {cause : Cause}
    (h : readEscape opening s = .error (.atPlace cause rest)) : ¬ cause.isFinal := by
  -- what is wrong is the escape as a whole, and not a code point in it
  rw [readEscape.eq_def] at h
  split at h
  · cases h
    decide
  · split at h
    · cases h
    · split at h
      · rw [readCodeUnit.eq_def] at h
        split at h
        · split at h
          · cases h
            decide
          · split at h
            · rw [readSecondHalf_cause h]
              decide
            · cases h
        · cases h
          decide
      · cases h
        decide

/-- What stands in front of a control character in a string is spelled. -/
theorem readString_final {opening acc s rest : Text} {cause : Cause} (hcause : cause.isFinal)
    (h : readString opening acc s = .error (.atPlace cause rest)) :
    ∃ x u c r, Spells x u ∧ s = x ++ c :: r ∧ rest = c :: r ∧ c.toNat < 0x20 ∧
      cause = .controlCharacter := by
  -- by the steps of the reader, as for the strings that are read
  fun_induction readString opening acc s with
  | case1 =>
    cases h
    cases hcause
  | case2 => cases h
  | case3 acc r f he hq =>
    cases h
    exact absurd hcause (readEscape_cause he)
  | case4 acc r p after he hq ih =>
    obtain ⟨x, u, c, t, hx, hafter, hrest, hc, rfl⟩ := ih h
    obtain ⟨y, hy, hs⟩ := (readEscape_ok he).spells hx hafter
    exact ⟨y, p :: u, c, t, hy, hs, hrest, hc, rfl⟩
  | case5 acc c r hq hb hc =>
    cases h
    exact ⟨[], [], c, r, .nil, rfl, rfl, hc, rfl⟩
  | case6 acc d r hq hb hd ih =>
    obtain ⟨x, u, c, t, hx, hr, hrest, hc, rfl⟩ := ih h
    exact ⟨d :: x, d :: u, c, t, .plain hq hb hd hx, congrArg (d :: ·) hr, hrest, hc, rfl⟩

/-- A string is settled by its closing quotation mark and by a control character in it, and the text
from its opening mark makes no difference. -/
theorem readString_settled {opening acc s r : Text} {c : CodePoint} {e : Ending Text}
    (he : e.IsFinal) (h : readString opening acc s = e.reading (c :: r)) :
    ∃ x, s = x ++ c :: r ∧
      ∀ opening' r', readString opening' acc (x ++ c :: r') = e.reading (c :: r') := by
  cases e with
  | value t =>
    obtain ⟨x, u, hx, rfl, rfl⟩ := readString_ok h
    refine ⟨x ++ [.scalar '"'], by simp, fun opening' r' => ?_⟩
    rw [List.append_assoc]
    exact hx.read opening' acc (c :: r')
  | fault cause =>
    obtain ⟨x, u, d, t, hx, rfl, hrest, hd, rfl⟩ := readString_final he h
    cases hrest
    refine ⟨x, rfl, fun opening' r' => ?_⟩
    -- a control character is neither of the marks that a string is read by
    have hslash : c ≠ .scalar '\\' := by
      rintro rfl
      exact absurd hd (by decide)
    have hquote : c ≠ .scalar '"' := by
      rintro rfl
      exact absurd hd (by decide)
    rw [hx.read_onto hslash, readString, if_neg hquote, if_neg hslash, if_pos hd]
    rfl

/-! ## Section 5: Loops -/

/-- The rounds of a loop over settled parts are the same on the other text. -/
theorem Rounds.settled {step : Text → Reading α} {closing : CodePoint} (hstep : Settled step)
    (hclosing : Settles closing) {acc : List α} {s r : Text} {c : CodePoint} {e : Ending (List α)}
    {outcome : Reading (List α)} (h : Rounds step closing acc s outcome) (he : e.IsFinal)
    (hc : Settles c) (hout : outcome = e.reading (c :: r)) :
    ∃ x, s = x ++ c :: r ∧
      ∀ r', Rounds step closing acc (x ++ c :: r') (e.reading (c :: r')) := by
  induction h with
  | fault hread =>
    obtain ⟨cause, rfl, rfl⟩ := Ending.error_eq_reading.mp hout
    obtain ⟨x, hs, hx⟩ := hstep (e := .fault cause) he hc hread
    exact ⟨x, hs, fun r' => .fault (hx r')⟩
  | stop => simp at hout
  | close hread hafter =>
    -- the loop has ended behind the bracket, whatever stands there
    obtain ⟨rfl, rfl⟩ := Ending.ok_eq_reading.mp hout
    obtain ⟨x, rfl, hx⟩ := hstep.skip hread hafter hclosing
    refine ⟨x ++ [closing], by simp, fun r' => ?_⟩
    obtain ⟨after', hread', hafter'⟩ := hx (c :: r')
    rw [List.append_assoc, List.singleton_append]
    exact .close hread' hafter'
  | next hread hafter hcomma h ih =>
    -- the other rounds begin behind the comma and the white space there
    obtain ⟨y, hy, hrounds⟩ := ih hout
    obtain ⟨l, rfl, hskip⟩ := skipSpace_settled hy
    obtain ⟨x, rfl, hx⟩ := hstep.skip hread hafter (by decide)
    refine ⟨x ++ .scalar ',' :: (l ++ y), by simp, fun r' => ?_⟩
    obtain ⟨after', hread', hafter'⟩ := hx (l ++ (y ++ c :: r'))
    have htext : x ++ .scalar ',' :: (l ++ y) ++ c :: r' =
        x ++ .scalar ',' :: (l ++ (y ++ c :: r')) := by simp
    rw [htext]
    refine .next hread' hafter' hcomma ?_
    rw [hskip]
    exact hrounds r'
  | broken hread hafter hd hcomma =>
    -- the code point behind the part is the one at the place
    obtain ⟨rfl, hrest⟩ := Ending.atPlace_eq_reading.mp hout
    cases hrest
    obtain ⟨x, hs, hx⟩ := hstep.skip hread hafter hc
    refine ⟨x, hs, fun r' => ?_⟩
    obtain ⟨after', hread', hafter'⟩ := hx r'
    exact .broken hread' hafter' hd hcomma

private theorem Loops.settled {step : Text → Reading α} {closing : CodePoint}
    {loop : List α → Text → Reading (List α)} (hloop : Loops step closing loop)
    (hstep : Settled step) (hclosing : Settles closing) (acc : List α) : Settled (loop acc) := by
  intro s e c r he hc h
  obtain ⟨x, hs, hrounds⟩ := (hloop.rounds acc s).settled hstep hclosing he hc h
  exact ⟨x, hs, fun r' => hloop.eq_iff.mpr (hrounds r')⟩

/-! ## Section 6: Arrays and objects -/

/-- A text that goes on otherwise behind `c` begins as before. -/
theorem exists_same_head {x r t : Text} {c d : CodePoint} (h : d :: t = x ++ c :: r) (r' : Text) :
    ∃ t', x ++ c :: r' = d :: t' := by
  cases x with
  | nil =>
    cases h
    exact ⟨r', rfl⟩
  | cons e x =>
    cases h
    exact ⟨x ++ c :: r', rfl⟩

/-- What is inside brackets is settled if the parts are. -/
theorem Encloses.settled {inside : Text → Reading β} {closing : CodePoint}
    {parts : Text → Reading (List α)} {make : List α → β} {missing : Cause}
    (hinside : Encloses inside closing parts make missing) (hparts : Settled parts) :
    Settled inside := by
  intro s e c r he hc h
  cases hs : skipSpace s with
  | nil =>
    rw [hinside.nothing hs] at h
    simp at h
  | cons d t =>
    rw [hinside.something hs] at h
    split at h
    · next hd =>
      obtain ⟨rfl, rfl⟩ := Ending.ok_eq_reading.mp h
      have hskip : skipSpace s = [d] ++ c :: r := hs
      obtain ⟨l, rfl, hl⟩ := skipSpace_settled hskip
      refine ⟨l ++ [d], by simp, fun r' => ?_⟩
      rw [List.append_assoc, hinside.something (hl r'), if_pos hd]
      rfl
    · next hd =>
      obtain ⟨y, hy, hread⟩ := hparts.map make he hc h
      obtain ⟨l, rfl, hl⟩ := skipSpace_settled (hs.trans hy)
      refine ⟨l ++ y, by simp, fun r' => ?_⟩
      -- the parts begin with the same code point, which does not close the bracket
      obtain ⟨t', ht'⟩ := exists_same_head hy r'
      rw [List.append_assoc, hinside.something ((hl r').trans ht'), if_neg hd, ← ht']
      exact hread r'

section Brackets

variable {value : Reader}

private theorem readMember_of_name {t after name : Text}
    (h : readString (.scalar '"' :: t) [] t = .ok (name, after)) :
    readMember value (.scalar '"' :: t) = mapReading (name, ·) (readMemberValue value after) := by
  rw [readMember, if_pos rfl, h]
  cases hvalue : readMemberValue value after <;> simp only [hvalue, mapReading]

variable (hvalue : Settled value.read)
include hvalue

private theorem readArray_settled : Settled (readArray value) :=
  (readArray_encloses value).settled ((readItems_loops value).settled hvalue (by decide) [])

private theorem readMemberValue_settled : Settled (readMemberValue value) := by
  intro s e c r he hc h
  rw [readMemberValue.eq_def] at h
  split at h
  · simp at h
  · next d t hs =>
    obtain ⟨l, rfl, hl⟩ := skipSpace_settled (x := []) hs
    split at h
    -- the white space in front of the colon and behind it is skipped on either text
    · next hd =>
      obtain ⟨y, hy, hread⟩ := hvalue he hc h
      obtain ⟨m, rfl, hm⟩ := skipSpace_settled hy
      refine ⟨l ++ d :: (m ++ y), by simp, fun r' => ?_⟩
      have hskip := hl (m ++ (y ++ c :: r'))
      rw [List.nil_append] at hskip
      rw [List.append_assoc, List.cons_append, List.append_assoc, readMemberValue, hskip]
      simp only [if_pos hd, hm, hread]
    · next hd =>
      obtain ⟨rfl, hrest⟩ := Ending.atPlace_eq_reading.mp h
      cases hrest
      refine ⟨l, rfl, fun r' => ?_⟩
      have hskip := hl r'
      rw [List.nil_append] at hskip
      rw [readMemberValue, hskip]
      simp only [if_neg hd]
      rfl

private theorem readMember_settled : Settled (readMember value) := by
  intro s e c r he hc h
  cases s with
  | nil => simp [readMember] at h
  | cons d t =>
    by_cases hd : d = .scalar '"'
    · subst hd
      -- the name is settled, or else it is read and its value is settled
      cases hname : readString (.scalar '"' :: t) [] t with
      | error f =>
        rw [readMember, if_pos rfl, hname] at h
        obtain ⟨cause, rfl, rfl⟩ := Ending.error_eq_reading.mp h
        obtain ⟨x, rfl, hx⟩ := readString_settled (e := .fault cause) he hname
        refine ⟨.scalar '"' :: x, rfl, fun r' => ?_⟩
        rw [List.cons_append, readMember, if_pos rfl, hx]
        rfl
      | ok reading =>
        obtain ⟨name, after⟩ := reading
        rw [readMember_of_name hname] at h
        obtain ⟨y, u, hy, rfl, rfl⟩ := readString_ok hname
        obtain ⟨x, rfl, hx⟩ := (readMemberValue_settled hvalue).map _ he hc h
        refine ⟨.scalar '"' :: (y ++ .scalar '"' :: x), by simp, fun r' => ?_⟩
        rw [List.cons_append, List.append_assoc, List.cons_append,
          readMember_of_name (hy.read _ [] (x ++ c :: r'))]
        exact hx r'
    · rw [readMember, if_neg hd] at h
      obtain ⟨rfl, hrest⟩ := Ending.atPlace_eq_reading.mp h
      cases hrest
      refine ⟨[], rfl, fun r' => ?_⟩
      rw [List.nil_append, readMember, if_neg hd]
      rfl

private theorem readObject_settled : Settled (readObject value) := by
  have hmember := readMember_settled hvalue
  exact (readObject_encloses value).settled
    ((readMembers_loops value).settled hmember (by decide) [])

end Brackets

/-! ## Section 7: Values -/

private theorem Numeral.value_ne_atPlace (n : Numeral) (cause : Cause) (rest : Text) :
    n.value ≠ .error (.atPlace cause rest) := by
  unfold Numeral.value
  split
  · split <;> exact nofun
  · exact nofun

private theorem readScalar_settled {room : Nat} {s r : Text} {c : CodePoint} {e : Ending Json}
    (he : e.IsFinal) (hc : Settles c) (h : readScalar .strict s = e.reading (c :: r)) :
    ∃ x, s = x ++ c :: r ∧
      ∀ r', (reader .strict room).read (x ++ c :: r') = e.reading (c :: r') := by
  unfold readScalar at h
  split at h
  · next k t hk =>
    split at h
    -- a constant that is refused is named without a place
    · simp at h
    · next hstrict =>
      obtain ⟨rfl, rfl⟩ := Ending.ok_eq_reading.mp h
      refine ⟨k.text, eq_append_of_keyword hk, fun r' => ?_⟩
      exact read_keyword (by simpa using hstrict) _
  · rw [readNumber.eq_def] at h
    split at h
    · obtain ⟨cause, rfl, hf⟩ := Ending.error_eq_reading.mp h
      cases hf
      cases he
    · next n t hn =>
      split at h
      · next f hvalue =>
        obtain ⟨cause, -, rfl⟩ := Ending.error_eq_reading.mp h
        exact absurd hvalue (n.value_ne_atPlace cause (c :: r))
      · next v hvalue =>
        obtain ⟨rfl, rfl⟩ := Ending.ok_eq_reading.mp h
        obtain ⟨x, hx, hs, htake⟩ := takeNumeral_settled hc hn
        refine ⟨x, hs, fun r' => ?_⟩
        rw [hx.read_eq_readNumber, readNumber, htake]
        simp only [hvalue]
        rfl

private theorem ReadsBy.settled {room : Nat} {s r : Text} {c : CodePoint} {e : Ending Json}
    {outcome : Reading Json} (h : ReadsBy .strict room s outcome)
    (hinner : ∀ n, room = n + 1 → Settled (reader .strict n).read) (he : e.IsFinal)
    (hc : Settles c) (hout : outcome = e.reading (c :: r)) :
    ∃ x, s = x ++ c :: r ∧
      ∀ r', (reader .strict room).read (x ++ c :: r') = e.reading (c :: r') := by
  -- one case for each way in which a value can begin
  cases h with
  | nothing | tooDeep => simp at hout
  | string t =>
    obtain ⟨e, hread, rfl⟩ := exists_of_mapReading hout
    obtain ⟨x, rfl, hx⟩ := readString_settled (Ending.isFinal_map.mp he) hread
    refine ⟨.scalar '"' :: x, rfl, fun r' => ?_⟩
    rw [List.cons_append, read_string, hx, mapReading_reading]
  | array t =>
    obtain ⟨x, rfl, hx⟩ := readArray_settled (hinner _ rfl) he hc hout
    exact ⟨.scalar '[' :: x, rfl, hx⟩
  | object t =>
    obtain ⟨x, rfl, hx⟩ := readObject_settled (hinner _ rfl) he hc hout
    exact ⟨.scalar '\x7b' :: x, rfl, hx⟩
  | scalar => exact readScalar_settled he hc hout

/-- The strict reader is settled. -/
theorem reader_settled (room : Nat) : Settled (reader .strict room).read := by
  induction room using roomInduction with
  | read room hinner =>
    intro s e c r he hc h
    exact (reader_readsBy .strict room s).settled hinner he hc h

/-! ## Section 8: Whole texts -/

/-- What is wrong with a text for a final cause is wrong with every text that begins in the same
way, up to and including the code point at the place. -/
theorem parse_settled {s r : Text} {c : CodePoint} {cause : Cause} (hcause : cause.isFinal)
    (hc : Settles c) (h : parse s = .error (.atPlace cause (c :: r))) :
    ∃ x, s = x ++ c :: r ∧ ∀ r', parse (x ++ c :: r') = .error (.atPlace cause (c :: r')) := by
  rcases parse_eq_error h with heq | ⟨hmark, hread | ⟨w, rest, d, t, -, -, heq⟩⟩
  · cases heq
    cases hcause
  · obtain ⟨y, hy, hfault⟩ := reader_settled maxDepth (e := .fault cause) hcause hc hread
    obtain ⟨l, rfl, hskip⟩ := skipSpace_settled hy
    refine ⟨l ++ y, (List.append_assoc _ _ _).symm, fun r' => ?_⟩
    -- the other text does not begin with the mark either
    have hmark' : (l ++ (y ++ c :: r')).head? ≠ some byteOrderMark := by
      simpa using hmark
    rw [List.append_assoc, parse, parseDialect, if_neg hmark', hskip, hfault]
    rfl
  · cases heq
    cases hcause

/-- What stands in front of data that is too much is a whole text. -/
theorem parse_before_extra {s rest : Text} (h : parse s = .error (.atPlace .extraData rest)) :
    ∃ x c r v, rest = c :: r ∧ s = x ++ c :: r ∧ parse x = .ok v := by
  -- only a value with something behind it has this cause
  rcases parse_eq_error h with heq | ⟨-, hread | ⟨w, after, c, r, hread, hafter, heq⟩⟩
  · cases heq
  · exact absurd rfl ((reader_fault maxDepth hread).not_extra rest)
  · cases heq
    obtain ⟨v, x, hx, hs, hfits, rfl⟩ := reader_sound maxDepth hread
    obtain ⟨l, hl, hsl⟩ := exists_blank s
    obtain ⟨m, hm, hsm⟩ := exists_blank after
    refine ⟨l ++ (x ++ m), c, r, v.merge, rfl, ?_, ?_⟩
    · rw [List.append_assoc, List.append_assoc, ← hafter, ← hsm, ← hs, ← hsl]
    · exact parse_eq_ok_iff.mpr ⟨v, .element hl hx hm, hfits, rfl⟩

end FormSchema.Json
