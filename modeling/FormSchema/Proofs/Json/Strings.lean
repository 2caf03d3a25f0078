import FormSchema.Proofs.Json.Grammar

/-!
# Reading strings

What is spelled between quotation marks is what the reader of strings makes of it.  The reader looks
ahead behind an escaped first half of a surrogate pair, and further than the escape that may follow
it; the closing quotation mark sees to it that this makes no difference, and so does every other
code point that is no backslash.
-/

namespace FormSchema.Json

/-! ## Section 1: One escape -/

private theorem writtenUnit_append (a b c d : CodePoint) (s t : Text) :
    writtenUnit a b c d s ++ t = writtenUnit a b c d (s ++ t) := rfl

/-- A code unit that is written in front of anything but a backslash has four digits. -/
theorem Spells.written_unit {s t rest tail : Text} {a b c d e : CodePoint} (h : Spells s t)
    (he : e ≠ .scalar '\\') (heq : s ++ e :: rest = writtenUnit a b c d tail) :
    ∃ s' n, s = writtenUnit a b c d s' ∧ hexFour? a b c d = some n := by
  -- nothing else that is spelled begins with a backslash and a `u`
  cases h with
  | nil => exact absurd (List.cons.inj heq).1 he
  | plain hq hb hc h => exact absurd (List.cons.inj heq).1 hb
  | short hp h =>
    cases (List.cons.inj (List.cons.inj heq).2).1
    cases hp
  | unit hn hs h =>
    cases heq
    exact ⟨_, _, rfl, hn⟩
  | pair hn hm hhigh hlow h =>
    cases heq
    exact ⟨_, _, rfl, hn⟩

private theorem readEscape_short {opening r : Text} {e p : CodePoint}
    (h : shortEscape? e = some p) :
    readEscape opening (e :: r) = .ok (p, r) := by
  rw [readEscape, h]

/-- Four digits make a code unit, and the first half of a pair looks for a second one. -/
private theorem readCodeUnit_of_hexFour {u a b c d : CodePoint} {r : Text} {n : Nat} (hr : r ≠ [])
    (h : hexFour? a b c d = some n) :
    readCodeUnit (u :: a :: b :: c :: d :: r) =
      if (CodePoint.ofNat n).isHighSurrogate then readSecondHalf (CodePoint.ofNat n) r
      else .ok (CodePoint.ofNat n, r) := by
  obtain ⟨next, r, rfl⟩ := List.exists_cons_of_ne_nil hr
  rw [readCodeUnit, h]

/-- The first half of a pair stands alone where no second half is spelled behind it. -/
theorem readSecondHalf_alone {high e : CodePoint} {s t rest : Text} (h : Spells s t)
    (he : e ≠ .scalar '\\') (hlow : ¬ BeginsWithLow s) :
    readSecondHalf high (s ++ e :: rest) = .ok (high, s ++ e :: rest) := by
  rw [readSecondHalf.eq_def]
  split
  -- an escape is there, but not one of a second half
  · next a b c d next r heq =>
    obtain ⟨s', n, rfl, hn⟩ := h.written_unit he heq
    have hnot : ¬ (CodePoint.ofNat n).isLowSurrogate = true :=
      fun hl => hlow ⟨a, b, c, d, s', n, rfl, hn, hl⟩
    rw [hn]
    exact if_neg hnot
  · rfl

private theorem readSecondHalf_pair {high : CodePoint} {a b c d : CodePoint} {n : Nat} {r : Text}
    (hr : r ≠ []) (hn : hexFour? a b c d = some n) (hl : (CodePoint.ofNat n).isLowSurrogate) :
    readSecondHalf high (writtenUnit a b c d r) =
      .ok (CodePoint.joinPair high (CodePoint.ofNat n), r) := by
  obtain ⟨next, r, rfl⟩ := List.exists_cons_of_ne_nil hr
  rw [writtenUnit, readSecondHalf, hn]
  exact if_pos hl

/-! ## Section 2: Reading what is spelled -/

private theorem readString_plain {opening acc r : Text} {c : CodePoint} (hq : c ≠ .scalar '"')
    (hb : c ≠ .scalar '\\') (hc : ¬ c.toNat < 0x20) :
    readString opening acc (c :: r) = readString opening (c :: acc) r := by
  rw [readString, if_neg hq, if_neg hb, if_neg hc]

private theorem readString_escape {opening acc r rest : Text} {p : CodePoint}
    (h : readEscape opening r = .ok (p, rest)) :
    readString opening acc (.scalar '\\' :: r) = readString opening (p :: acc) rest := by
  have hq : CodePoint.scalar '\\' ≠ .scalar '"' := by decide
  rw [readString, if_neg hq, if_pos rfl]
  split
  · next f hf => rw [h] at hf; cases hf
  · next p' rest' hp => rw [h] at hp; cases hp; rfl

private theorem readString_unit {opening acc r rest : Text} {a b c d p : CodePoint}
    (h : readCodeUnit (.scalar 'u' :: a :: b :: c :: d :: r) = .ok (p, rest)) :
    readString opening acc (writtenUnit a b c d r) = readString opening (p :: acc) rest :=
  readString_escape h

/-- What is spelled in front of anything but a backslash is read, and the reader goes on there. -/
theorem Spells.read_onto {s t : Text} (h : Spells s t) {e : CodePoint} (he : e ≠ .scalar '\\')
    (opening acc rest : Text) :
    readString opening acc (s ++ e :: rest) =
      readString opening (t.reverse ++ acc) (e :: rest) := by
  -- on the spelling; what is read so far stays general
  induction h generalizing acc with
  | nil => rfl
  | @plain c s t hq hb hc _ ih =>
    rw [List.cons_append, readString_plain hq hb hc, ih, List.reverse_cons, List.append_assoc,
      List.singleton_append]
  | @short d p s t hp _ ih =>
    rw [List.cons_append, List.cons_append, readString_escape (readEscape_short hp), ih,
      List.reverse_cons, List.append_assoc, List.singleton_append]
  | @unit a b c d n s t hn hs h ih =>
    have hne : s ++ e :: rest ≠ [] :=
      List.append_ne_nil_of_right_ne_nil _ (List.cons_ne_nil _ _)
    -- the first half of a pair is read alone, as the spelling has no second half behind it
    have hread : readCodeUnit (.scalar 'u' :: a :: b :: c :: d :: (s ++ e :: rest)) =
        .ok (CodePoint.ofNat n, s ++ e :: rest) := by
      rw [readCodeUnit_of_hexFour hne hn]
      split
      · next hhigh => exact readSecondHalf_alone h he (hs hhigh)
      · rfl
    rw [writtenUnit_append, readString_unit hread, ih, List.reverse_cons, List.append_assoc,
      List.singleton_append]
  | @pair a b c d a' b' c' d' n m s t hn hm hhigh hlow h ih =>
    have hne : s ++ e :: rest ≠ [] :=
      List.append_ne_nil_of_right_ne_nil _ (List.cons_ne_nil _ _)
    have hread : readCodeUnit (.scalar 'u' :: a :: b :: c :: d ::
          writtenUnit a' b' c' d' (s ++ e :: rest)) =
        .ok (CodePoint.joinPair (CodePoint.ofNat n) (CodePoint.ofNat m), s ++ e :: rest) := by
      have hsecond : writtenUnit a' b' c' d' (s ++ e :: rest) ≠ [] := List.cons_ne_nil _ _
      rw [readCodeUnit_of_hexFour hsecond hn, if_pos hhigh]
      exact readSecondHalf_pair hne hm hlow
    rw [writtenUnit_append, writtenUnit_append, readString_unit hread, ih, List.reverse_cons,
      List.append_assoc, List.singleton_append]

/-- What is spelled up to a quotation mark is read as the string that it spells. -/
theorem Spells.read {s t : Text} (h : Spells s t) (opening acc rest : Text) :
    readString opening acc (s ++ .scalar '"' :: rest) = .ok (acc.reverse ++ t, rest) := by
  rw [h.read_onto (by decide), readString, if_pos rfl, List.reverse_append, List.reverse_reverse]

/-! ## Section 3: What is read is spelled -/

/-- What the reader can have met behind a backslash, `p` being the code point that it read. -/
inductive Escape (p : CodePoint) (rest : Text) : Text → Prop
  | short {e : CodePoint} (he : shortEscape? e = some p) : Escape p rest (e :: rest)
  | unit {a b c d : CodePoint} {n : Nat} (hn : hexFour? a b c d = some n)
      (hp : p = CodePoint.ofNat n)
      (hs : (CodePoint.ofNat n).isHighSurrogate → ∀ a b c d m tail, tail ≠ [] →
        rest = writtenUnit a b c d tail → hexFour? a b c d = some m →
        ¬ (CodePoint.ofNat m).isLowSurrogate) :
      Escape p rest (.scalar 'u' :: a :: b :: c :: d :: rest)
  | pair {a b c d a' b' c' d' : CodePoint} {n m : Nat} (hn : hexFour? a b c d = some n)
      (hm : hexFour? a' b' c' d' = some m) (hhigh : (CodePoint.ofNat n).isHighSurrogate)
      (hlow : (CodePoint.ofNat m).isLowSurrogate)
      (hp : p = CodePoint.joinPair (CodePoint.ofNat n) (CodePoint.ofNat m)) :
      Escape p rest (.scalar 'u' :: a :: b :: c :: d :: writtenUnit a' b' c' d' rest)

/-- Behind a first half there is a second one, or the first one stands alone. -/
private theorem readSecondHalf_ok {high p : CodePoint} {s rest : Text}
    (h : readSecondHalf high s = .ok (p, rest)) :
    (∃ a b c d m, s = writtenUnit a b c d rest ∧ hexFour? a b c d = some m ∧
      (CodePoint.ofNat m).isLowSurrogate ∧ p = CodePoint.joinPair high (CodePoint.ofNat m)) ∨
    (p = high ∧ rest = s ∧ ∀ a b c d m tail, tail ≠ [] → s = writtenUnit a b c d tail →
      hexFour? a b c d = some m → ¬ (CodePoint.ofNat m).isLowSurrogate) := by
  rw [readSecondHalf.eq_def] at h
  -- four digits behind another escape, or nothing that could be a second half
  split at h
  · next a b c d next r =>
    split at h
    · cases h
    · next m hm =>
      split at h
      · next hlow =>
        simp only [Except.ok.injEq, Prod.mk.injEq] at h
        obtain ⟨hp, hr⟩ := h
        exact .inl ⟨a, b, c, d, m, hr ▸ rfl, hm, hlow, hp.symm⟩
      · next hlow =>
        cases h
        refine .inr ⟨rfl, rfl, ?_⟩
        rintro a' b' c' d' m' tail hne heq hm'
        cases heq
        rw [hm] at hm'
        cases hm'
        exact hlow
  · next hno =>
    cases h
    refine .inr ⟨rfl, rfl, ?_⟩
    rintro a b c d m tail hne heq
    obtain ⟨next, r, rfl⟩ := List.exists_cons_of_ne_nil hne
    exact absurd heq (hno a b c d next r)

private theorem readCodeUnit_ok {s rest : Text} {p : CodePoint}
    (h : readCodeUnit (.scalar 'u' :: s) = .ok (p, rest)) : Escape p rest (.scalar 'u' :: s) := by
  rw [readCodeUnit.eq_def] at h
  -- no four digits, or four that are the first half of a pair or a code point of their own
  split at h
  · next u a b c d next r heq =>
    cases heq
    split at h
    · cases h
    · next n hn =>
      split at h
      · next hhigh =>
        rcases readSecondHalf_ok h with ⟨a', b', c', d', m, heq, hm, hlow, hp⟩ | ⟨hp, heq, hno⟩
        · rw [heq]
          exact .pair hn hm hhigh hlow hp
        · rw [← heq]
          exact .unit hn hp fun _ => heq ▸ hno
      · next hhigh =>
        cases h
        exact .unit hn rfl fun h => absurd h hhigh
  · cases h

/-- An escape that is read was written, in the short form or in digits. -/
theorem readEscape_ok {opening s rest : Text} {p : CodePoint}
    (h : readEscape opening s = .ok (p, rest)) : Escape p rest s := by
  rw [readEscape.eq_def] at h
  split at h
  · cases h
  · next c r =>
    split at h
    · next he =>
      cases h
      exact .short he
    · split at h
      · next hu =>
        cases hu
        exact readCodeUnit_ok h
      · cases h

/-- An escape in front of a spelling makes a longer spelling. -/
theorem Escape.spells {p e : CodePoint} {rest s x u r : Text} (h : Escape p rest s)
    (hx : Spells x u) (hrest : rest = x ++ e :: r) :
    ∃ y, Spells y (p :: u) ∧ .scalar '\\' :: s = y ++ e :: r := by
  subst hrest
  cases h with
  | short he => exact ⟨_, .short he hx, rfl⟩
  | unit hn hp hs =>
    subst hp
    refine ⟨_, .unit hn ?_ hx, rfl⟩
    rintro hhigh ⟨a, b, c, d, tail, m, rfl, hm, hlow⟩
    -- what ends the spelling makes sure that the text behind the escape is not empty
    exact hs hhigh a b c d m (tail ++ e :: r)
      (List.append_ne_nil_of_right_ne_nil _ (List.cons_ne_nil _ _)) rfl hm hlow
  | @pair a b c d a' b' c' d' n m hn hm hhigh hlow hp =>
    refine ⟨writtenUnit a b c d (writtenUnit a' b' c' d' x), ?_, rfl⟩
    rw [hp]
    exact .pair hn hm hhigh hlow hx

/-- Whatever string is read up to a quotation mark is spelled there. -/
theorem readString_ok {opening acc s t r : Text} (h : readString opening acc s = .ok (t, r)) :
    ∃ x u, Spells x u ∧ s = x ++ .scalar '"' :: r ∧ t = acc.reverse ++ u := by
  -- by the steps of the reader: the end of the text, the closing mark, an escape that cannot be
  -- read, one that can, a control character, and any other code point
  fun_induction readString opening acc s with
  | case1 => cases h
  | case2 acc r' =>
    cases h
    exact ⟨[], [], .nil, rfl, (List.append_nil _).symm⟩
  | case3 => cases h
  | case4 acc r' p rest he hq ih =>
    obtain ⟨x, u, hx, hrest, ht⟩ := ih h
    obtain ⟨y, hy, hs⟩ := (readEscape_ok he).spells hx hrest
    refine ⟨y, p :: u, hy, hs, ?_⟩
    rw [ht, List.reverse_cons, List.append_assoc, List.singleton_append]
  | case5 => cases h
  | case6 acc c r' hq hb hc ih =>
    obtain ⟨x, u, hx, hr, ht⟩ := ih h
    refine ⟨c :: x, c :: u, .plain hq hb hc hx, congrArg (c :: ·) hr, ?_⟩
    rw [ht, List.reverse_cons, List.append_assoc, List.singleton_append]

end FormSchema.Json
