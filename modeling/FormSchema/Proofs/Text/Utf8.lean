import FormSchema.Text.Utf8

/-!
# UTF-8 there and back

The octets without a malformed sequence are the encodings of the texts without surrogates, and each
is decoded as the text that it encodes.  The octets that the decoder has taken are at every moment
those of the code points found, and then those of the code point begun; and from the octets of one
code point the decoder finds just that one.
-/

namespace FormSchema

/-- Numbers below the limit are code points. -/
theorem CodePoint.toNat_ofNat {n : Nat} (h : n < 0x110000) : (CodePoint.ofNat n).toNat = n := by
  unfold CodePoint.ofNat
  split
  · simp only [CodePoint.toNat]
    omega
  · next hs =>
    -- no surrogate and not too large, so that it is a character
    have hvalid : n.isValidChar := by
      simp only [Nat.isValidChar]
      omega
    rw [CodePoint.toNat, Char.ofNat, dif_pos hvalid]
    rfl

/-- Code points are below the limit. -/
theorem CodePoint.toNat_lt (c : CodePoint) : c.toNat < 0x110000 := by
  cases c with
  | scalar c =>
    have hc : c.toNat < 0xD800 ∨ (0xDFFF < c.toNat ∧ c.toNat < 0x110000) := c.valid
    rw [CodePoint.toNat]
    omega
  | surrogate s =>
    rw [CodePoint.toNat]
    omega

/-- A code point is told by its number. -/
theorem CodePoint.ofNat_toNat (c : CodePoint) : CodePoint.ofNat c.toNat = c :=
  CodePoint.toNat_injective (CodePoint.toNat_ofNat c.toNat_lt)

private theorem CodePoint.isSurrogate_ofNat {n : Nat} (h : n < 0xD800 ∨ 0xDFFF < n) :
    (CodePoint.ofNat n).isSurrogate = false := by
  rw [CodePoint.ofNat, dif_neg (by omega)]
  rfl

private theorem CodePoint.toNat_of_isSurrogate_eq_false {c : CodePoint}
    (h : c.isSurrogate = false) :
    c.toNat < 0xD800 ∨ 0xDFFF < c.toNat := by
  cases c with
  | scalar c =>
    have hc : c.toNat < 0xD800 ∨ (0xDFFF < c.toNat ∧ c.toNat < 0x110000) := c.valid
    exact hc.imp_right And.left
  | surrogate s => cases h

namespace Utf8

/-! ## Section 1: Leads -/

/-- What a lead octet begins, by the number of octets that its code points have.  The second octet
is so limited that no code point is written longer than it has to be, and none is a surrogate or
beyond the last. -/
inductive Begins (b : Nat) (p : Pending) : Prop
  | one (hb : b < 0x80) (howed : p.owed = 0) (hbits : p.bits = b)
  | two (hb : 0xC2 ≤ b ∧ b < 0xE0) (howed : p.owed = 1) (hnext : 0x80 ≤ p.low ∧ p.high ≤ 0xBF)
      (hbits : p.bits = b - 0xC0)
  | three (hb : 0xE0 ≤ b ∧ b < 0xF0) (howed : p.owed = 2) (hnext : 0x80 ≤ p.low ∧ p.high ≤ 0xBF)
      (hbits : p.bits = b - 0xE0) (hlong : b = 0xE0 → 0xA0 ≤ p.low)
      (hsurrogate : b = 0xED → p.high ≤ 0x9F)
  | four (hb : 0xF0 ≤ b ∧ b < 0xF5) (howed : p.owed = 3) (hnext : 0x80 ≤ p.low ∧ p.high ≤ 0xBF)
      (hbits : p.bits = b - 0xF0) (hlong : b = 0xF0 → 0x90 ≤ p.low)
      (hlast : b = 0xF4 → p.high ≤ 0x8F)

/-- An octet that leads a sequence tells how many follow, and the bits that it holds. -/
private theorem begins_of_lead? {b : Nat} {p : Pending} (h : lead? b = some p) : Begins b p := by
  -- the ranges in the order in which they are asked for; the leads at the ends of a range limit the
  -- second octet further
  unfold lead? at h
  split at h
  · cases h
    exact .one ‹_› rfl rfl
  split at h
  · cases h
  split at h
  · cases h
    exact .two (by omega) rfl (by simp) rfl
  split at h
  · next hb =>
    cases h
    exact .three (by omega) rfl (by simp) (by rw [hb]) (by simp) (by omega)
  split at h
  · next hb =>
    cases h
    exact .three (by omega) rfl (by simp) rfl (by omega) (by simp)
  split at h
  · cases h
    exact .three (by omega) rfl (by simp) rfl (by omega) (by omega)
  split at h
  · next hb =>
    cases h
    exact .four (by omega) rfl (by simp) (by rw [hb]) (by simp) (by omega)
  split at h
  · cases h
    exact .four (by omega) rfl (by simp) rfl (by omega) (by omega)
  split at h
  · cases h
    exact .four (by omega) rfl (by simp) rfl (by omega) (by simp)
  · cases h

/-! ## Section 2: One code point -/

/-- The octets that have been taken for a begun code point. -/
inductive Begun : Pending → Octets → Prop
  | lead {b : UInt8} {p : Pending} (h : Begins b.toNat p) : Begun p [b]
  | more {p : Pending} {w : Octets} {b : UInt8} (h : Begun p w) (howed : p.owed ≠ 0)
      (hb : p.low ≤ b.toNat ∧ b.toNat ≤ p.high) : Begun (p.push b.toNat) (w ++ [b])

private theorem Begun.owed_le {p : Pending} {w : Octets} (h : Begun p w) : p.owed ≤ 3 := by
  induction h with
  | lead h => cases h <;> omega
  | more h howed hb ih =>
    simp only [Pending.push]
    omega

private theorem ofNat_eq {b : UInt8} {n : Nat} (h : n = b.toNat) : UInt8.ofNat n = b := by
  rw [h, UInt8.ofNat_toNat]

private theorem continuation_eq {b : UInt8} {n : Nat} (hb : 0x80 ≤ b.toNat ∧ b.toNat ≤ 0xBF)
    (h : n % 0x40 = b.toNat - 0x80) : continuation n = b :=
  ofNat_eq (by omega)

section Complete

variable {b c d e : UInt8} {p : Pending}

/-- `Writes w n`: the octets encode the code point of a number, which is no surrogate. -/
def Writes (w : Octets) (n : Nat) : Prop :=
  encodeCodePoint (.ofNat n) = w ∧ (CodePoint.ofNat n).isSurrogate = false

private theorem writes_two (hb : Begins b.toNat p) (howed : p.owed = 1)
    (hc : p.low ≤ c.toNat ∧ c.toNat ≤ p.high) :
    Writes [b, c] (p.push c.toNat).bits := by
  cases hb with
  | two hb _ hnext hbits =>
    have hn : (p.push c.toNat).bits = (b.toNat - 0xC0) * 0x40 + (c.toNat - 0x80) := by
      rw [Pending.push, hbits]
    -- from here on it is arithmetic on the two octets
    generalize (p.push c.toNat).bits = n at hn
    have htwo : n < 0x800 := by omega
    refine ⟨?_, CodePoint.isSurrogate_ofNat (by omega)⟩
    rw [encodeCodePoint, CodePoint.toNat_ofNat (by omega), if_neg (by omega), if_pos htwo,
      ofNat_eq (b := b) (by omega), continuation_eq (b := c) (by omega) (by omega)]
  | one | three | four => omega

private theorem writes_three (hb : Begins b.toNat p) (howed : p.owed = 2)
    (hc : p.low ≤ c.toNat ∧ c.toNat ≤ p.high) (hd : 0x80 ≤ d.toNat ∧ d.toNat ≤ 0xBF) :
    Writes [b, c, d] ((p.push c.toNat).push d.toNat).bits := by
  cases hb with
  | three hb _ hnext hbits hlong hsurrogate =>
    have hn : ((p.push c.toNat).push d.toNat).bits =
        ((b.toNat - 0xE0) * 0x40 + (c.toNat - 0x80)) * 0x40 + (d.toNat - 0x80) := by
      rw [Pending.push, Pending.push, hbits]
    -- what the second octet may be rules out a shorter form and the surrogates
    generalize ((p.push c.toNat).push d.toNat).bits = n at hn
    have hlow : ¬ n < 0x800 := by omega
    have hhigh : n < 0x10000 := by omega
    refine ⟨?_, CodePoint.isSurrogate_ofNat (by omega)⟩
    rw [encodeCodePoint, CodePoint.toNat_ofNat (by omega), if_neg (by omega), if_neg hlow,
      if_pos hhigh, ofNat_eq (b := b) (by omega), continuation_eq (b := c) (by omega) (by omega),
      continuation_eq (b := d) hd (by omega)]
  | one | two | four => omega

private theorem writes_four (hb : Begins b.toNat p) (howed : p.owed = 3)
    (hc : p.low ≤ c.toNat ∧ c.toNat ≤ p.high) (hd : 0x80 ≤ d.toNat ∧ d.toNat ≤ 0xBF)
    (he : 0x80 ≤ e.toNat ∧ e.toNat ≤ 0xBF) :
    Writes [b, c, d, e] (((p.push c.toNat).push d.toNat).push e.toNat).bits := by
  cases hb with
  | four hb _ hnext hbits hlong hlast =>
    have hn : (((p.push c.toNat).push d.toNat).push e.toNat).bits =
        (((b.toNat - 0xF0) * 0x40 + (c.toNat - 0x80)) * 0x40 + (d.toNat - 0x80)) * 0x40 +
          (e.toNat - 0x80) := by
      rw [Pending.push, Pending.push, Pending.push, hbits]
    -- what the second octet may be rules out a shorter form and numbers that are too large
    generalize (((p.push c.toNat).push d.toNat).push e.toNat).bits = n at hn
    have hlow : ¬ n < 0x10000 := by omega
    refine ⟨?_, CodePoint.isSurrogate_ofNat (by omega)⟩
    rw [encodeCodePoint, CodePoint.toNat_ofNat (by omega), if_neg (by omega), if_neg (by omega),
      if_neg hlow, ofNat_eq (b := b) (by omega), continuation_eq (b := c) (by omega) (by omega),
      continuation_eq (b := d) hd (by omega), continuation_eq (b := e) he (by omega)]
  | one | two | three => omega

end Complete

/-- The octets taken for a begun code point that owes nothing more write that code point. -/
theorem Begun.writes {p : Pending} {w : Octets} (h : Begun p w) (howed : p.owed = 0) :
    Writes w p.bits := by
  -- back from the last octet to the lead, which tells how many there are
  cases h with
  | @lead b _ hb =>
    cases hb with
    | one hb _ hbits =>
      refine ⟨?_, CodePoint.isSurrogate_ofNat (by omega)⟩
      rw [hbits, encodeCodePoint, CodePoint.toNat_ofNat (by omega), if_pos hb, UInt8.ofNat_toNat]
    | two | three | four => omega
  | more h hne hc =>
    simp only [Pending.push] at howed
    cases h with
    | lead hb => exact writes_two hb (by omega) hc
    | more h hne' hc' =>
      simp only [Pending.push] at howed hne
      cases h with
      | lead hb => exact writes_three hb (by omega) hc' hc
      | more h hne'' hc'' =>
        simp only [Pending.push] at howed hne hne'
        cases h with
        | lead hb => exact writes_four hb (by omega) hc'' hc' hc
        | more h =>
          have hle := h.owed_le
          simp only [Pending.push] at howed hne hne' hne''
          omega

/-! ## Section 3: The decoder -/

/-- What the decoder has made of the octets `w` so far: a malformed sequence is among the items, or
the octets are those of the code points found, which are no surrogates, and of the one begun. -/
inductive Took : State → Octets → Prop
  | malformed {s : State} {w : Octets} (m : Malformed) (hm : .malformed m ∈ s.found) : Took s w
  | between {found : List Item} (cs : Text) (hfound : found.reverse = cs.map .codePoint)
      (hcs : ∀ c ∈ cs, c.isSurrogate = false) : Took ⟨found, none⟩ (encode cs)
  | within {found : List Item} {p : Pending} {w : Octets} (cs : Text)
      (hfound : found.reverse = cs.map .codePoint) (hcs : ∀ c ∈ cs, c.isSurrogate = false)
      (h : Begun p w) (howed : p.owed ≠ 0) : Took ⟨found, some p⟩ (encode cs ++ w)

private theorem took_advance {found : List Item} {cs : Text}
    (hfound : found.reverse = cs.map .codePoint)
    (hcs : ∀ c ∈ cs, c.isSurrogate = false) {p : Pending} {w : Octets} (h : Begun p w) :
    Took (State.advance found p) (encode cs ++ w) := by
  unfold State.advance
  split
  · next howed =>
    obtain ⟨hencode, hscalar⟩ := h.writes howed
    -- no octet is owed any more: they are those of the code point
    have hall : encode (cs ++ [.ofNat p.bits]) = encode cs ++ w := by
      rw [encode, List.flatMap_append, List.flatMap_singleton, hencode]
      rfl
    rw [← hall]
    refine .between _ ?_ (List.forall_mem_append.mpr ⟨hcs, List.forall_mem_singleton.mpr hscalar⟩)
    rw [List.reverse_cons, hfound, List.map_append]
    rfl
  · next howed => exact .within cs hfound hcs h howed

private theorem State.mem_begin {found : List Item} {item : Item} (h : item ∈ found) (i b : Nat) :
    item ∈ (State.begin found i b).found := by
  unfold State.begin State.advance
  split
  · split
    · exact List.mem_cons_of_mem _ h
    · exact h
  · exact List.mem_cons_of_mem _ h

private theorem State.mem_step {s : State} {item : Item} (h : item ∈ s.found) (i b : Nat) :
    item ∈ (s.step i b).found := by
  -- a step only adds to what was found
  unfold State.step
  split
  · exact State.mem_begin h i b
  · split
    · unfold State.advance
      split
      · exact List.mem_cons_of_mem _ h
      · exact h
    · exact State.mem_begin (List.mem_cons_of_mem _ h) i b

/-- What the decoder has taken is written by the octets, one by one. -/
theorem Took.step {s : State} {w : Octets} (h : Took s w) (i : Nat) (b : UInt8) :
    Took (s.step i b.toNat) (w ++ [b]) := by
  -- after something malformed nothing changes that; else the octet begins a code point or goes on
  -- with one
  cases h with
  | malformed m hm => exact .malformed m (State.mem_step hm i b.toNat)
  | between cs hfound hcs =>
    show Took (State.begin _ i b.toNat) _
    unfold State.begin
    split
    · next p hp => exact took_advance hfound hcs (.lead (begins_of_lead? hp))
    · exact .malformed _ List.mem_cons_self
  | @within found p w cs hfound hcs h howed =>
    rw [List.append_assoc]
    unfold State.step
    simp only
    split
    · next hb =>
      rw [Bool.and_eq_true, decide_eq_true_eq, decide_eq_true_eq] at hb
      exact took_advance hfound hcs (h.more howed hb)
    · exact .malformed _ (State.mem_begin List.mem_cons_self i b.toNat)

/-- What the decoder has taken is written by the octets. -/
theorem Took.run {s : State} {w : Octets} (h : Took s w) (i : Nat) (octets : Octets) :
    Took (s.run i octets).1 (w ++ octets) := by
  -- octet by octet
  induction octets generalizing s w i with
  | nil => rwa [State.run, List.append_nil]
  | cons b rest ih =>
    rw [State.run, List.append_cons]
    exact ih (h.step i b) (i + 1)

/-! ## Section 4: Whole contents -/

private theorem firstMalformed?_ne_none {items : List Item} {m : Malformed}
    (h : .malformed m ∈ items) :
    firstMalformed? items ≠ none := by
  intro hnone
  have hm := List.findSome?_eq_none_iff.mp hnone _ h
  cases hm

private theorem eq_of_firstMalformed?_none {octets : Octets}
    (h : firstMalformed? (scan octets) = none) :
    ∃ cs : Text, scan octets = cs.map .codePoint ∧ encode cs = octets ∧
      ∀ c ∈ cs, c.isSurrogate = false := by
  have htook : Took (State.run ⟨[], none⟩ 0 octets).1 octets :=
    Took.run (.between [] rfl nofun) 0 octets
  unfold scan at h ⊢
  generalize State.run ⟨[], none⟩ 0 octets = r at htook h ⊢
  obtain ⟨s, i⟩ := r
  cases htook with
  | malformed m hm =>
    -- a malformed sequence stays among the items
    refine absurd h (firstMalformed?_ne_none (m := m) ?_)
    simp only
    split
    · exact List.mem_reverse.mpr hm
    · exact List.mem_reverse.mpr (List.mem_cons_of_mem _ hm)
  | between cs hfound hcs => exact ⟨cs, hfound, rfl, hcs⟩
  | within cs hfound hcs hbegun howed =>
    exact absurd h (firstMalformed?_ne_none (List.mem_reverse.mpr List.mem_cons_self))

/-- Octets without malformed sequences are read alike, whether those are replaced or refused. -/
theorem decodeLossy_of_decode {octets : Octets} {t : Text} (h : decode octets = .ok t) :
    decodeLossy octets = t := by
  unfold decode at h
  split at h
  · cases h
  · exact Except.ok.inj h

/-- Contents that are decoded are those of the text. -/
theorem written_of_decode {octets : Octets} {t : Text} (h : decode octets = .ok t) :
    encode t = octets ∧ ∀ c ∈ t, c.isSurrogate = false := by
  unfold decode at h
  split at h
  · cases h
  · next hnone =>
    cases h
    obtain ⟨cs, hscan, hcs⟩ := eq_of_firstMalformed?_none hnone
    rw [decodeLossy, hscan, List.map_map]
    simpa [Function.comp_def] using hcs

/-- Well-formed octets are the encoding of their text. -/
theorem encode_of_decode {octets : Octets} {t : Text} (h : decode octets = .ok t) :
    encode t = octets :=
  (written_of_decode h).1

/-! ## Section 5: Encoded texts -/

private theorem toNat_continuation (n : Nat) : (continuation n).toNat = 0x80 + n % 0x40 := by
  rw [continuation, UInt8.toNat_ofNat']
  omega

private theorem continuation_range (n : Nat) :
    0x80 ≤ (continuation n).toNat ∧ (continuation n).toNat ≤ 0xBF := by
  rw [toNat_continuation]
  omega

section Leads

variable {b c : Nat}

private theorem lead?_two (hb : 0xC2 ≤ b ∧ b < 0xE0) :
    lead? b = some ⟨1, 0x80, 0xBF, b - 0xC0, 1, b⟩ := by
  rw [lead?, if_neg (by omega), if_neg (by omega), if_pos hb.2]

/-- The octet behind the lead writes neither a shorter code point nor a surrogate. -/
theorem lead?_three (hb : 0xE0 ≤ b ∧ b < 0xF0) (hc : 0x80 ≤ c ∧ c ≤ 0xBF)
    (hlong : b = 0xE0 → 0xA0 ≤ c) (hsurrogate : b = 0xED → c ≤ 0x9F) :
    ∃ low high, lead? b = some ⟨2, low, high, b - 0xE0, 1, b⟩ ∧ low ≤ c ∧ c ≤ high := by
  rw [lead?, if_neg (by omega), if_neg (by omega), if_neg (by omega)]
  split
  · next h => exact ⟨_, _, by rw [h], hlong h, hc.2⟩
  split
  · next h => exact ⟨_, _, rfl, hc.1, hsurrogate h⟩
  · rw [if_pos hb.2]
    exact ⟨_, _, rfl, hc⟩

/-- The octet behind the lead writes neither a shorter code point nor one beyond the last. -/
theorem lead?_four (hb : 0xF0 ≤ b ∧ b < 0xF5) (hc : 0x80 ≤ c ∧ c ≤ 0xBF)
    (hlong : b = 0xF0 → 0x90 ≤ c) (hlast : b = 0xF4 → c ≤ 0x8F) :
    ∃ low high, lead? b = some ⟨3, low, high, b - 0xF0, 1, b⟩ ∧ low ≤ c ∧ c ≤ high := by
  rw [lead?, if_neg (by omega), if_neg (by omega), if_neg (by omega), if_neg (by omega),
    if_neg (by omega), if_neg (by omega)]
  split
  · next h => exact ⟨_, _, by rw [h], hlong h, hc.2⟩
  split
  · exact ⟨_, _, rfl, hc⟩
  · rw [if_pos (by omega)]
    exact ⟨_, _, rfl, hc.1, hlast (by omega)⟩

end Leads

section Runs

variable {found : List Item} {p : Pending} {b : UInt8}

private theorem State.advance_of_owing (h : p.owed ≠ 0) : State.advance found p = ⟨found, some p⟩ :=
  if_neg h

private theorem State.advance_of_done {c : CodePoint} (h : p.owed = 0) (hbits : p.bits = c.toNat) :
    State.advance found p = ⟨.codePoint c :: found, none⟩ := by
  rw [State.advance, if_pos h, hbits, CodePoint.ofNat_toNat]

private theorem State.run_lead (h : lead? b.toNat = some p) (i : Nat) (rest : Octets) :
    State.run ⟨found, none⟩ i (b :: rest) = State.run (State.advance found p) (i + 1) rest := by
  rw [State.run, State.step]
  simp only [State.begin, h]

private theorem State.run_next (howed : p.owed ≠ 0) (hlow : p.low ≤ b.toNat)
    (hhigh : b.toNat ≤ p.high)
    (i : Nat) (rest : Octets) : State.run (State.advance found p) i (b :: rest) =
      State.run (State.advance found (p.push b.toNat)) (i + 1) rest := by
  rw [State.advance_of_owing howed, State.run, State.step]
  simp only [hlow, hhigh, decide_true, Bool.and_self, if_true]

end Runs

/-- The octets of a code point that is no surrogate are read as that code point. -/
theorem State.run_encodeCodePoint {c : CodePoint} (hc : c.isSurrogate = false) (found : List Item)
    (i : Nat) (rest : Octets) :
    ∃ j, State.run ⟨found, none⟩ i (encodeCodePoint c ++ rest) =
      State.run ⟨.codePoint c :: found, none⟩ j rest := by
  have hrange := c.toNat_of_isSurrogate_eq_false hc
  have hlast := c.toNat_lt
  have hoctet {n : Nat} (h : n < 0x100) : (UInt8.ofNat n).toNat = n := by
    rw [UInt8.toNat_ofNat']
    omega
  -- by the number of octets: the lead owes the others, and each of them adds six bits
  unfold encodeCodePoint
  simp only
  split
  · next hone =>
    have hlead : lead? (UInt8.ofNat c.toNat).toNat = some ⟨0, 0x80, 0xBF, c.toNat, 1, c.toNat⟩ := by
      rw [hoctet (by omega), lead?, if_pos hone]
    refine ⟨i + 1, ?_⟩
    rw [List.cons_append, State.run_lead hlead, State.advance_of_done rfl rfl, List.nil_append]
  split
  · next htwo =>
    have hb := hoctet (n := 0xC0 + c.toNat / 0x40) (by omega)
    have hlead := lead?_two (b := (UInt8.ofNat (0xC0 + c.toNat / 0x40)).toNat) (by omega)
    have hnext := continuation_range c.toNat
    refine ⟨i + 2, ?_⟩
    rw [List.cons_append, List.cons_append, State.run_lead hlead,
      State.run_next (Nat.succ_ne_zero 0) hnext.1 hnext.2, State.advance_of_done rfl,
      List.nil_append]
    simp only [Pending.push, hb, toNat_continuation]
    omega
  split
  · next hthree =>
    have hb := hoctet (n := 0xE0 + c.toNat / 0x1000) (by omega)
    have hmiddle := toNat_continuation (c.toNat / 0x40)
    have hnext := continuation_range c.toNat
    obtain ⟨low, high, hlead, hlow, hhigh⟩ :=
      lead?_three (b := (UInt8.ofNat (0xE0 + c.toNat / 0x1000)).toNat) (by omega)
        (continuation_range (c.toNat / 0x40)) (by omega) (by omega)
    refine ⟨i + 3, ?_⟩
    rw [List.cons_append, List.cons_append, List.cons_append, State.run_lead hlead,
      State.run_next (Nat.succ_ne_zero 1) hlow hhigh,
      State.run_next (Nat.succ_ne_zero 0) hnext.1 hnext.2, State.advance_of_done rfl,
      List.nil_append]
    simp only [Pending.push, hb, toNat_continuation]
    omega
  · next hthree =>
    have hb := hoctet (n := 0xF0 + c.toNat / 0x40000) (by omega)
    have hsecond := toNat_continuation (c.toNat / 0x1000)
    have hthird := continuation_range (c.toNat / 0x40)
    have hfourth := continuation_range c.toNat
    obtain ⟨low, high, hlead, hlow, hhigh⟩ :=
      lead?_four (b := (UInt8.ofNat (0xF0 + c.toNat / 0x40000)).toNat) (by omega)
        (continuation_range (c.toNat / 0x1000)) (by omega) (by omega)
    refine ⟨i + 4, ?_⟩
    rw [List.cons_append, List.cons_append, List.cons_append, List.cons_append,
      State.run_lead hlead, State.run_next (Nat.succ_ne_zero 2) hlow hhigh,
      State.run_next (Nat.succ_ne_zero 1) hthird.1 hthird.2,
      State.run_next (Nat.succ_ne_zero 0) hfourth.1 hfourth.2, State.advance_of_done rfl,
      List.nil_append]
    simp only [Pending.push, hb, toNat_continuation]
    omega

private theorem State.run_encode {t : Text} (ht : ∀ c ∈ t, c.isSurrogate = false)
    (found : List Item)
    (i : Nat) : ∃ j, State.run ⟨found, none⟩ i (encode t) =
      (⟨(t.map .codePoint).reverse ++ found, none⟩, j) := by
  -- one code point after the other: between two of them nothing is owed
  induction t generalizing found i with
  | nil => exact ⟨i, rfl⟩
  | cons c t ih =>
    obtain ⟨hc, hrest⟩ := List.forall_mem_cons.mp ht
    obtain ⟨j, hj⟩ := State.run_encodeCodePoint hc found i (encode t)
    obtain ⟨k, hk⟩ := ih hrest (.codePoint c :: found) j
    refine ⟨k, ?_⟩
    rw [encode, List.flatMap_cons, ← encode, hj, hk, List.map_cons, List.reverse_cons,
      List.append_assoc]
    rfl

/-- The octets that are decoded as a text are its encoding, if it holds no surrogates. -/
theorem decode_eq_ok_iff {octets : Octets} {t : Text} :
    decode octets = .ok t ↔ encode t = octets ∧ ∀ c ∈ t, c.isSurrogate = false := by
  refine ⟨written_of_decode, ?_⟩
  rintro ⟨rfl, ht⟩
  -- back: the octets of the text are scanned as its code points, and none is malformed
  have hscan : scan (encode t) = t.map .codePoint := by
    obtain ⟨j, hj⟩ := State.run_encode ht [] 0
    rw [scan, hj, List.append_nil]
    exact List.reverse_reverse _
  have hnone : firstMalformed? (scan (encode t)) = none := by
    rw [firstMalformed?, hscan, List.findSome?_eq_none_iff]
    exact List.forall_mem_map.mpr fun c _ => rfl
  rw [decode, hnone]
  show Except.ok (decodeLossy (encode t)) = .ok t
  rw [decodeLossy, hscan, List.map_map]
  exact congrArg Except.ok (List.map_id t)

/-! ## Section 6: ASCII octets -/

/-- No octet of a code point beyond ASCII is one of ASCII. -/
theorem le_of_mem_encodeCodePoint {c : CodePoint} (hc : ¬ c.toNat < 0x80) {b : UInt8}
    (hb : b ∈ encodeCodePoint c) : 0x80 ≤ b.toNat := by
  have hlt := c.toNat_lt
  have hlead {n : Nat} (hn : 0x80 ≤ n ∧ n < 0x100) : 0x80 ≤ (UInt8.ofNat n).toNat := by
    rw [UInt8.toNat_ofNat']
    omega
  rw [encodeCodePoint, if_neg hc] at hb
  -- two, three or four octets; the first has a high bit in all three forms
  split at hb
  · simp only [List.mem_cons, List.not_mem_nil, or_false] at hb
    rcases hb with rfl | rfl
    · exact hlead (by omega)
    · exact (continuation_range _).1
  split at hb
  · simp only [List.mem_cons, List.not_mem_nil, or_false] at hb
    rcases hb with rfl | rfl | rfl
    · exact hlead (by omega)
    · exact (continuation_range _).1
    · exact (continuation_range _).1
  · simp only [List.mem_cons, List.not_mem_nil, or_false] at hb
    rcases hb with rfl | rfl | rfl | rfl
    · exact hlead (by omega)
    · exact (continuation_range _).1
    · exact (continuation_range _).1
    · exact (continuation_range _).1

private theorem count_encodeCodePoint {a : CodePoint} (ha : a.toNat < 0x80) (c : CodePoint) :
    (encodeCodePoint c).count (UInt8.ofNat a.toNat) = if c == a then 1 else 0 := by
  by_cases hc : c.toNat < 0x80
  · have hsame : (UInt8.ofNat c.toNat == UInt8.ofNat a.toNat) = (c == a) := by
      rw [Bool.eq_iff_iff, beq_iff_eq, beq_iff_eq, ← UInt8.toNat_inj, UInt8.toNat_ofNat',
        UInt8.toNat_ofNat']
      constructor
      · intro h
        exact CodePoint.toNat_injective (by omega)
      · rintro rfl
        rfl
    rw [encodeCodePoint, if_pos hc, List.count_singleton, hsame]
  · -- another code point, and no octet of it is one of ASCII
    have hne : c ≠ a := by
      rintro rfl
      exact hc ha
    rw [if_neg (by simpa using hne)]
    refine List.count_eq_zero_of_not_mem fun hmem => ?_
    have hle := le_of_mem_encodeCodePoint hc hmem
    rw [UInt8.toNat_ofNat'] at hle
    omega

/-- An ASCII octet stands in the encoding of a text as often as its code point in the text. -/
theorem count_encode {a : CodePoint} (ha : a.toNat < 0x80) (t : Text) :
    (encode t).count (UInt8.ofNat a.toNat) = t.count a := by
  induction t with
  | nil => rfl
  | cons c t ih =>
    have hsplit : encode (c :: t) = encodeCodePoint c ++ encode t := rfl
    rw [hsplit, List.count_append, count_encodeCodePoint ha, ih, List.count_cons, Nat.add_comm]

end Utf8

end FormSchema
