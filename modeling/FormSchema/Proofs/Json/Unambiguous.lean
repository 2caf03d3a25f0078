import FormSchema.Proofs.Json.Acceptance

/-!
# The grammar is unambiguous

A text has at most one tree.  Two derivations of the front of a text are compared phrase by phrase:
they take up the same part of the text, provided that what follows cannot carry the phrase on, and
give it the same tree.
-/

namespace FormSchema.Json

/-! ## Section 1: Tokens -/

/-- What can follow an element or a member: nothing, a comma or a closing bracket. -/
def Stops (s : Text) : Prop :=
  ∀ c ∈ s.head?, c = .scalar ',' ∨ c = .scalar ']' ∨ c = .scalar '\x7d'

/-- At the end of the text everything stops. -/
theorem stops_nil : Stops [] := nofun

private theorem stops_cons {c : CodePoint}
    (h : c = .scalar ',' ∨ c = .scalar ']' ∨ c = .scalar '\x7d')
    (s : Text) : Stops (c :: s) := by
  rintro _ ⟨⟩
  exact h

/-- What stops an element ends a number. -/
theorem Stops.endsNumeral {s : Text} (h : Stops s) : EndsNumeral s := by
  intro c hc
  rcases h c hc with rfl | rfl | rfl <;> decide

/-- What stops an element is no white space. -/
theorem Stops.skipSpace_eq {s : Text} (h : Stops s) : skipSpace s = s := by
  apply Text.dropWhile_eq_self
  intro c hc
  rcases h c hc with rfl | rfl | rfl <;> rfl

/-- A string has one spelling up to its closing quotation mark. -/
theorem Spells.unique {s t x y r q : Text} (h : Spells s t) (h' : Spells x y)
    (heq : s ++ .scalar '"' :: r = x ++ .scalar '"' :: q) : t = y ∧ r = q := by
  have hread := h.read [] [] r
  rw [heq, h'.read [] [] q] at hread
  cases hread
  exact ⟨rfl, rfl⟩

/-- A number has one reading up to where it ends. -/
theorem WritesNumeral.unique {n m : Numeral} {s t r q : Text} (h : WritesNumeral n s)
    (h' : WritesNumeral m t) (hr : EndsNumeral r) (hq : EndsNumeral q) (heq : s ++ r = t ++ q) :
    n = m ∧ r = q := by
  have htake := takeNumeral_append h hr
  rw [heq, takeNumeral_append h' hq] at htake
  cases htake
  exact ⟨rfl, rfl⟩

/-- A number begins with a digit or a minus sign and with nothing else. -/
theorem WritesNumeral.append_ne_cons {n : Numeral} {s : Text} (h : WritesNumeral n s)
    {c : CodePoint} (hdigit : c.isDigit = false) (hminus : c ≠ .scalar '-') (r q : Text) :
    s ++ r ≠ c :: q := by
  intro heq
  obtain ⟨d, tail, hd, rfl | rfl⟩ := h.eq_cons
  · rw [(List.cons.inj heq).1, hdigit] at hd
    cases hd
  · exact hminus (List.cons.inj heq).1.symm

/-! ## Section 2: Values by their first code point -/

section FirstCodePoint

variable {v : Json} {s r q : Text} (h : Derives (.value v) s)
include h

/-- A value that is written with a keyword is the value of the keyword: no two of them begin alike,
and no other value begins with a letter. -/
theorem Derives.of_keyword {k : Keyword} (hk : k.isStrict) (heq : k.text ++ q = s ++ r) :
    k.value = v ∧ q = r := by
  cases k with
  | nan | infinity | negativeInfinity => cases hk
  | null | true | false =>
    cases h with
    | null | boolTrue | boolFalse =>
      first
      | exact ⟨rfl, List.append_cancel_left heq⟩
      | cases heq
    | number hn => exact absurd heq.symm (hn.append_ne_cons rfl (by decide) r _)
    | _ => cases heq

/-- What begins with a quotation mark is a string. -/
theorem Derives.of_quote {t : Text} (heq : .scalar '"' :: t = s ++ r) :
    ∃ x u, v = .str u ∧ Spells x u ∧ t = x ++ .scalar '"' :: r := by
  cases h with
  | string hx =>
    refine ⟨_, _, rfl, hx, ?_⟩
    simpa [Text.inQuotes] using heq
  | number hn => exact absurd heq.symm (hn.append_ne_cons rfl (by decide) r _)
  | _ => cases heq

/-- Behind an opening bracket there is either the closing one or an array with items. -/
theorem Derives.of_bracket {t : Text} (heq : .scalar '[' :: t = s ++ r) :
    (v = .arr [] ∧ ∃ l, IsBlank l ∧ t = l ++ .scalar ']' :: r) ∨
      ∃ vs x, v = .arr vs ∧ Derives (.elements vs) x ∧ t = x ++ .scalar ']' :: r := by
  -- no other value begins with the bracket
  cases h with
  | emptyArray hw =>
    refine .inl ⟨rfl, _, hw, ?_⟩
    simpa using heq
  | array hs =>
    refine .inr ⟨_, _, rfl, hs, ?_⟩
    simpa using heq
  | number hn => exact absurd heq.symm (hn.append_ne_cons rfl (by decide) r _)
  | _ => cases heq

/-- Behind an opening brace there is either the closing one or an object with members. -/
theorem Derives.of_brace {t : Text} (heq : .scalar '\x7b' :: t = s ++ r) :
    (v = .obj [] ∧ ∃ l, IsBlank l ∧ t = l ++ .scalar '\x7d' :: r) ∨
      ∃ ms x, v = .obj ms ∧ Derives (.members ms) x ∧ t = x ++ .scalar '\x7d' :: r := by
  -- no other value begins with the brace
  cases h with
  | emptyObject hw =>
    refine .inl ⟨rfl, _, hw, ?_⟩
    simpa using heq
  | object hs =>
    refine .inr ⟨_, _, rfl, hs, ?_⟩
    simpa using heq
  | number hn => exact absurd heq.symm (hn.append_ne_cons rfl (by decide) r _)
  | _ => cases heq

private theorem Derives.of_numeral {n : Numeral} {t : Text} (hn : WritesNumeral n t)
    (heq : t ++ q = s ++ r) : ∃ m, v = m.meaning ∧ WritesNumeral m s := by
  -- whatever is no number begins with another code point than one
  cases h with
  | number hm => exact ⟨_, rfl, hm⟩
  | _ => exact absurd heq (hn.append_ne_cons rfl (by decide) q _)

end FirstCodePoint

/-! ## Section 3: Two derivations -/

/-- What it means for a phrase to have no other tree than its own, whatever follows it. -/
def Unique : Phrase → Text → Prop
  | .value v, s => ∀ ⦃w t r q⦄, Derives (.value w) t → EndsNumeral r → EndsNumeral q →
      s ++ r = t ++ q → v = w ∧ r = q
  | .element v, s => ∀ ⦃w t r q⦄, Derives (.element w) t → Stops r → Stops q →
      s ++ r = t ++ q → v = w ∧ r = q
  | .elements vs, s => ∀ ⦃ws t r q⦄, Derives (.elements ws) t →
      s ++ .scalar ']' :: r = t ++ .scalar ']' :: q → vs = ws ∧ r = q
  | .member m, s => ∀ ⦃n t r q⦄, Derives (.member n) t → Stops r → Stops q →
      s ++ r = t ++ q → m = n ∧ r = q
  | .members ms, s => ∀ ⦃ns t r q⦄, Derives (.members ns) t →
      s ++ .scalar '\x7d' :: r = t ++ .scalar '\x7d' :: q → ms = ns ∧ r = q

private theorem blank_unique {c : CodePoint} (hc : isSpace c = false) {l m r q : Text}
    (hl : IsBlank l)
    (hm : IsBlank m) (heq : l ++ c :: r = m ++ c :: q) : r = q := by
  have hskip := congrArg skipSpace heq
  rw [skipSpace_append hl, skipSpace_append hm, skipSpace_cons hc, skipSpace_cons hc] at hskip
  exact (List.cons.inj hskip).2

/-- A text that begins like a value: with neither white space nor a closing bracket. -/
def BeginsValue (s : Text) : Prop :=
  ∃ c tail, s = c :: tail ∧ isSpace c = false ∧ c ≠ .scalar ']'

/-- Values begin with neither white space nor a closing bracket. -/
theorem Derives.beginsValue {v : Json} {s : Text} (h : Derives (.value v) s) : BeginsValue s := by
  obtain ⟨c, tail, rfl, hc, hne, _⟩ := h.value_eq_cons
  exact ⟨c, tail, rfl, hc, hne⟩

/-- In front of a value there is nothing to skip. -/
theorem BeginsValue.skipSpace_eq {s : Text} (h : BeginsValue s) (rest : Text) :
    skipSpace (s ++ rest) = s ++ rest := by
  obtain ⟨c, tail, rfl, hc, _⟩ := h
  rw [List.cons_append, skipSpace_cons hc]

/-- A text that cannot be taken for white space in front of a closing bracket. -/
def NotBlankBefore (closing : CodePoint) (s : Text) : Prop :=
  ∀ ⦃l r q⦄, IsBlank l → l ++ closing :: r ≠ s ++ q

/-- A text is not taken for white space in front of a bracket if something else than the bracket
follows the white space at its beginning. -/
theorem notBlankBefore_of_skipSpace {closing : CodePoint} {s : Text}
    (hclosing : isSpace closing = false)
    (h : ∀ q, ∃ c tail, skipSpace (s ++ q) = c :: tail ∧ c ≠ closing) :
    NotBlankBefore closing s := by
  intro l r q hl heq
  obtain ⟨c, tail, hs, hc⟩ := h q
  rw [← heq, skipSpace_append hl, skipSpace_cons hclosing] at hs
  exact hc (List.cons.inj hs).1.symm

/-- White space in front of a text makes no difference, if the text begins with something else. -/
theorem notBlankBefore_gap {closing c : CodePoint} {l tail : Text}
    (hclosing : isSpace closing = false) (hc : isSpace c = false) (hne : c ≠ closing)
    (hl : IsBlank l) (rest : Text) : NotBlankBefore closing (l ++ (c :: tail ++ rest)) := by
  refine notBlankBefore_of_skipSpace hclosing fun q => ⟨c, tail ++ rest ++ q, ?_, hne⟩
  rw [List.append_assoc, skipSpace_append hl, List.cons_append, List.cons_append,
    skipSpace_cons hc]

private theorem Derives.elements_notBlank {vs : List Json} {s : Text}
    (h : Derives (.elements vs) s) :
    NotBlankBefore (.scalar ']') s :=
  notBlankBefore_of_skipSpace rfl h.elements_eq

private theorem Derives.members_notBlank {ms : List (Text × Json)} {s : Text}
    (h : Derives (.members ms) s) : NotBlankBefore (.scalar '\x7d') s := by
  refine notBlankBefore_of_skipSpace rfl fun q => ?_
  obtain ⟨tail, hs⟩ := h.members_eq q
  exact ⟨_, tail, hs, by decide⟩

/-! The first parts of two lists agree, and then so does what follows them, which is a comma or the
closing bracket. -/

section Lists

variable {α : Type} {P : α → Text → Prop} {closing : CodePoint} {v : α} {vs : List α} {s t : Text}

/-- What it means for a part of a list to be the only one of `P`, whatever stops it. -/
def UniquePart (P : α → Text → Prop) (v : α) (s : Text) : Prop :=
  ∀ ⦃w t r q⦄, P w t → Stops r → Stops q → s ++ r = t ++ q → v = w ∧ r = q

/-- What it means for a list to be the only one of parts of `P`, up to the closing bracket. -/
def UniqueParts (P : α → Text → Prop) (closing : CodePoint) (vs : List α) (s : Text) : Prop :=
  ∀ ⦃ws t r q⦄, Parted P ws t → s ++ closing :: r = t ++ closing :: q → vs = ws ∧ r = q

private theorem unique_elements_iff {vs : List Json} {s : Text} : Unique (.elements vs) s ↔
    UniqueParts (fun v t => Derives (.element v) t) (.scalar ']') vs s := by
  simp only [Unique, UniqueParts, derives_elements_iff]

private theorem unique_members_iff {ms : List (Text × Json)} {s : Text} : Unique (.members ms) s ↔
    UniqueParts (fun m t => Derives (.member m) t) (.scalar '\x7d') ms s := by
  simp only [Unique, UniqueParts, derives_members_iff]

variable (hv : UniquePart P v s) (hclosing : closing = .scalar ']' ∨ closing = .scalar '\x7d')
include hv hclosing

/-- The last part of a list ends at the closing bracket. -/
theorem UniquePart.last : UniqueParts P closing [v] s := by
  intro ws t r q h heq
  -- a comma cannot be where the last part is followed by the bracket
  cases h with
  | last h =>
    have hstops := stops_cons (.inr hclosing)
    obtain ⟨rfl, hrest⟩ := hv h (hstops r) (hstops q) heq
    exact ⟨rfl, (List.cons.inj hrest).2⟩
  | more h hs =>
    rw [List.append_assoc] at heq
    have hrest := (hv h (stops_cons (.inr hclosing) _) (stops_cons (.inl rfl) _) heq).2
    rcases hclosing with rfl | rfl <;> cases hrest

/-- A part in front of others ends at the comma. -/
theorem UniquePart.more (hvs : UniqueParts P closing vs t) :
    UniqueParts P closing (v :: vs) (s ++ .scalar ',' :: t) := by
  intro ws x r q h heq
  rw [List.append_assoc] at heq
  -- the bracket cannot be where the first part is followed by a comma
  cases h with
  | last h =>
    have hrest := (hv h (stops_cons (.inl rfl) _) (stops_cons (.inr hclosing) _) heq).2
    rcases hclosing with rfl | rfl <;> cases hrest
  | more h hs =>
    rw [List.append_assoc] at heq
    have hcomma (y : Text) : Stops (.scalar ',' :: y) := stops_cons (.inl rfl) y
    obtain ⟨rfl, hrest⟩ := hv h (hcomma _) (hcomma _) heq
    obtain ⟨rfl, hlast⟩ := hvs hs (List.cons.inj hrest).2
    exact ⟨rfl, hlast⟩

end Lists

section Phrases

variable {v : Json} {vs : List Json} {m : Text × Json} {ms : List (Text × Json)} {s t : Text}

/-- White space around a value leaves it its one tree. -/
theorem unique_element {l r : Text} (hl : IsBlank l) (hs : BeginsValue s) (hr : IsBlank r)
    (ih : Unique (.value v) s) : Unique (.element v) (l ++ (s ++ r)) := by
  intro w t rest q h' hrest hq heq
  cases h' with
  | @element l' s' r' w hl' h' hr' =>
    -- both values begin behind the white space in front
    have hvalue : s ++ (r ++ rest) = s' ++ (r' ++ q) := by
      have hskip := congrArg skipSpace heq
      simp only [List.append_assoc] at hskip
      rwa [skipSpace_append hl, skipSpace_append hl', hs.skipSpace_eq,
        h'.beginsValue.skipSpace_eq] at hskip
    obtain ⟨hv, hbehind⟩ := ih h' (endsNumeral_blank_append hr hrest.endsNumeral)
      (endsNumeral_blank_append hr' hq.endsNumeral) hvalue
    -- and end in front of the white space behind
    have hskip := congrArg skipSpace hbehind
    rw [skipSpace_append hr, skipSpace_append hr', hrest.skipSpace_eq, hq.skipSpace_eq] at hskip
    exact ⟨hv, hskip⟩

/-- Brackets around items leave them their one tree. -/
theorem unique_array (hs : NotBlankBefore (.scalar ']') s) (ih : Unique (.elements vs) s) :
    Unique (.value (.arr vs)) (.scalar '[' :: (s ++ [.scalar ']'])) := by
  intro w t r q h' _ _ heq
  rcases h'.of_bracket heq with ⟨rfl, l, hl, ht⟩ | ⟨us, x, rfl, hx, ht⟩
  · exact absurd (by simpa using ht.symm) (hs hl)
  · obtain ⟨rfl, hrest⟩ := ih hx (by simpa using ht)
    exact ⟨rfl, hrest⟩

/-- Braces around members leave them their one tree. -/
theorem unique_object (hs : NotBlankBefore (.scalar '\x7d') s) (ih : Unique (.members ms) s) :
    Unique (.value (.obj ms)) (.scalar '\x7b' :: (s ++ [.scalar '\x7d'])) := by
  intro w t r q h' _ _ heq
  rcases h'.of_brace heq with ⟨rfl, l, hl, ht⟩ | ⟨ns, x, rfl, hx, ht⟩
  · exact absurd (by simpa using ht.symm) (hs hl)
  · obtain ⟨rfl, hrest⟩ := ih hx (by simpa using ht)
    exact ⟨rfl, hrest⟩

/-- A name and a colon in front of a value leave it its one tree. -/
theorem unique_member {l r name : Text} (hl : IsBlank l) (hn : Spells s name) (hr : IsBlank r)
    (ih : Unique (.element v) t) :
    Unique (.member (name, v)) (l ++ (s.inQuotes ++ (r ++ .scalar ':' :: t))) := by
  intro n x rest q h' hrest hq heq
  cases h' with
  | @member l' s' r' t' name' w hl' hn' hr' h' =>
    -- the name is read up to its closing quotation mark, the rest goes on behind the colon
    have hquote : l ++ .scalar '"' :: (s ++ .scalar '"' :: (r ++ .scalar ':' :: (t ++ rest))) =
        l' ++ .scalar '"' :: (s' ++ .scalar '"' :: (r' ++ .scalar ':' :: (t' ++ q))) := by
      simpa [Text.inQuotes] using heq
    obtain ⟨rfl, hcolon⟩ := hn.unique hn' (blank_unique rfl hl hl' hquote)
    obtain ⟨rfl, hbehind⟩ := ih h' hrest hq (blank_unique rfl hr hr' hcolon)
    exact ⟨rfl, hbehind⟩

theorem unique_lastElement (ih : Unique (.element v) s) : Unique (.elements [v]) s :=
  unique_elements_iff.mpr (UniquePart.last ih (.inl rfl))

theorem unique_moreElements (ih : Unique (.element v) s) (ihs : Unique (.elements vs) t) :
    Unique (.elements (v :: vs)) (s ++ .scalar ',' :: t) :=
  unique_elements_iff.mpr (UniquePart.more ih (.inl rfl) (unique_elements_iff.mp ihs))

theorem unique_lastMember (ih : Unique (.member m) s) : Unique (.members [m]) s :=
  unique_members_iff.mpr (UniquePart.last ih (.inr rfl))

theorem unique_moreMembers (ih : Unique (.member m) s) (ihs : Unique (.members ms) t) :
    Unique (.members (m :: ms)) (s ++ .scalar ',' :: t) :=
  unique_members_iff.mpr (UniquePart.more ih (.inr rfl) (unique_members_iff.mp ihs))

end Phrases

/-- Whatever the grammar derives has one tree. -/
theorem unique_of_derives {p : Phrase} {s : Text} (h : Derives p s) : Unique p s := by
  -- on the first derivation; the second one and what follows both stay general
  induction h with
  | null =>
    intro w t r q h' _ _ heq
    exact h'.of_keyword (k := .null) rfl heq
  | boolTrue =>
    intro w t r q h' _ _ heq
    exact h'.of_keyword (k := .true) rfl heq
  | boolFalse =>
    intro w t r q h' _ _ heq
    exact h'.of_keyword (k := .false) rfl heq
  | number hn =>
    intro w t r q h' hr hq heq
    obtain ⟨m, rfl, hm⟩ := h'.of_numeral hn heq
    obtain ⟨rfl, hrest⟩ := hn.unique hm hr hq heq
    exact ⟨rfl, hrest⟩
  | string hs =>
    intro w t r q h' _ _ heq
    obtain ⟨x, u, rfl, hx, ht⟩ := h'.of_quote heq
    obtain ⟨rfl, hrest⟩ := hs.unique hx (by simpa using ht)
    exact ⟨rfl, hrest⟩
  | emptyArray hw =>
    intro w t r q h' _ _ heq
    rcases h'.of_bracket heq with ⟨rfl, l, hl, ht⟩ | ⟨vs, x, rfl, hx, ht⟩
    · exact ⟨rfl, blank_unique rfl hw hl (by simpa using ht)⟩
    · exact absurd (by simpa using ht) (hx.elements_notBlank hw)
  | array hs ih => exact unique_array hs.elements_notBlank ih
  | emptyObject hw =>
    intro w t r q h' _ _ heq
    rcases h'.of_brace heq with ⟨rfl, l, hl, ht⟩ | ⟨ms, x, rfl, hx, ht⟩
    · exact ⟨rfl, blank_unique rfl hw hl (by simpa using ht)⟩
    · exact absurd (by simpa using ht) (hx.members_notBlank hw)
  | object hs ih => exact unique_object hs.members_notBlank ih
  | element hl h hr ih => exact unique_element hl h.beginsValue hr ih
  | lastElement h ih => exact unique_lastElement ih
  | moreElements h hs ih ihs => exact unique_moreElements ih ihs
  | member hl hn hr h ih => exact unique_member hl hn hr ih
  | lastMember h ih => exact unique_lastMember ih
  | moreMembers h hs ih ihs => exact unique_moreMembers ih ihs

/-- No text has two trees. -/
theorem Derives.element_unique {v w : Json} {s : Text} (h : Derives (.element v) s)
    (h' : Derives (.element w) s) : v = w :=
  (unique_of_derives h h' stops_nil stops_nil rfl).1

end FormSchema.Json
