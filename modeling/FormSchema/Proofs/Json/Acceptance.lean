import FormSchema.Proofs.Json.Loops
import FormSchema.Proofs.Json.Numbers
import FormSchema.Proofs.Json.Strings

/-!
# What the grammar derives is read

By induction on a derivation, the reader reads every phrase of the grammar as the value of its tree,
in front of whatever may follow it.
-/

namespace FormSchema.Json

variable {dialect : Dialect} {room : Nat}

/-! ## Section 1: White space -/

/-- White space in front is skipped. -/
theorem skipSpace_append {l : Text} (hl : IsBlank l) (s : Text) :
    skipSpace (l ++ s) = skipSpace s := by
  rw [skipSpace, List.dropWhile_append_of_pos hl, skipSpace]

/-- Nothing is skipped in front of a token. -/
theorem skipSpace_cons {c : CodePoint} (hc : isSpace c = false) (s : Text) :
    skipSpace (c :: s) = c :: s := by
  rw [skipSpace, List.dropWhile_cons_of_neg (by rw [hc]; exact Bool.false_ne_true)]

/-- A number ends at white space too. -/
theorem endsNumeral_blank_append {r rest : Text} (hr : IsBlank r) (h : EndsNumeral rest) :
    EndsNumeral (r ++ rest) := by
  cases r with
  | nil => exact h
  | cons c r =>
    rintro _ ⟨⟩
    have hc := hr c List.mem_cons_self
    simp only [isSpace, Bool.or_eq_true, decide_eq_true_iff] at hc
    rcases hc with ((rfl | rfl) | rfl) | rfl <;> decide

/-- A number ends where neither a digit nor a fraction nor an exponent can follow. -/
theorem endsNumeral_cons {c : CodePoint} (rest : Text) (hd : c.isDigit = false)
    (hc : c ≠ .scalar '.' ∧ c ≠ .scalar 'e' ∧ c ≠ .scalar 'E') : EndsNumeral (c :: rest) := by
  rintro _ ⟨⟩
  exact ⟨hd, hc⟩

/-! ## Section 2: The reader by the first code point -/

/-- The reader of the values inside a value that may be nested `room` deep. -/
def inner (dialect : Dialect) : Nat → Option Reader
  | 0 => none
  | room + 1 => some (reader dialect room)

private theorem reader_read (dialect : Dialect) (room : Nat) (s : Text) :
    (reader dialect room).read s = readWith dialect (inner dialect room) s := by
  -- both readers are the same function of what reads inside brackets
  cases room <;> rfl

/-- A quotation mark begins a string. -/
theorem read_string (r : Text) :
    (reader dialect room).read (.scalar '"' :: r) =
      mapReading .str (readString (.scalar '"' :: r) [] r) := by
  rw [reader_read, readWith, if_pos rfl]
  cases hstring : readString (.scalar '"' :: r) [] r <;> rfl

private theorem read_bracket (r : Text) :
    (reader dialect (room + 1)).read (.scalar '[' :: r) = readArray (reader dialect room) r := rfl

private theorem read_brace (r : Text) :
    (reader dialect (room + 1)).read (.scalar '\x7b' :: r) =
      readObject (reader dialect room) r := rfl

private theorem read_other {c : CodePoint} {r : Text} (hq : c ≠ .scalar '"') (hb : c ≠ .scalar '[')
    (hc : c ≠ .scalar '\x7b') :
    (reader dialect room).read (c :: r) = readScalar dialect (c :: r) := by
  rw [reader_read, readWith, if_neg hq, if_neg hc, if_neg hb]

/-- `ReadsBy dialect room s outcome`: by its first code point, a text with a value that may be
nested `room` deep is read with this outcome. -/
inductive ReadsBy (dialect : Dialect) : Nat → Text → Reading Json → Prop
  | nothing {room : Nat} : ReadsBy dialect room [] (.error (.atPlace .expectingValue []))
  | string {room : Nat} (r : Text) : ReadsBy dialect room (.scalar '"' :: r)
      (mapReading .str (readString (.scalar '"' :: r) [] r))
  | tooDeep {c : CodePoint} {r : Text} (hc : c = .scalar '[' ∨ c = .scalar '\x7b') :
      ReadsBy dialect 0 (c :: r) (.error .tooDeep)
  | array {room : Nat} (r : Text) : ReadsBy dialect (room + 1) (.scalar '[' :: r)
      (readArray (reader dialect room) r)
  | object {room : Nat} (r : Text) : ReadsBy dialect (room + 1) (.scalar '\x7b' :: r)
      (readObject (reader dialect room) r)
  | scalar {room : Nat} {c : CodePoint} {r : Text} (hquote : c ≠ .scalar '"')
      (hbracket : c ≠ .scalar '[') (hbrace : c ≠ .scalar '\x7b') :
      ReadsBy dialect room (c :: r) (readScalar dialect (c :: r))

/-- The first code point decides in which way a value is read. -/
theorem reader_readsBy (dialect : Dialect) (room : Nat) (s : Text) :
    ReadsBy dialect room s ((reader dialect room).read s) := by
  cases s with
  | nil =>
    rw [reader_read]
    exact .nothing
  | cons c r =>
    -- the first code point decides, and only brackets and braces need another level
    by_cases hquote : c = .scalar '"'
    · rw [hquote, read_string]
      exact .string r
    by_cases hbracket : c = .scalar '['
    · subst hbracket
      cases room with
      | zero => exact .tooDeep (.inl rfl)
      | succ room => exact .array r
    by_cases hbrace : c = .scalar '\x7b'
    · subst hbrace
      cases room with
      | zero => exact .tooDeep (.inr rfl)
      | succ room => exact .object r
    · rw [read_other hquote hbracket hbrace]
      exact .scalar hquote hbracket hbrace

/-- Induction on the room of a reader: that of what is inside brackets, if there is any, has one
level less. -/
theorem roomInduction {motive : Nat → Prop}
    (read : ∀ room, (∀ n, room = n + 1 → motive n) → motive room) (room : Nat) : motive room := by
  induction room with
  | zero => exact read 0 nofun
  | succ n ih =>
    apply read
    rintro m ⟨⟩
    exact ih

/-! ## Section 3: Scalars -/

/-- A keyword of the grammar is read as its value, whatever follows it. -/
theorem read_keyword {k : Keyword} (hk : k.isStrict) (rest : Text) :
    (reader dialect room).read (k.text ++ rest) = .ok (k.value, rest) := by
  cases k with
  | null | true | false => cases dialect <;> cases room <;> rfl
  | nan | infinity | negativeInfinity => cases hk

/-- What is no digit differs from any digit. -/
theorem ne_of_isDigit {c d : CodePoint} (hd : d.isDigit) (hc : c.isDigit = false) : c ≠ d := by
  rintro rfl
  rw [hc] at hd
  cases hd

private theorem afterStart_of_ne {c d : CodePoint} (h : c ≠ d) (start s : Text) :
    Text.afterStart? (c :: start) (d :: s) = none := by
  rw [Text.afterStart?, if_neg h]

private theorem keyword?_eq_none {s : Text} (h : ∀ k : Keyword, Text.afterStart? k.text s = none) :
    keyword? s = none := by
  rw [keyword?, List.findSome?_eq_none_iff]
  intro k _
  rw [h k]
  rfl

/-- A digit at the front keeps every keyword away. -/
theorem keyword?_digit {d : CodePoint} (hd : d.isDigit) (s : Text) : keyword? (d :: s) = none := by
  apply keyword?_eq_none
  intro k
  cases k <;> exact afterStart_of_ne (ne_of_isDigit hd (by decide)) _ s

private theorem keyword?_minus {d : CodePoint} (hd : d.isDigit) (s : Text) :
    keyword? (.scalar '-' :: d :: s) = none := by
  apply keyword?_eq_none
  intro k
  -- only one keyword begins with a minus sign, and no digit comes behind that
  cases k with
  | negativeInfinity => exact afterStart_of_ne (ne_of_isDigit hd (by decide)) _ s
  | _ => exact afterStart_of_ne (by decide) _ _

/-- A written numeral begins with a minus sign and a digit, or with a digit. -/
theorem WritesNumeral.eq_cons {n : Numeral} {s : Text} (h : WritesNumeral n s) :
    ∃ d tail, d.isDigit = true ∧ (s = d :: tail ∨ s = .scalar '-' :: d :: tail) := by
  cases h with
  | mk negative hw hf hp =>
    obtain ⟨d, tail, rfl, hd⟩ := hw.isDigits.eq_cons
    cases negative with
    | false => exact ⟨d, _, hd, .inl rfl⟩
    | true => exact ⟨d, _, hd, .inr rfl⟩

/-- A number is read as such, whatever follows it. -/
theorem WritesNumeral.read_eq_readNumber {n : Numeral} {s : Text} (h : WritesNumeral n s)
    (rest : Text) : (reader dialect room).read (s ++ rest) = readNumber (s ++ rest) := by
  -- neither a digit nor a minus sign opens anything but a number
  obtain ⟨d, tail, hd, rfl | rfl⟩ := h.eq_cons
  · have hne {c : CodePoint} (hc : c.isDigit = false) : d ≠ c := (ne_of_isDigit hd hc).symm
    rw [List.cons_append, read_other (hne rfl) (hne rfl) (hne rfl), readScalar, keyword?_digit hd]
  · rw [List.cons_append, List.cons_append, read_other (by decide) (by decide) (by decide),
      readScalar, keyword?_minus hd]

/-- A number that is not too long is read as what it means, if it ends where the text does not carry
it on. -/
theorem WritesNumeral.read {n : Numeral} {s rest : Text} (h : WritesNumeral n s)
    (hn : n.meaning.FitsDigits) (hr : EndsNumeral rest) :
    (reader dialect room).read (s ++ rest) = .ok (n.meaning, rest) := by
  rw [h.read_eq_readNumber, readNumber, takeNumeral_append h hr]
  have hvalue : n.value = .ok n.meaning := h.value_eq_ok_iff.mpr ⟨rfl, hn⟩
  simp only [hvalue]

/-- A number has no names to merge. -/
theorem Numeral.merge_meaning (n : Numeral) : n.meaning.merge = n.meaning := by
  obtain ⟨negative, whole, fraction, power⟩ := n
  cases fraction with
  | some ds => rfl
  | none =>
    cases power with
    | some e => rfl
    | none => rfl

/-! ## Section 4: Phrases -/

private theorem isSpace_eq_false_of_isDigit {d : CodePoint} (hd : d.isDigit) :
    isSpace d = false := by
  have hne {c : CodePoint} (hc : c.isDigit = false) : d ≠ c := (ne_of_isDigit hd hc).symm
  simp only [isSpace, Bool.or_eq_false_iff, decide_eq_false_iff_not]
  exact ⟨⟨⟨hne rfl, hne rfl⟩, hne rfl⟩, hne rfl⟩

/-- The text of a value begins with neither white space nor a closing bracket nor a mark. -/
theorem Derives.value_eq_cons {v : Json} {s : Text} (h : Derives (.value v) s) :
    ∃ c tail, s = c :: tail ∧ isSpace c = false ∧ c ≠ .scalar ']' ∧ c ≠ byteOrderMark := by
  -- one case for each way in which a value can begin
  cases h with
  | null | boolTrue | boolFalse => exact ⟨_, _, rfl, rfl, by decide, by decide⟩
  | number hn =>
    obtain ⟨d, tail, hd, rfl | rfl⟩ := hn.eq_cons
    · exact ⟨d, tail, rfl, isSpace_eq_false_of_isDigit hd, (ne_of_isDigit hd rfl).symm,
        (ne_of_isDigit hd (by decide)).symm⟩
    · exact ⟨_, _, rfl, rfl, by decide, by decide⟩
  | string _ => exact ⟨_, _, rfl, rfl, by decide, by decide⟩
  | emptyArray _ => exact ⟨_, _, rfl, rfl, by decide, by decide⟩
  | array _ => exact ⟨_, _, rfl, rfl, by decide, by decide⟩
  | emptyObject _ => exact ⟨_, _, rfl, rfl, by decide, by decide⟩
  | object _ => exact ⟨_, _, rfl, rfl, by decide, by decide⟩

/-- What it means for the text of a phrase to be read as the value of its tree. -/
def ReadAs (dialect : Dialect) : Phrase → Text → Prop
  | .value v, s => ∀ room rest, v.Fits room → EndsNumeral rest →
      (reader dialect room).read (s ++ rest) = .ok (v.merge, rest)
  | .element v, s => ∀ room rest, v.Fits room → EndsNumeral rest →
      ∃ after, skipSpace after = skipSpace rest ∧
        (reader dialect room).read (skipSpace (s ++ rest)) = .ok (v.merge, after)
  | .elements vs, s => ∀ room acc rest, (∀ v ∈ vs, v.Fits room) →
      readItems (reader dialect room) acc (skipSpace (s ++ .scalar ']' :: rest)) =
        .ok (acc.reverse ++ vs.map merge, rest)
  | .member m, s => ∀ room rest, m.2.Fits room → EndsNumeral rest →
      ∃ after, skipSpace after = skipSpace rest ∧
        readMember (reader dialect room) (skipSpace (s ++ rest)) = .ok ((m.1, m.2.merge), after)
  | .members ms, s => ∀ room acc rest, (∀ m ∈ ms, m.2.Fits room) →
      readMembers (reader dialect room) acc (skipSpace (s ++ .scalar '\x7d' :: rest)) =
        .ok (acc.reverse ++ ms.map fun m => (m.1, m.2.merge), rest)

private theorem Derives.element_eq {v : Json} {s : Text} (h : Derives (.element v) s)
    (rest : Text) :
    ∃ c tail, skipSpace (s ++ rest) = c :: tail ∧ c ≠ .scalar ']' := by
  cases h with
  | element hl hv hr =>
    obtain ⟨c, tail, rfl, hc, hbracket, _⟩ := hv.value_eq_cons
    rw [List.append_assoc, skipSpace_append hl]
    exact ⟨c, _, skipSpace_cons hc _, hbracket⟩

/-- The items of an array do not begin with its closing bracket. -/
theorem Derives.elements_eq {vs : List Json} {s : Text} (h : Derives (.elements vs) s)
    (rest : Text) : ∃ c tail, skipSpace (s ++ rest) = c :: tail ∧ c ≠ .scalar ']' := by
  obtain ⟨v, x, y, hv, rfl⟩ := (derives_elements_iff.mp h).eq_append
  rw [List.append_assoc]
  exact hv.element_eq (y ++ rest)

private theorem Derives.member_eq {m : Text × Json} {s : Text} (h : Derives (.member m) s)
    (rest : Text) :
    ∃ tail, skipSpace (s ++ rest) = .scalar '"' :: tail := by
  cases h with
  | member hl hn hr h =>
    rw [List.append_assoc, skipSpace_append hl]
    exact ⟨_, skipSpace_cons rfl _⟩

/-- The members of an object begin with a quotation mark. -/
theorem Derives.members_eq {ms : List (Text × Json)} {s : Text} (h : Derives (.members ms) s)
    (rest : Text) : ∃ tail, skipSpace (s ++ rest) = .scalar '"' :: tail := by
  obtain ⟨m, x, y, hm, rfl⟩ := (derives_members_iff.mp h).eq_append
  rw [List.append_assoc]
  exact hm.member_eq (y ++ rest)

private theorem readMember_of_value {value : Reader} {s t name rest after tail : Text} {v : Json}
    (hn : Spells s name) (hrest : skipSpace rest = .scalar ':' :: t)
    (h : value.read (skipSpace t) = .ok (v, after)) (htail : tail = s ++ .scalar '"' :: rest) :
    readMember value (.scalar '"' :: tail) = .ok ((name, v), after) := by
  subst htail
  rw [readMember, if_pos rfl, hn.read]
  simp only [List.reverse_nil, List.nil_append, readMemberValue, hrest, if_true, h]

/-! ## Section 5: Every derivation is read -/

private theorem endsNumeral_bracket (rest : Text) : EndsNumeral (.scalar ']' :: rest) :=
  endsNumeral_cons rest rfl (by decide)

/-- A closing brace ends a number. -/
theorem endsNumeral_brace (rest : Text) : EndsNumeral (.scalar '\x7d' :: rest) :=
  endsNumeral_cons rest rfl (by decide)

/-- A comma ends a number. -/
theorem endsNumeral_comma (rest : Text) : EndsNumeral (.scalar ',' :: rest) :=
  endsNumeral_cons rest rfl (by decide)

/-- Whatever the grammar derives is read as the value of its tree. -/
theorem readAs_of_derives (dialect : Dialect) {p : Phrase} {s : Text} (h : Derives p s) :
    ReadAs dialect p s := by
  -- on the derivation; the rest of the text and the room stay general, as both change inside
  -- brackets
  induction h with
  | null => exact fun room rest _ _ => read_keyword (k := .null) rfl rest
  | boolTrue => exact fun room rest _ _ => read_keyword (k := .true) rfl rest
  | boolFalse => exact fun room rest _ _ => read_keyword (k := .false) rfl rest
  | @number n s h =>
    intro room rest hfits hrest
    rw [n.merge_meaning]
    exact h.read hfits.2.self hrest
  | @string s t h =>
    intro room rest _ _
    have hcons : s.inQuotes ++ rest = .scalar '"' :: (s ++ .scalar '"' :: rest) := by
      simp [Text.inQuotes]
    rw [hcons, read_string, h.read]
    rfl
  | @emptyArray w hw =>
    intro room rest hfits _
    obtain ⟨room, rfl⟩ := hfits.pos_of_arr
    rw [List.cons_append, List.append_assoc, read_bracket]
    refine (readArray_encloses _).of_closing ?_
    rw [skipSpace_append hw]
    exact skipSpace_cons rfl rest
  -- a bracket needs room for one more level, which the limits of the tree grant
  | @array vs s h ih =>
    intro room rest hfits _
    obtain ⟨room, rfl⟩ := hfits.pos_of_arr
    rw [List.cons_append, List.append_assoc, read_bracket, merge_arr]
    obtain ⟨c, tail, hs, hc⟩ := h.elements_eq (.scalar ']' :: rest)
    exact (readArray_encloses _).of_parts hs hc (ih room [] rest (fits_arr.mp hfits))
  | @emptyObject w hw =>
    intro room rest hfits _
    obtain ⟨room, rfl⟩ := hfits.pos_of_obj
    rw [List.cons_append, List.append_assoc, read_brace]
    refine (readObject_encloses _).of_closing ?_
    rw [skipSpace_append hw]
    exact skipSpace_cons rfl rest
  | @object ms s h ih =>
    intro room rest hfits _
    obtain ⟨room, rfl⟩ := hfits.pos_of_obj
    rw [List.cons_append, List.append_assoc, read_brace, merge_obj]
    obtain ⟨tail, hs⟩ := h.members_eq (.scalar '\x7d' :: rest)
    exact (readObject_encloses _).of_parts hs (by decide) (ih room [] rest (fits_obj.mp hfits))
  -- the reader stops in front of the white space behind a value
  | @element l s r v hl h hr ih =>
    intro room rest hfits hrest
    obtain ⟨c, tail, rfl, hc, _, _⟩ := h.value_eq_cons
    refine ⟨r ++ rest, skipSpace_append hr rest, ?_⟩
    rw [List.append_assoc, skipSpace_append hl, List.append_assoc, List.cons_append,
      skipSpace_cons hc, ← List.cons_append]
    exact ih room _ hfits (endsNumeral_blank_append hr hrest)
  -- the loops: one round, and then the bracket or, behind a comma, the rest of the loop
  | @lastElement v s h ih =>
    intro room acc rest hfits
    obtain ⟨after, hafter, hread⟩ := ih room (.scalar ']' :: rest) (hfits v List.mem_cons_self)
      (endsNumeral_bracket rest)
    rw [skipSpace_cons rfl] at hafter
    exact (readItems_loops _).read_last hread hafter
  | @moreElements v vs s t h hs ih ihs =>
    intro room acc rest hfits
    rw [List.forall_mem_cons] at hfits
    obtain ⟨after, hafter, hread⟩ := ih room (.scalar ',' :: (t ++ .scalar ']' :: rest)) hfits.1
      (endsNumeral_comma _)
    rw [skipSpace_cons rfl] at hafter
    rw [List.append_assoc, List.cons_append]
    exact (readItems_loops _).read_more hread hafter (by decide) (ihs room _ rest hfits.2)
  | @member l s r t name v hl hn hr h ih =>
    intro room rest hfits hrest
    obtain ⟨after, hafter, hread⟩ := ih room rest hfits hrest
    refine ⟨after, hafter, ?_⟩
    -- the name is read up to its quotation mark, and the white space around the colon is skipped
    have hcolon : skipSpace (r ++ .scalar ':' :: (t ++ rest)) = .scalar ':' :: (t ++ rest) := by
      rw [skipSpace_append hr, skipSpace_cons rfl]
    have htext : skipSpace (l ++ (s.inQuotes ++ (r ++ .scalar ':' :: t)) ++ rest) =
        .scalar '"' :: (s ++ .scalar '"' :: (r ++ .scalar ':' :: (t ++ rest))) := by
      rw [List.append_assoc, skipSpace_append hl, Text.inQuotes, List.cons_append, List.cons_append,
        List.cons_append, skipSpace_cons rfl]
      simp
    rw [htext]
    exact readMember_of_value hn hcolon hread rfl
  | @lastMember m s h ih =>
    intro room acc rest hfits
    obtain ⟨after, hafter, hread⟩ := ih room (.scalar '\x7d' :: rest) (hfits m List.mem_cons_self)
      (endsNumeral_brace rest)
    rw [skipSpace_cons rfl] at hafter
    exact (readMembers_loops _).read_last hread hafter
  | @moreMembers m ms s t h hs ih ihs =>
    intro room acc rest hfits
    rw [List.forall_mem_cons] at hfits
    obtain ⟨after, hafter, hread⟩ := ih room (.scalar ',' :: (t ++ .scalar '\x7d' :: rest)) hfits.1
      (endsNumeral_comma _)
    rw [skipSpace_cons rfl] at hafter
    rw [List.append_assoc, List.cons_append]
    exact (readMembers_loops _).read_more hread hafter (by decide) (ihs room _ rest hfits.2)

private theorem Derives.head_ne_mark {v : Json} {s : Text} (h : Derives (.element v) s) :
    s.head? ≠ some byteOrderMark := by
  cases h with
  | @element l s r v hl hv hr =>
    -- white space or the value comes first, and neither begins with the mark
    cases l with
    | nil =>
      obtain ⟨c, tail, rfl, _, _, hmark⟩ := hv.value_eq_cons
      intro heq
      exact hmark (Option.some.inj heq)
    | cons c l =>
      intro heq
      have hc := hl c List.mem_cons_self
      rw [Option.some.inj heq] at hc
      exact absurd hc (by decide)

/-- A text that the grammar derives is parsed as the value of its tree, if that is readable. -/
theorem parseDialect_of_derives (dialect : Dialect) {v : Json} {s : Text}
    (h : Derives (.element v) s) (hv : v.Readable) : parseDialect dialect s = .ok v.merge := by
  obtain ⟨after, hafter, hread⟩ := readAs_of_derives dialect h maxDepth [] hv nofun
  rw [List.append_nil] at hread
  rw [parseDialect, if_neg h.head_ne_mark, hread]
  simp only [hafter]
  rfl

end FormSchema.Json
