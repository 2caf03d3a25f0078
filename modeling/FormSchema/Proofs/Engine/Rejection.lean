import FormSchema.Proofs.Engine.Session
import FormSchema.Proofs.Json.Printing
import FormSchema.Proofs.Json.Settled

/-!
# Where a text is rejected

The message of a fault at a place ends with the line, the column and the offset of that place, and
these can be read off the message again.  They are those of the code point where the fault stands,
and what is said of a place in the middle of a text depends only on the text up to there.
-/

namespace FormSchema

/-! ## Section 1: Places -/

/-- Whether the last line feed in front of an offset is the code point at `i`. -/
def Text.IsLastLineFeed (t : Text) (offset i : Nat) : Prop :=
  i < offset ∧ t[i]? = some .lineFeed ∧ ∀ j < offset, i < j → t[j]? ≠ some .lineFeed

instance (t : Text) (offset i : Nat) : Decidable (t.IsLastLineFeed offset i) :=
  inferInstanceAs (Decidable
    (i < offset ∧ t[i]? = some .lineFeed ∧ ∀ j < offset, i < j → t[j]? ≠ some .lineFeed))

namespace Json

private theorem Place.ofRest_append (x rest : Text) :
    Place.ofRest (x ++ rest) rest = Place.after x := by
  rw [Place.ofRest, List.length_append, Nat.add_sub_cancel, List.take_left]

private theorem takeWhile_reverse_append {y : Text} (h : .lineFeed ∉ y) (rest : Text) :
    (y.reverse ++ rest).takeWhile (· ≠ CodePoint.lineFeed) =
      y.reverse ++ rest.takeWhile (· ≠ CodePoint.lineFeed) := by
  apply List.takeWhile_append_of_pos
  intro c hc
  rw [decide_eq_true_iff]
  rintro rfl
  exact h (List.mem_reverse.mp hc)

private theorem Place.column_after_of_not_mem {x : Text} (h : .lineFeed ∉ x) :
    (Place.after x).column = x.length + 1 := by
  have hwhole := takeWhile_reverse_append h []
  rw [List.append_nil, List.takeWhile_nil, List.append_nil] at hwhole
  simp only [Place.after, hwhole, List.length_reverse]

private theorem Place.column_after_lineFeed (x : Text) {y : Text} (h : .lineFeed ∉ y) :
    (Place.after (x ++ .lineFeed :: y)).column = y.length + 1 := by
  have hlast := takeWhile_reverse_append h (.lineFeed :: x.reverse)
  rw [List.takeWhile_cons_of_neg (by decide), List.append_nil] at hlast
  simp only [Place.after, List.reverse_append, List.reverse_cons, List.append_assoc,
    List.singleton_append, hlast, List.length_reverse]

/-- The column counts from the last line feed. -/
theorem Place.column_of_isLastLineFeed {x rest : Text} {i : Nat}
    (h : (x ++ rest).IsLastLineFeed x.length i) : (Place.after x).column = x.length - i := by
  obtain ⟨hi, hfeed, hlast⟩ := h
  rw [List.getElem?_append_left hi] at hfeed
  -- the text in front of the place, cut at the line feed
  have hcut : x = x.take i ++ .lineFeed :: x.drop (i + 1) := by
    obtain ⟨hlt, hget⟩ := List.getElem?_eq_some_iff.mp hfeed
    rw [← hget, ← List.drop_eq_getElem_cons hlt, List.take_append_drop]
  have hbehind : .lineFeed ∉ x.drop (i + 1) := by
    intro hmem
    obtain ⟨k, hk⟩ := List.mem_iff_getElem?.mp hmem
    rw [List.getElem?_drop] at hk
    have hlt : i + 1 + k < x.length := (List.getElem?_eq_some_iff.mp hk).1
    exact hlast (i + 1 + k) hlt (by omega) (by rw [List.getElem?_append_left hlt, hk])
  have hcolumn := Place.column_after_lineFeed (x.take i) hbehind
  rw [← hcut] at hcolumn
  rw [hcolumn, List.length_drop]
  omega

end Json

/-! ## Section 2: Messages -/

namespace Json

private theorem ofNat_injective {m n : Nat} (h : Text.ofNat m = Text.ofNat n) : m = n := by
  rw [← digitsValue_ofNat m, h, digitsValue_ofNat]

/-- Digits at the end of a text, behind something else, are found again. -/
theorem append_digits_inj {a b ds es : Text} {c : CodePoint} (hc : c.isDigit = false)
    (hds : ∀ d ∈ ds, d.isDigit) (hes : ∀ d ∈ es, d.isDigit)
    (h : a ++ c :: ds = b ++ c :: es) : a = b ∧ ds = es := by
  have hfirst (t : Text) : NoDigitFirst (c :: t) := by
    rintro _ ⟨⟩
    exact hc
  -- read backwards, the digits come first and end where they end
  have hrev : ds.reverse ++ c :: a.reverse = es.reverse ++ c :: b.reverse := by
    simpa using congrArg List.reverse h
  have htake := congrArg takeDigits hrev
  rw [takeDigits_append (by simpa using hds) (hfirst _),
    takeDigits_append (by simpa using hes) (hfirst _)] at htake
  simpa [and_comm] using htake

private theorem append_ofNat_inj {a b : Text} {c : CodePoint} (hc : c.isDigit = false) {m n : Nat}
    (h : a ++ c :: Text.ofNat m = b ++ c :: Text.ofNat n) : a = b ∧ m = n := by
  obtain ⟨hab, hmn⟩ := append_digits_inj hc (isDigits_ofNat m).2 (isDigits_ofNat n).2 h
  exact ⟨hab, ofNat_injective hmn⟩

/-- The place that ends a message, and what stands in front of it. -/
theorem Place.message_append_inj {a b : Text} {p q : Place}
    (h : a ++ ": " ++ p.message = b ++ ": " ++ q.message) : a = b ∧ p = q := by
  obtain ⟨line, column, offset⟩ := p
  obtain ⟨line', column', offset'⟩ := q
  have hspace : (CodePoint.scalar ' ').isDigit = false := rfl
  have hmessage (t : Text) (l c o : Nat) : t ++ ": " ++ Place.message ⟨l, c, o⟩ =
      ((((t ++ ": line") ++ .scalar ' ' :: Text.ofNat l) ++ " column") ++
        .scalar ' ' :: Text.ofNat c) ++ " (char" ++ .scalar ' ' :: Text.ofNat o ++ ")" := by
    simp [Place.message, Text.ofString]
  rw [hmessage, hmessage] at h
  -- from the end: each number is what stands behind a space
  obtain ⟨h₁, hoffset⟩ := append_ofNat_inj hspace (List.append_cancel_right h)
  obtain ⟨h₂, hcolumn⟩ := append_ofNat_inj hspace (List.append_cancel_right h₁)
  obtain ⟨h₃, hline⟩ := append_ofNat_inj hspace (List.append_cancel_right h₂)
  rw [hline, hcolumn, hoffset]
  exact ⟨List.append_cancel_right h₃, rfl⟩

/-- A fault whose message names a place stands at it. -/
theorem eq_of_message {s msg : Text} {f : Fault} {p : Place} (h : parse s = .error f)
    (hmessage : f.message s = msg ++ ": " ++ p.message) :
    ∃ cause rest, f = .atPlace cause rest ∧ msg = cause.message ∧ p = Place.ofRest s rest := by
  have hin := parse_fault h
  have hlast : (f.message s).getLast? = some (.scalar ')') := by
    rw [hmessage, Place.message, ← List.append_assoc]
    exact List.getLast?_concat
  -- the message of a fault without a place ends with a letter
  cases f with
  | atPlace cause rest =>
    rw [Fault.message] at hmessage
    obtain ⟨rfl, rfl⟩ := Place.message_append_inj hmessage
    exact ⟨cause, rest, rfl, rfl, rfl⟩
  | constant name =>
    obtain ⟨k, rfl⟩ := hin
    rw [Fault.message] at hlast
    cases k <;> exact absurd hlast (by decide)
  | tooManyDigits count =>
    rw [Fault.message, tooManyDigitsMessage, List.getLast?_append_of_ne_nil _ (by decide)] at hlast
    exact absurd hlast (by decide)
  | tooDeep =>
    rw [Fault.message] at hlast
    exact absurd hlast (by decide)

/-! ## Section 3: Other texts -/

/-- The four messages are about what has been read, and not about what is missing at the end. -/
private theorem Cause.isFinal_of_message {cause : Cause}
    (h : cause.message ∈ (["Expecting property name enclosed in double quotes",
      "Expecting ':' delimiter", "Expecting ',' delimiter", "Invalid control character at"] :
      List Text)) : cause.isFinal := by
  revert h
  cases cause <;> decide

private theorem Cause.eq_extraData_of_message {cause : Cause} (h : cause.message = "Extra data") :
    cause = .extraData := by
  revert h
  cases cause <;> decide

/-- A text that begins as another one does, up to and including the code point where that is
rejected, is rejected in the same words. -/
theorem message_of_prefix {x r longer : Text} {c : CodePoint} {cause : Cause}
    (hcause : cause.isFinal) (hc : Settles c)
    (h : parse (x ++ c :: r) = .error (.atPlace cause (c :: r)))
    (hlonger : (x ++ c :: r).take (x.length + 1) <+: longer) :
    ∃ other, parse longer = .error other ∧
      other.message longer = (Fault.atPlace cause (c :: r)).message (x ++ c :: r) := by
  -- the fault is settled by what has been read, and so is the place that is reported
  obtain ⟨y, hy, hsettled⟩ := parse_settled hcause hc h
  obtain rfl := List.append_cancel_right hy
  obtain ⟨r', rfl⟩ := hlonger
  have hlonger : (x ++ c :: r).take (x.length + 1) ++ r' = x ++ c :: r' := by
    rw [List.take_append, List.take_of_length_le (Nat.le_succ _), Nat.add_sub_cancel_left]
    simp
  rw [hlonger]
  refine ⟨_, hsettled r', ?_⟩
  rw [Fault.message, Fault.message, Place.ofRest_append, Place.ofRest_append]

end Json

/-! ## Section 4: Rejected texts -/

/-- A text that is not JSON gives one finding, at the start of the document and in the words of the
parser.  Where these name a place, it lies in the text, and line and column count up to it.  What
stands in front of data that is too much is a whole text; and where a name, a colon or a comma is
expected, or a control character stands in a string, every text that is the same up to and including
the code point at the place is rejected in the same words, unless that code point can carry a number
on. -/
theorem Engine.rejections_located (text : Text) (fault : Json.Fault)
    (h : Json.parse text = .error fault) :
    (∀ (engine : Engine) (snapshot : Snapshot), engine.state = .idle → snapshot.text = text →
      (engine.validate snapshot).answer =
        .ok [.error (.ofCoordinates 0 0 0 1) ("Invalid JSON format: " ++ fault.message text)
          "WS_INVALID_JSON_001"]) ∧
    ∀ (msg : Text) (line column offset : Nat),
      fault.message text = msg ++ ": " ++ Json.Place.message ⟨line, column, offset⟩ →
        offset ≤ text.length ∧
        line = (text.take offset).count .lineFeed + 1 ∧
        (∀ i, text.IsLastLineFeed offset i → column = offset - i) ∧
        (.lineFeed ∉ text.take offset → column = offset + 1) ∧
        (msg = "Extra data" →
          offset < text.length ∧ ∃ v, Json.parse (text.take offset) = .ok v) ∧
        (msg ∈ (["Expecting property name enclosed in double quotes", "Expecting ':' delimiter",
            "Expecting ',' delimiter", "Invalid control character at"] : List Text) →
          ∀ c, text[offset]? = some c → c ≠ .scalar '.' → c ≠ .scalar 'e' → c ≠ .scalar 'E' →
            ∀ longer, text.take (offset + 1) <+: longer →
              ∃ other, Json.parse longer = .error other ∧
                other.message longer = fault.message text) := by
  constructor
  · rintro engine snapshot hidle rfl
    rw [(Engine.validate_idle hidle snapshot).2]
    simp only [diagnose, h]
    rfl
  intro msg line column offset hmessage
  obtain ⟨cause, rest, rfl, rfl, hplace⟩ := Json.eq_of_message h hmessage
  -- the text cut at the place
  obtain ⟨x, rfl⟩ : rest <:+ text := Json.parse_fault h
  rw [Json.Place.ofRest_append] at hplace
  have hline := congrArg Json.Place.line hplace
  have hcolumn := congrArg Json.Place.column hplace
  obtain rfl : offset = x.length := congrArg Json.Place.offset hplace
  simp only at hline hcolumn
  rw [List.take_left]
  refine ⟨by simp, hline, fun i hi => ?_, fun hno => ?_, fun hextra => ?_, ?_⟩
  · rw [hcolumn, Json.Place.column_of_isLastLineFeed hi]
  · rw [hcolumn, Json.Place.column_after_of_not_mem hno]
  · obtain rfl := Json.Cause.eq_extraData_of_message hextra
    obtain ⟨y, c, r, v, rfl, hy, hv⟩ := Json.parse_before_extra h
    obtain rfl := List.append_cancel_right hy
    exact ⟨by simp, v, hv⟩
  · intro hfinal c hget hpoint he hE longer hlonger
    have hcause := Json.Cause.isFinal_of_message hfinal
    -- the code point at the place begins the rest
    rw [List.getElem?_append_right (Nat.le_refl _), Nat.sub_self] at hget
    obtain ⟨r, rfl⟩ : ∃ r, rest = c :: r := by
      cases rest with
      | nil => cases hget
      | cons d r =>
        cases hget
        exact ⟨r, rfl⟩
    exact Json.message_of_prefix hcause ⟨hpoint, he, hE⟩ h hlonger

/-- An array on two lines without a comma between its items. -/
theorem parse_unseparated : Json.parse "[\n1 2]" = .error (.atPlace .expectingComma "2]") := by
  -- by hand from the inside, since the reader is too deep to be computed
  have hitem : (Json.reader .strict 987).read "1 2]" = .ok (.int 1, " 2]") := rfl
  have hitems : Json.readItems (Json.reader .strict 987) [] "1 2]" =
      .error (.atPlace .expectingComma "2]") := (Json.readItems_loops _).round hitem rfl
  have harray : Json.readArray (Json.reader .strict 987) "\n1 2]" =
      .error (.atPlace .expectingComma "2]") := by
    rw [Json.readArray_of_skipSpace (s := "\n1 2]") (t := " 2]") rfl, if_neg (by decide)]
    exact congrArg (Json.mapReading Json.arr) hitems
  have hread : (Json.reader .strict Json.maxDepth).read (Json.skipSpace "[\n1 2]") =
      .error (.atPlace .expectingComma "2]") := harray
  have hmark : ("[\n1 2]" : Text).head? ≠ some Json.byteOrderMark := by decide
  rw [Json.parse, Json.parseDialect, if_neg hmark, hread]

/-- A missing comma is located on the second line, and so it is when more text follows. -/
theorem Engine.unseparated_located :
    Json.parse "[\n1 2]" = .error (.atPlace .expectingComma "2]") ∧
      ("[\n1 2]" : Text).IsLastLineFeed 4 1 ∧ 3 = 4 - 1 ∧
      ∃ other, Json.parse "[\n1 2, 3]" = .error other ∧
        other.message "[\n1 2, 3]" = "Expecting ',' delimiter: line 2 column 3 (char 4)" := by
  have hmessage : (Json.Fault.atPlace .expectingComma "2]").message "[\n1 2]" =
      "Expecting ',' delimiter: line 2 column 3 (char 4)" := by decide
  have hfeed : ("[\n1 2]" : Text).IsLastLineFeed 4 1 := by decide
  obtain ⟨-, hplace⟩ := rejections_located _ _ parse_unseparated
  obtain ⟨-, -, hcolumn, -, -, hlonger⟩ := hplace "Expecting ',' delimiter" 2 3 4 hmessage
  obtain ⟨other, hother, heq⟩ := hlonger (by decide) (.scalar '2') rfl (by decide) (by decide)
    (by decide) "[\n1 2, 3]" (by decide)
  exact ⟨parse_unseparated, hfeed, hcolumn 1 hfeed, other, hother, heq.trans hmessage⟩

end FormSchema
