import FormSchema.Json.Display
import FormSchema.Proofs.Decimal.Numerals
import FormSchema.Proofs.Json.Faults
import FormSchema.Proofs.Text.Lines

/-!
# Messages on one line

A value other than a string is shown on one line, since the strings in it are quoted and a line feed
is escaped between quotation marks.  The message of a fault is on one line as well.  A string that
is shown as it is brings along the line feeds that it has.
-/

namespace FormSchema

/-! ## Section 1: Texts on one line -/

namespace Text

/-- Whether a text is on one line. -/
def IsOneLine (t : Text) : Prop := CodePoint.lineFeed ∉ t

instance (t : Text) : Decidable t.IsOneLine :=
  inferInstanceAs (Decidable (CodePoint.lineFeed ∉ t))

@[simp] theorem isOneLine_append {s t : Text} :
    IsOneLine (s ++ t) ↔ s.IsOneLine ∧ t.IsOneLine := by
  rw [IsOneLine, List.mem_append, not_or]
  rfl

@[simp] theorem isOneLine_cons {c : CodePoint} {t : Text} :
    IsOneLine (c :: t) ↔ CodePoint.lineFeed ≠ c ∧ t.IsOneLine := by
  rw [IsOneLine, List.mem_cons, not_or]
  rfl

/-- Texts on one line make one line if they are joined by one. -/
theorem isOneLine_join {sep : Text} {ps : List Text} (hsep : sep.IsOneLine)
    (h : ∀ p ∈ ps, IsOneLine p) : (join sep ps).IsOneLine := by
  intro hmem
  rcases mem_join hmem with hmem | ⟨p, hp, hmem⟩
  · exact hsep hmem
  · exact h p hp hmem

private theorem isOneLine_flatMap {α : Type} {as : List α} {f : α → Text}
    (h : ∀ a ∈ as, (f a).IsOneLine) :
    IsOneLine (as.flatMap f) := by
  intro hmem
  obtain ⟨a, ha, hmem⟩ := List.mem_flatMap.mp hmem
  exact h a ha hmem

/-- A code point can be repeated on one line. -/
theorem isOneLine_replicate {c : CodePoint} (h : CodePoint.lineFeed ≠ c) (n : Nat) :
    IsOneLine (List.replicate n c) :=
  fun hmem => h (List.eq_of_mem_replicate hmem)

private theorem isOneLine_ofNat (n : Nat) : (ofNat n).IsOneLine :=
  fun hmem => absurd ((Json.isDigits_ofNat n).2 _ hmem) (by decide)

/-- An integer is written on one line. -/
theorem isOneLine_ofInt (n : Int) : (ofInt n).IsOneLine := by
  rw [ofInt]
  split
  · exact isOneLine_cons.mpr ⟨by decide, isOneLine_ofNat _⟩
  · exact isOneLine_ofNat _

/-- The digits of a number to a base are those of numbers below the base. -/
theorem exists_of_mem_toDigits {base : Nat} (hbase : 1 < base) {n : Nat} {c : Char}
    (h : c ∈ Nat.toDigits base n) : ∃ k, k < base ∧ c = Nat.digitChar k := by
  induction n using Nat.strongRecOn with
  | ind n ih =>
    -- on the number, which loses its last digit
    by_cases hn : n < base
    · rw [Nat.toDigits_of_lt_base hn, List.mem_singleton] at h
      exact ⟨n, hn, h⟩
    · have hle : base ≤ n := Nat.not_lt.mp hn
      rw [Nat.toDigits_of_base_le hbase hle, List.mem_append, List.mem_singleton] at h
      rcases h with h | h
      · exact ih (n / base) (Nat.div_lt_self (by omega) hbase) h
      · exact ⟨n % base, Nat.mod_lt n (by omega), h⟩

private theorem isOneLine_ofHex (n : Nat) : (ofHex n).IsOneLine := by
  have hdigits : ∀ k ∈ List.range 16, CodePoint.lineFeed ≠ .scalar (Nat.digitChar k) := by decide
  intro hmem
  obtain ⟨c, hc, heq⟩ := List.mem_map.mp hmem
  obtain ⟨k, hk, rfl⟩ := exists_of_mem_toDigits (by decide) hc
  exact hdigits k (List.mem_range.mpr hk) heq.symm

end Text

/-! ## Section 2: Quoted texts -/

namespace Quoted

private theorem isOneLine_escapeNumber (n : Nat) : (escapeNumber n).IsOneLine := by
  -- hexadecimal digits, padded with zeros, behind a backslash and a letter
  have hpadded (width : Nat) : (hexPadded width n).IsOneLine := by
    rw [hexPadded, Text.isOneLine_append]
    exact ⟨Text.isOneLine_replicate (by decide) _, Text.isOneLine_ofHex n⟩
  unfold escapeNumber
  split
  · exact Text.isOneLine_append.mpr ⟨by decide, hpadded 2⟩
  · split
    · exact Text.isOneLine_append.mpr ⟨by decide, hpadded 4⟩
    · exact Text.isOneLine_append.mpr ⟨by decide, hpadded 8⟩

private theorem lineFeed_ne_mark (t : Text) : CodePoint.lineFeed ≠ mark t := by
  unfold mark
  split <;> decide

private theorem isOneLine_escape {m : CodePoint} (hm : CodePoint.lineFeed ≠ m) (c : CodePoint) :
    (escape m c).IsOneLine := by
  unfold escape
  split
  · -- the mark that is used is escaped, and it is no line feed
    next hc => exact Text.isOneLine_cons.mpr ⟨by decide, Text.isOneLine_cons.mpr ⟨hc ▸ hm, nofun⟩⟩
  split
  · decide
  split
  · decide
  · next hfeed =>
    split
    · decide
    split
    · decide
    split
    · exact Text.isOneLine_cons.mpr ⟨Ne.symm hfeed, nofun⟩
    · exact isOneLine_escapeNumber c.toNat

/-- A text is quoted on one line, whatever it holds. -/
theorem isOneLine_quote (t : Text) : (quote t).IsOneLine := by
  have hm := lineFeed_ne_mark t
  rw [quote, Text.isOneLine_append, Text.isOneLine_cons]
  refine ⟨⟨hm, Text.isOneLine_flatMap fun c _ => isOneLine_escape hm c⟩, ?_⟩
  exact Text.isOneLine_cons.mpr ⟨hm, nofun⟩

end Quoted

namespace Json

/-! ## Section 3: Values in messages -/

private theorem inspectItems_eq_map (items : List Json) :
    inspectItems items = items.map inspect := by
  induction items with
  | nil => rfl
  | cons v rest ih => rw [inspectItems, ih, List.map_cons]

private theorem inspectEntries_eq_map (es : Entries Json) :
    inspectEntries es = es.map fun e => Quoted.quote e.1 ++ ": " ++ inspect e.2 := by
  induction es with
  | nil => rfl
  | cons e rest ih => rw [inspectEntries, ih, List.map_cons]

private theorem isOneLine_float (x : Binary64) : (x.text .display).IsOneLine := by
  cases x with
  | finite negative m e =>
    obtain ⟨n, hn⟩ := Binary64.writesNumeral_text negative m e .display
    intro hmem
    -- neither a digit nor one of the signs in a numeral
    rcases hn.isNumeralPart _ hmem with hdigit | hother
    · exact absurd hdigit (by decide)
    · exact absurd hother (by decide)
  | nan => decide
  | infinite negative => cases negative <;> decide

/-- A value with its strings quoted is on one line. -/
theorem isOneLine_inspect (v : Json) : v.inspect.IsOneLine := by
  -- quoted strings have no line feed, and what joins the parts has none either
  induction v using inductionOn with
  | null => decide
  | bool b => cases b <;> decide
  | int n => exact Text.isOneLine_ofInt n
  | float x => exact isOneLine_float x
  | str s => exact Quoted.isOneLine_quote s
  | arr items ih =>
    rw [inspect, inspectItems_eq_map, Text.isOneLine_append, Text.isOneLine_append]
    refine ⟨⟨by decide, Text.isOneLine_join (by decide) ?_⟩, by decide⟩
    exact List.forall_mem_map.mpr ih
  | obj es ih =>
    rw [inspect, inspectEntries_eq_map, Text.isOneLine_append, Text.isOneLine_append]
    refine ⟨⟨by decide, Text.isOneLine_join (by decide) ?_⟩, by decide⟩
    refine List.forall_mem_map.mpr fun e he => ?_
    rw [Text.isOneLine_append, Text.isOneLine_append]
    exact ⟨⟨Quoted.isOneLine_quote e.1, by decide⟩, ih e he⟩

/-- In a message a value is on one line, unless it is a string with a line feed. -/
theorem isOneLine_display_iff {v : Json} :
    v.display.IsOneLine ↔ ∀ s, v = .str s → s.IsOneLine := by
  cases v with
  | str s => simp [display]
  | _ => exact iff_of_true (isOneLine_inspect _) nofun

/-- The names of the kinds have no line feed. -/
theorem isOneLine_kindName (v : Json) : v.kindName.IsOneLine := by
  cases v <;>
    · rw [kindName]
      decide

/-! ## Section 4: Faults -/

/-- The message of a fault of the text is on one line. -/
theorem isOneLine_message {s : Text} {fault : Fault} (h : parse s = .error fault) :
    (fault.message s).IsOneLine := by
  have hin := parse_fault h
  -- the fixed parts are decided, and numbers are written in digits
  cases fault with
  | atPlace cause rest =>
    have hcause : cause.message.IsOneLine := by cases cause <;> decide
    have hplace (p : Place) : p.message.IsOneLine := by
      simp only [Place.message, Text.isOneLine_append, Text.isOneLine_ofNat, and_true]
      decide
    rw [Fault.message, Text.isOneLine_append, Text.isOneLine_append]
    exact ⟨⟨hcause, by decide⟩, hplace _⟩
  | constant name =>
    obtain ⟨k, rfl⟩ := hin
    rw [Fault.message]
    cases k <;> decide
  | tooManyDigits count =>
    rw [Fault.message, tooManyDigitsMessage]
    simp only [Text.isOneLine_append, Text.isOneLine_ofNat, and_true]
    decide
  | tooDeep =>
    rw [Fault.message]
    decide

end Json

end FormSchema
