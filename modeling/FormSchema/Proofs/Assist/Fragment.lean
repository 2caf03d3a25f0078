import FormSchema.Assist.Insertion
import FormSchema.Proofs.Json.Layout

/-!
# Fragments

What is inserted at a cursor, and whether it ends with a comma.  A fragment is the identifier of the
data type followed by the entries of its sample, each on a line that is indented like the line of
the cursor; the lines behind that line decide about the comma.
-/

namespace FormSchema

/-! ## Section 1: Stripped lines -/

private theorem mem_strip {c : CodePoint} {t : Text} (h : c ∈ t) (hc : c.isBlank = false) :
    c ∈ t.strip := by
  -- a code point that is not blank is dropped from neither end
  have hdrop {l : Text} (hl : c ∈ l) : c ∈ l.dropWhile CodePoint.isBlank := by
    rw [← List.takeWhile_append_dropWhile (p := CodePoint.isBlank) (l := l), List.mem_append] at hl
    apply hl.resolve_left
    intro htake
    have hblank := List.all_eq_true.mp List.all_takeWhile c htake
    rw [hc] at hblank
    cases hblank
  rw [Text.strip, Text.stripEnd, List.mem_reverse]
  exact hdrop (List.mem_reverse.mpr (hdrop h))

private theorem strip_indented {t : Text} (hfirst : ∀ c ∈ t.head?, c.isBlank = false)
    (hlast : ∀ c ∈ t.getLast?, c.isBlank = false) (n : Nat) :
    Text.strip (List.replicate n (.scalar ' ') ++ t) = t := by
  have hspaces : ∀ c ∈ List.replicate n (CodePoint.scalar ' '), c.isBlank := by
    intro c hc
    rw [List.eq_of_mem_replicate hc]
    rfl
  rw [Text.strip, List.dropWhile_append_of_pos hspaces, Text.dropWhile_eq_self hfirst,
    Text.stripEnd, Text.dropWhile_eq_self (by rwa [List.head?_reverse]), List.reverse_reverse]

/-- Spaces make no second line. -/
theorem lineFeed_not_mem_spaces (n : Nat) :
    CodePoint.lineFeed ∉ List.replicate n (CodePoint.scalar ' ') := by
  intro h
  exact absurd (List.eq_of_mem_replicate h) (by decide)

private theorem isClosing_indented (n : Nat) {t : Text} (ht : t = "\x7d" ∨ t = "\x7d,") :
    Insertion.isClosing (List.replicate n (.scalar ' ') ++ t) = true := by
  have hstrip : Text.strip (List.replicate n (.scalar ' ') ++ t) = t := by
    rcases ht with rfl | rfl
    · exact strip_indented (by decide) (by decide) n
    · exact strip_indented (by decide) (by decide) n
  rw [Insertion.isClosing, hstrip]
  rcases ht with rfl | rfl <;> rfl

/-- A line with a quotation mark is no closing line. -/
theorem isClosing_of_mem {line : Text} (h : .scalar '"' ∈ line) :
    Insertion.isClosing line = false := by
  have hmem := mem_strip h (by decide)
  rw [Insertion.isClosing, Bool.or_eq_false_iff, decide_eq_false_iff_not, decide_eq_false_iff_not]
  refine ⟨fun heq => ?_, fun heq => ?_⟩
  · exact absurd (heq ▸ hmem) (by decide)
  · exact absurd (heq ▸ hmem) (by decide)

/-! ## Section 2: The lines behind the cursor -/

namespace Insertion

/-- Lines that neither close nor hold a token are passed over. -/
theorem tokenBeforeClosing_append {lines : List Text}
    (h : ∀ line ∈ lines, isClosing line = false ∧ hasToken line = false) (rest : List Text) :
    tokenBeforeClosing (lines ++ rest) = tokenBeforeClosing rest := by
  induction lines with
  | nil => rfl
  | cons line lines ih =>
    obtain ⟨⟨hclosing, htoken⟩, hlines⟩ := List.forall_mem_cons.mp h
    rw [List.cons_append, tokenBeforeClosing, hclosing, htoken]
    exact ih hlines

/-- Before a line that closes the object, there is no token. -/
theorem tokenBeforeClosing_brace (n : Nat) {after : Text} (h : Json.LeavesLine after) :
    tokenBeforeClosing (Text.lines
      (List.replicate n (.scalar ' ') ++ .scalar '\x7d' :: (after ++ [.lineFeed]))) = false := by
  -- whatever comes behind a brace: the line that it ends is a closing one
  have hline {t : Text} (ht : t = "\x7d" ∨ t = "\x7d,") (rest : Text) :
      tokenBeforeClosing (Text.lines
        ((List.replicate n (.scalar ' ') ++ t) ++ .lineFeed :: rest)) = false := by
    have hfree : CodePoint.lineFeed ∉ List.replicate n (CodePoint.scalar ' ') ++ t := by
      rw [List.mem_append, not_or]
      exact ⟨lineFeed_not_mem_spaces n, by rcases ht with rfl | rfl <;> decide⟩
    rw [Text.lines_append_cons, Text.lines, Text.split_of_not_mem hfree, List.singleton_append,
      tokenBeforeClosing, isClosing_indented n ht]
    rfl
  -- the brace ends the text, the line, or the line together with a comma
  rcases h with rfl | ⟨rest, rfl | rfl⟩
  · have hbrace := hline (.inl rfl) []
    rwa [List.append_assoc] at hbrace
  · have hbrace := hline (.inl rfl) (rest ++ [.lineFeed])
    rwa [List.append_assoc] at hbrace
  · have hcomma := hline (.inr rfl) (rest ++ [.lineFeed])
    rwa [List.append_assoc] at hcomma

/-- A quoted token comes before the closing line, whatever stands in front of it on its line. -/
theorem tokenBeforeClosing_quoted {l s : Text} (hl : CodePoint.lineFeed ∉ l)
    (hs : CodePoint.lineFeed ∉ s) (after : Text) :
    tokenBeforeClosing (Text.lines (l ++ (s.inQuotes ++ after))) = true := by
  have hfree : CodePoint.lineFeed ∉ l ++ s.inQuotes := by
    simp [Text.inQuotes, hl, hs]
  obtain ⟨first, rest, _, hlines⟩ := Text.lines_append_of_not_mem hfree after
  have hquote : CodePoint.scalar '"' ∈ l ++ s.inQuotes ++ first := by
    simp [Text.inQuotes]
  -- the quotation marks of the token are on the first line, as there is no line feed in it
  have htoken : hasToken (l ++ s.inQuotes ++ first) = true := by
    rw [hasToken, decide_eq_true_iff]
    simp only [Text.inQuotes, List.count_append, List.count_cons, List.count_nil, beq_self_eq_true,
      if_true]
    omega
  rw [← List.append_assoc, hlines, tokenBeforeClosing, isClosing_of_mem hquote, htoken]
  rfl

end Insertion

/-! ## Section 3: The fragment of a kind -/

/-- The entries of the sample of a kind. -/
def InsertionKind.sampleEntries (kind : InsertionKind) : Entries Json :=
  match kind.dataType.sample with
  | some (.obj es) => es
  | _ => []

namespace Json

/-- The text of an entry whose value is a string. -/
def stringEntry (name value : Text) : Text :=
  printEntry (canonicalStyle none) name (printString false value)

private theorem derives_stringEntry (name value : Text) :
    Derives (.member (name, .str value)) (stringEntry name value) := by
  apply derives_printEntry (isBlank_canonical_gap none) rfl name
  exact .string (spells_printed value)

end Json

namespace Insertion

open Json (Derives IsBlank)

private theorem sampleLines_dropdown (indentation : Text) :
    sampleLines Catalog.dropdown indentation =
      .ok [indentation ++ "\"choices\": \x7b", indentation ++ "    \"option1\": \"Option 1\",",
        indentation ++ "    \"option2\": \"Option 2\"", indentation ++ "\x7d"] := rfl

private theorem sampleLines_area (indentation : Text) :
    sampleLines Catalog.area indentation =
      .ok [indentation ++ "\"display\": \"html-editor\""] := rfl

/-- The text of the choices of a new dropdown, on lines that begin with `start`. -/
def choicesText (start : Text) : Text :=
  let inner := start ++ "    "
  .scalar '\x7b' :: (inner ++ (Text.join (.scalar ',' :: inner)
    [Json.stringEntry "option1" "Option 1", Json.stringEntry "option2" "Option 2"] ++ start) ++
      [.scalar '\x7d'])

/-- The choices of a dropdown are read from their text at any margin. -/
theorem derives_choicesText {start : Text} (h : IsBlank start) :
    Derives (.value Catalog.sampleChoices) (choicesText start) := by
  have hspaces : IsBlank ("    " : Text) := fun c hc => by
    rw [show ("    " : Text) = List.replicate 4 (.scalar ' ') from rfl] at hc
    exact List.eq_of_mem_replicate hc ▸ rfl
  have hinner : IsBlank (start ++ "    ") := h.append hspaces
  exact .object (Json.derives_members hinner h (List.cons_ne_nil _ _)
    (.cons (Json.derives_stringEntry "option1" "Option 1")
      (.cons (Json.derives_stringEntry "option2" "Option 2") .nil)) hinner)

/-- The texts of the sample entries of a kind, on lines that begin with `start`. -/
def sampleTexts (kind : InsertionKind) (start : Text) : List Text :=
  match kind with
  | .dropdown => [Json.printEntry (Json.canonicalStyle none) "choices" (choicesText start)]
  | .htmlEditor => [Json.stringEntry "display" "html-editor"]

/-- The texts of a sample are those of its entries. -/
theorem derives_sampleTexts (kind : InsertionKind) {start : Text} (h : IsBlank start) :
    List.Forall₂ (fun e t => Derives (.member e) t) kind.sampleEntries
      (sampleTexts kind start) := by
  cases kind with
  | dropdown =>
    refine .cons ?_ .nil
    exact Json.derives_printEntry (Json.isBlank_canonical_gap none) rfl "choices"
      (derives_choicesText h)
  | htmlEditor => exact .cons (Json.derives_stringEntry "display" "html-editor") .nil

/-- The fragment of a kind: the identifier of its data type and the texts of its sample entries,
each on a line with the indentation of the cursor. -/
theorem build_eq (kind : InsertionKind) (l : Text) (more : Bool) :
    build kind.dataType l more =
      .ok (kind.dataType.identifier.inQuotes ++
        ((sampleTexts kind (.lineFeed :: l)).flatMap ((.scalar ',' :: .lineFeed :: l) ++ ·) ++
          if more then [.scalar ','] else [])) := by
  -- the sample of each kind is a text of the catalog, whatever the indentation
  cases kind with
  | dropdown =>
    show build Catalog.dropdown l more = _
    rw [build, sampleLines_dropdown]
    simp only [Text.unlines, Text.join_cons, sampleTexts, choicesText, Json.printEntry,
      List.flatMap_cons, List.flatMap_nil, List.append_assoc, List.cons_append, List.append_nil]
    cases more <;> rfl
  | htmlEditor =>
    show build Catalog.area l more = _
    rw [build, sampleLines_area]
    simp only [Text.unlines, Text.join_cons, sampleTexts, List.flatMap_cons, List.flatMap_nil,
      List.append_assoc, List.append_nil]
    cases more <;> rfl

end Insertion

end FormSchema
