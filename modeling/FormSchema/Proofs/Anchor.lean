import FormSchema.Anchor
import FormSchema.Proofs.Json.Limits
import FormSchema.Proofs.Text.Occurrences

/-!
# What an anchor covers

An anchor is searched on the first line that holds all its tokens.  If some line of a text holds
them, then the anchor lies on the first of these lines and covers exactly the token that was
searched for: the value if there is one, and else the name.  It lies where the token stands for the
first time on that line, whatever comes behind the line; without such a line it is the empty range.

All this is about values that can be written.  For any other value there is no anchor at all.
-/

namespace FormSchema

/-! ## Section 1: Ranges that cover a token -/

namespace Range

variable {r : Range} {text token : Text}

/-- A range covers a token of a text: it lies within one line, spans at least one column, and what
stands there is the token. -/
def Covers (r : Range) (text token : Text) : Prop :=
  token ≠ [] ∧ ∃ (i : Nat) (before after : Text),
    text.lines[i]? = some (before ++ (token ++ after)) ∧
      r = .ofCoordinates i before.length i (before.length + token.length : Nat)

/-- A range covers a token on line `i` of a text, which is the first line of a kind. -/
def CoversOnFirst (r : Range) (text token : Text) (kind : Text → Prop) (i : Nat) : Prop :=
  token ≠ [] ∧ ∃ before after : Text,
    text.lines[i]? = some (before ++ (token ++ after)) ∧
      r = .ofCoordinates i before.length i (before.length + token.length : Nat) ∧
      kind (before ++ (token ++ after)) ∧ ∀ line ∈ text.lines.take i, ¬ kind line

/-- A range marks a token of a text: it spans the place where the token stands for the first time on
its line, and the line is the first one of a kind. -/
structure Marks (r : Range) (text token : Text) (kind : Text → Prop) (i column : Nat)
    (line : Text) : Prop where
  line_eq : text.lines[i]? = some line
  ofKind : kind line
  firstLine : ∀ l ∈ text.lines.take i, ¬ kind l
  leftmost : ∀ k < column, ¬ token <+: line.drop k
  slice : (line.drop column).take token.length = token
  within : column + token.length ≤ line.length
  coordinates : r = .ofCoordinates i column i (column + token.length : Nat)

/-- What is known of the first line of a kind is a line of the text in any case. -/
theorem CoversOnFirst.covers {kind : Text → Prop} {i : Nat}
    (h : r.CoversOnFirst text token kind i) :
    r.Covers text token := by
  obtain ⟨hne, before, after, hline, hr, -, -⟩ := h
  exact ⟨hne, i, before, after, hline, hr⟩

/-- A kind of lines can be described in other words. -/
theorem CoversOnFirst.congr {kind kind' : Text → Prop} {i : Nat}
    (h : r.CoversOnFirst text token kind i) (hkind : ∀ line, kind line ↔ kind' line) :
    r.CoversOnFirst text token kind' i := by
  obtain rfl : kind = kind' := funext fun line => propext (hkind line)
  exact h

/-- A range that marks the first occurrence of a token covers the token. -/
theorem Marks.covers {kind : Text → Prop} {i column : Nat} {line : Text}
    (h : r.Marks text token kind i column line) (hne : token ≠ []) : r.Covers text token := by
  have hsplit : line = line.take column ++ (token ++ line.drop (column + token.length)) := by
    conv_lhs => rw [← List.take_append_drop column line,
      ← List.take_append_drop token.length (line.drop column), h.slice, List.drop_drop]
  have hlength : (line.take column).length = column :=
    List.length_take_of_le (Nat.le_of_add_right_le h.within)
  refine ⟨hne, i, line.take column, _, hsplit ▸ h.line_eq, ?_⟩
  rw [hlength]
  exact h.coordinates

/-- A range that covers a token is not empty. -/
theorem Covers.not_degenerate (h : r.Covers text token) : r.isDegenerate = false := by
  obtain ⟨hne, i, before, after, -, rfl⟩ := h
  have hlength := List.length_pos_of_ne_nil hne
  rw [isDegenerate, ofCoordinates, decide_eq_false_iff_not, Position.mk.injEq]
  omega

end Range

namespace Anchor

variable {name : Text} {value : Option Text} {line : Text}

/-! ## Section 2: One line -/

/-- A line holds the name token and, if there is one, the value token. -/
def Holds (name : Text) (value : Option Text) (line : Text) : Prop :=
  name <:+: line ∧ ∀ v ∈ value, v <:+: line

private theorem holds_none : Holds name none line ↔ name <:+: line := and_iff_left nofun

private theorem holds_some {v : Text} : Holds name (some v) line ↔ name <:+: line ∧ v <:+: line :=
  and_congr_right fun _ => ⟨fun h => h v rfl, fun h _ hv => Option.some.inj hv ▸ h⟩

private theorem onLine?_isSome_iff : (onLine? name value line).isSome ↔ Holds name value line := by
  rw [onLine?, Holds, ← Text.find?_isSome_iff]
  -- without the name there is nothing, and with it only the value is in question
  cases Text.find? name line with
  | none => exact ⟨nofun, fun h => h.1⟩
  | some column =>
    cases value with
    | none => exact ⟨fun _ => ⟨rfl, nofun⟩, fun _ => rfl⟩
    | some v =>
      rw [Option.isSome_map, Text.find?_isSome_iff]
      exact ⟨fun h => ⟨rfl, fun _ hv => Option.some.inj hv ▸ h⟩, fun h => h.2 v rfl⟩

private theorem onLine?_eq_none (h : ¬ Holds name value line) : onLine? name value line = none := by
  rw [← Option.not_isSome_iff_eq_none, onLine?_isSome_iff]
  exact h

/-- What is found on a line is the value token, or the name token if there is no value token. -/
theorem find?_of_onLine? {column width : Nat}
    (h : onLine? name value line = some (column, width)) :
    Text.find? (value.getD name) line = some column ∧ width = (value.getD name).length := by
  rw [onLine?] at h
  split at h
  · cases h
  · next c hname =>
    -- without a value the name itself is marked
    cases value with
    | none =>
      cases h
      exact ⟨hname, rfl⟩
    | some v =>
      obtain ⟨c, hvalue, heq⟩ := Option.map_eq_some_iff.mp h
      cases heq
      exact ⟨hvalue, rfl⟩

/-- What is found on a line is the token that was searched for, at its place. -/
theorem onLine?_eq_some {column width : Nat} (h : onLine? name value line = some (column, width)) :
    ∃ before after, line = before ++ (value.getD name ++ after) ∧ column = before.length ∧
      width = (value.getD name).length := by
  obtain ⟨hfind, hwidth⟩ := find?_of_onLine? h
  obtain ⟨before, after, hline, hcolumn⟩ := Text.find?_eq_some hfind
  exact ⟨before, after, hline, hcolumn, hwidth⟩

/-- On a line the token is found where it stands for the first time. -/
theorem onLine?_leftmost {column width k : Nat}
    (h : onLine? name value line = some (column, width)) (hk : k < column) :
    ¬ value.getD name <+: line.drop k :=
  Text.find?_leftmost (find?_of_onLine? h).1 hk

/-! ## Section 3: The first line -/

/-- Among lines of which one holds the tokens there is a first such line. -/
theorem exists_first_holding {lines : List Text} (hmem : line ∈ lines)
    (hholds : Holds name value line) :
    ∃ above first below, lines = above ++ first :: below ∧ Holds name value first ∧
      ∀ l ∈ above, ¬ Holds name value l := by
  -- the first line that holds both: it is the one at the front, or it comes later
  induction lines with
  | nil => cases hmem
  | cons l lines ih =>
    by_cases hl : Holds name value l
    · exact ⟨[], l, lines, rfl, hl, nofun⟩
    · have hrest : line ∈ lines :=
        (List.mem_cons.mp hmem).resolve_left fun heq => hl (heq ▸ hholds)
      obtain ⟨above, first, below, rfl, hfirst, habove⟩ := ih hrest
      exact ⟨l :: above, first, below, rfl, hfirst, List.forall_mem_cons.mpr ⟨hl, habove⟩⟩

/-- The lines above the first that holds the tokens only count, and those below it do not. -/
theorem firstLine?_append_cons {above : List Text} (habove : ∀ l ∈ above, ¬ Holds name value l)
    {column width : Nat} (hline : onLine? name value line = some (column, width))
    (below : List Text) (i : Nat) :
    firstLine? name value i (above ++ line :: below) =
      some (.ofCoordinates (i + above.length : Nat) column (i + above.length : Nat)
        (column + width : Nat)) := by
  -- the lines above are passed one by one, and the number of the line goes up
  induction above generalizing i with
  | nil =>
    rw [List.nil_append, firstLine?, hline]
    rfl
  | cons l above ih =>
    obtain ⟨hl, habove⟩ := List.forall_mem_cons.mp habove
    rw [List.cons_append, firstLine?, onLine?_eq_none hl]
    simp only [ih habove, List.length_cons]
    rw [Nat.add_assoc, Nat.add_comm 1]

private theorem firstLine?_eq_none {lines : List Text} (h : ∀ l ∈ lines, ¬ Holds name value l)
    (i : Nat) :
    firstLine? name value i lines = none := by
  induction lines generalizing i with
  | nil => rfl
  | cons l lines ih =>
    obtain ⟨hl, hlines⟩ := List.forall_mem_cons.mp h
    rw [firstLine?, onLine?_eq_none hl]
    exact ih hlines (i + 1)

/-- If one of some lines holds the tokens, then the range that is found lies on the first of those
that do, and spans the token there. -/
theorem firstLine?_eq_some {lines : List Text} (hmem : line ∈ lines)
    (hholds : Holds name value line) (i : Nat) :
    ∃ j before after, lines[j]? = some (before ++ (value.getD name ++ after)) ∧
      firstLine? name value i lines = some (.ofCoordinates (i + j : Nat) before.length (i + j : Nat)
        (before.length + (value.getD name).length : Nat)) ∧
      Holds name value (before ++ (value.getD name ++ after)) ∧
      ∀ l ∈ lines.take j, ¬ Holds name value l := by
  obtain ⟨above, first, below, rfl, hfirst, habove⟩ := exists_first_holding hmem hholds
  obtain ⟨⟨column, width⟩, hfound⟩ := Option.isSome_iff_exists.mp (onLine?_isSome_iff.mpr hfirst)
  obtain ⟨before, after, rfl, rfl, rfl⟩ := onLine?_eq_some hfound
  refine ⟨above.length, before, after, by simp, ?_, hfirst, ?_⟩
  · exact firstLine?_append_cons habove hfound below i
  · rw [List.take_left]
    exact habove

/-! ## Section 4: Tokens -/

/-- What is searched for a value that can be written: the value between quotation marks, a string as
it is and any other value as JSON. -/
def token : Json → Text
  | .str s => s.inQuotes
  | v => v.compact.inQuotes

/-- The token of an expected value; null and the empty string stand for no expectation. -/
def expectedToken? : Json → Option Text
  | .null => none
  | .str [] => none
  | v => some (token v)

variable {calls : Nat}

/-- A value that can be written is quoted, and the calls that are left do not show in the token. -/
private theorem quote_of_fits {v : Json} (h : v.Fits calls) : quote calls v = .ok (token v) := by
  cases v with
  | str s => rfl
  | _ => simp only [quote, Json.encode_of_fits h, token]

/-- A value that cannot be written is not quoted: showing it instead fails as well. -/
theorem quote_of_not_fits {v : Json} (h : ¬ v.Fits calls) : ∃ f, quote calls v = .error f := by
  obtain ⟨f, g, hwritten, hshown⟩ := Json.encode_of_not_fits h
  cases v with
  | str s => exact absurd (Json.fits_str calls s) h
  | _ =>
    simp only [quote, hwritten, hshown]
    split
    · exact ⟨f, rfl⟩
    · exact ⟨g, rfl⟩

/-- A fault of the writer ends the search at once if the stack is full, and otherwise if the value
cannot be shown either. -/
theorem quote_of_fault {v : Json} {f : Json.WriteFault} (hwrite : v.encodeFault? calls = some f)
    (hshow : f.isTooDeep = true ∨ v.showFault? calls = some f) : quote calls v = .error f := by
  have hwritten : v.encode calls = .error f := by rw [Json.encode, hwrite]
  -- a string is never written as JSON, so that it is not what failed
  have hquote : quote calls v =
      if f.isTooDeep then .error f else (v.shown calls).map Text.inQuotes := by
    cases v with
    | str s => cases hwrite
    | _ => simp only [quote, hwritten]
  rw [hquote]
  split
  · rfl
  · next hdeep => rw [Json.shown, hshow.resolve_left hdeep, Except.map]

/-- Null and the empty string stand for no expectation, and any other value is quoted. -/
theorem expectedToken_cases (calls : Nat) (expected : Json) :
    (expected = .null ∨ expected = .str []) ∧ expectedToken? expected = none ∧
        expectedToken calls expected = .ok none ∨
      (expected ≠ .null ∧ expected ≠ .str []) ∧
        expectedToken? expected = some (token expected) ∧
        expectedToken calls expected = (quote calls expected).map some := by
  match expected with
  | .null => exact .inl ⟨.inl rfl, rfl, rfl⟩
  | .str [] => exact .inl ⟨.inr rfl, rfl, rfl⟩
  | .str (c :: s) => exact .inr ⟨⟨nofun, nofun⟩, rfl, rfl⟩
  | .bool _ | .int _ | .float _ | .arr _ | .obj _ => exact .inr ⟨⟨nofun, nofun⟩, rfl, rfl⟩

/-- The token of a value that can be written does not depend on the calls that are left. -/
private theorem expectedToken_of_fits {expected : Json} (h : expected.Fits calls) :
    expectedToken calls expected = .ok (expectedToken? expected) := by
  rcases expectedToken_cases calls expected with ⟨-, hpure, htoken⟩ | ⟨-, hpure, htoken⟩
  · rw [htoken, hpure]
  · rw [htoken, hpure, quote_of_fits h]
    rfl

private theorem expectedToken_of_not_fits {expected : Json} (h : ¬ expected.Fits calls) :
    ∃ f, expectedToken calls expected = .error f := by
  rcases expectedToken_cases calls expected with ⟨hnone, -, -⟩ | ⟨-, -, htoken⟩
  · -- what stands for no expectation needs no writer
    rcases hnone with rfl | rfl
    · exact absurd ⟨Nat.zero_le _, Json.every_of_parts_eq rfl trivial⟩ h
    · exact absurd (Json.fits_str calls []) h
  · obtain ⟨f, hf⟩ := quote_of_not_fits h
    exact ⟨f, by rw [htoken, hf]; rfl⟩

/-! ## Section 5: Anchors -/

variable {text : Text}

/-- The range of a property in a text, or of its expected value, as it is for a value that can be
written. -/
def rangeOf (text name : Text) (expected : Json) : Range :=
  search text name.inQuotes (expectedToken? expected)

/-- An anchor is searched for exactly if the expected value can be written, and then it does not
depend on how many calls are left. -/
theorem locate_eq_ok_iff {expected : Json} {range : Range} :
    locate calls text name expected = .ok range ↔
      expected.Fits calls ∧ range = rangeOf text name expected := by
  rw [locate]
  by_cases h : expected.Fits calls
  · rw [expectedToken_of_fits h]
    exact ⟨fun hr => ⟨h, (Except.ok.inj hr).symm⟩, fun hr => congrArg _ hr.2.symm⟩
  · obtain ⟨f, hf⟩ := expectedToken_of_not_fits h
    rw [hf]
    exact iff_of_false nofun fun hr => h hr.1

/-- For a value that can be written the search is the one on an unlimited stack. -/
theorem locate_of_fits {expected : Json} (h : expected.Fits calls) :
    locate calls text name expected = .ok (rangeOf text name expected) :=
  locate_eq_ok_iff.mpr ⟨h, rfl⟩

private theorem inQuotes_ne_nil (s : Text) : s.inQuotes ≠ [] := List.cons_ne_nil _ _

/-- If a line holds the tokens, then the anchor covers the one that was searched for, on the first
line that holds them. -/
theorem rangeOf_covers (expected : Json) (hmem : line ∈ text.lines)
    (hholds : Holds name.inQuotes (expectedToken? expected) line)
    (hne : (expectedToken? expected).getD name.inQuotes ≠ []) :
    ∃ i, (rangeOf text name expected).CoversOnFirst text
      ((expectedToken? expected).getD name.inQuotes)
      (Holds name.inQuotes (expectedToken? expected)) i := by
  obtain ⟨j, before, after, hline, hfound, hsome, habove⟩ := firstLine?_eq_some hmem hholds 0
  refine ⟨j, hne, before, after, hline, ?_, hsome, habove⟩
  rw [rangeOf, search, hfound, Option.getD_some, Nat.zero_add]

/-- Without an expectation the anchor covers the name. -/
theorem rangeOf_name_covers {expected : Json} (hmem : line ∈ text.lines)
    (hname : name.inQuotes <:+: line) (hexpected : expectedToken? expected = none) :
    ∃ i, (rangeOf text name expected).CoversOnFirst text name.inQuotes (name.inQuotes <:+: ·) i := by
  have hcovers := rangeOf_covers expected hmem (by rwa [hexpected, holds_none])
  rw [hexpected] at hcovers
  obtain ⟨i, hi⟩ := hcovers (inQuotes_ne_nil name)
  exact ⟨i, hi.congr fun _ => holds_none⟩

/-- An expected string that is not empty is covered itself. -/
theorem rangeOf_value_covers {s : Text} (hs : s ≠ []) (hmem : line ∈ text.lines)
    (hname : name.inQuotes <:+: line) (hvalue : s.inQuotes <:+: line) :
    ∃ i, (rangeOf text name (.str s)).CoversOnFirst text s.inQuotes
      (fun line => name.inQuotes <:+: line ∧ s.inQuotes <:+: line) i := by
  -- an empty string has no token; this one is not empty
  have hexpected : expectedToken? (.str s) = some s.inQuotes := by
    cases s with
    | nil => exact absurd rfl hs
    | cons c s => rfl
  have hcovers := rangeOf_covers (.str s) hmem
    (by rw [hexpected]; exact holds_some.mpr ⟨hname, hvalue⟩)
  rw [hexpected] at hcovers
  obtain ⟨i, hi⟩ := hcovers (inQuotes_ne_nil s)
  exact ⟨i, hi.congr fun _ => holds_some⟩

/-! ## Section 6: Where an anchor lies -/

/-- A line shows a property: it holds the quoted name and, unless null or the empty string stands
for no expectation, the quoted value. -/
def Shows (name : Text) (expected : Json) (line : Text) : Prop :=
  name.inQuotes <:+: line ∧
    (expected = .null ∨ expected = .str [] ∨ token expected <:+: line)

/-- What an anchor spans: the quoted value if one is expected, and else the quoted name. -/
def sought (name : Text) : Json → Text
  | .null => name.inQuotes
  | .str [] => name.inQuotes
  | v => token v

private theorem holds_iff_shows {expected : Json} :
    Holds name.inQuotes (expectedToken? expected) line ↔ Shows name expected line := by
  rcases expectedToken_cases 0 expected with ⟨hnone, h, -⟩ | ⟨⟨hnull, hempty⟩, h, -⟩
  · rw [h, holds_none, Shows]
    exact (and_iff_left (hnone.imp_right .inl)).symm
  · rw [h, holds_some, Shows, or_iff_right hnull, or_iff_right hempty]

private theorem getD_expectedToken? (name : Text) (expected : Json) :
    (expectedToken? expected).getD name.inQuotes = sought name expected := by
  match expected with
  | .null | .str [] | .str (c :: s) | .bool _ | .int _ | .float _ | .arr _ | .obj _ => rfl

private theorem sought_ne_nil (name : Text) (expected : Json) : sought name expected ≠ [] := by
  match expected with
  | .null | .str [] | .str (c :: s) | .bool _ | .int _ | .float _ | .arr _ | .obj _ =>
    exact inQuotes_ne_nil _

/-- Without a line that shows the property, the anchor is the empty range at the start. -/
theorem rangeOf_eq_zero {expected : Json} (h : ∀ line ∈ text.lines, ¬ Shows name expected line) :
    rangeOf text name expected = Range.zero := by
  rw [rangeOf, search, firstLine?_eq_none fun l hl hholds => h l hl (holds_iff_shows.mp hholds)]
  rfl

/-- On the first line that shows the property, the anchor marks the first occurrence of its token,
and it does so in every text that begins with the same lines. -/
theorem exists_marks_rangeOf {expected : Json} (hmem : line ∈ text.lines)
    (hshows : Shows name expected line) :
    ∃ i column first, (rangeOf text name expected).Marks text (sought name expected)
        (Shows name expected) i column first ∧
      ∀ other : Text, other.lines.take (i + 1) = text.lines.take (i + 1) →
        rangeOf other name expected = rangeOf text name expected := by
  obtain ⟨above, first, below, hlines, hfirst, habove⟩ :=
    exists_first_holding hmem (holds_iff_shows.mpr hshows)
  obtain ⟨⟨column, width⟩, hfound⟩ := Option.isSome_iff_exists.mp (onLine?_isSome_iff.mpr hfirst)
  -- the range does not depend on what comes below the line
  have hlocate (other : Text) (rest : List Text) (hother : other.lines = above ++ first :: rest) :
      rangeOf other name expected =
        .ofCoordinates above.length column above.length (column + width : Nat) := by
    rw [rangeOf, search, hother, firstLine?_append_cons habove hfound rest 0, Nat.zero_add]
    rfl
  have hleftmost : ∀ k < column, ¬ sought name expected <+: first.drop k := by
    intro k hk
    rw [← getD_expectedToken?]
    exact onLine?_leftmost hfound hk
  obtain ⟨before, after, hsplit, hcolumn, hwidth⟩ := onLine?_eq_some hfound
  rw [getD_expectedToken?] at hsplit hwidth
  refine ⟨above.length, column, first,
    ⟨?_, holds_iff_shows.mp hfirst, ?_, hleftmost, ?_, ?_, ?_⟩, ?_⟩
  · simp [hlines]
  · intro l hl hshows
    rw [hlines, List.take_left] at hl
    exact habove l hl (holds_iff_shows.mpr hshows)
  · rw [hsplit, hcolumn, List.drop_left, List.take_left]
  · rw [hsplit, hcolumn, List.length_append, List.length_append]
    omega
  · rw [hlocate text below hlines, hwidth]
  · intro other hother
    have hsame : other.lines.take (above.length + 1) = above ++ [first] := by
      rw [hother, hlines, List.append_cons]
      exact List.take_left' (by simp)
    have hother : other.lines = above ++ first :: other.lines.drop (above.length + 1) := by
      conv_lhs => rw [← List.take_append_drop (above.length + 1) other.lines, hsame]
      rw [List.append_assoc, List.singleton_append]
    rw [hlocate other _ hother, hlocate text below hlines]

/-- A range that is searched for is the empty one, or any empty range, exactly if no line shows the
property. -/
theorem rangeOf_eq_zero_iff {expected : Json} :
    (rangeOf text name expected = Range.zero ↔ ∀ line ∈ text.lines, ¬ Shows name expected line) ∧
    ((rangeOf text name expected).isDegenerate = true ↔
      ∀ line ∈ text.lines, ¬ Shows name expected line) := by
  -- a range that covers something is not degenerate
  have hzero (h : (rangeOf text name expected).isDegenerate = true) :
      ∀ line ∈ text.lines, ¬ Shows name expected line := by
    intro line hmem hshows
    obtain ⟨i, column, first, hmarks, -⟩ := exists_marks_rangeOf hmem hshows
    rw [(hmarks.covers (sought_ne_nil name expected)).not_degenerate] at h
    cases h
  refine ⟨⟨fun h => hzero (by rw [h]; rfl), rangeOf_eq_zero⟩, ⟨hzero, fun h => ?_⟩⟩
  rw [rangeOf_eq_zero h]
  rfl

/-- There is an anchor exactly if the expected value can be written.  It is the empty range, or any
empty range, exactly if no line shows the property; otherwise it lies on the first line that does,
where its token stands for the first time on that line, and nothing below that line changes it. -/
theorem locate_marks_first (calls : Nat) (text name : Text) (expected : Json) :
    ((∃ range, locate calls text name expected = .ok range) ↔ expected.Fits calls) ∧
    ∀ range, locate calls text name expected = .ok range →
      (range = Range.zero ↔ ∀ line ∈ text.lines, ¬ Shows name expected line) ∧
      (range.isDegenerate = true ↔ ∀ line ∈ text.lines, ¬ Shows name expected line) ∧
      ((∃ line ∈ text.lines, Shows name expected line) → ∃ i column first,
        range.Marks text (sought name expected) (Shows name expected) i column first ∧
        ∀ other : Text, other.lines.take (i + 1) = text.lines.take (i + 1) →
          locate calls other name expected = .ok range) := by
  refine ⟨⟨fun ⟨range, h⟩ => (locate_eq_ok_iff.mp h).1, fun h => ⟨_, locate_of_fits h⟩⟩, ?_⟩
  intro range hrange
  obtain ⟨hfits, rfl⟩ := locate_eq_ok_iff.mp hrange
  refine ⟨rangeOf_eq_zero_iff.1, rangeOf_eq_zero_iff.2, ?_⟩
  rintro ⟨line, hmem, hshows⟩
  obtain ⟨i, column, first, hmarks, hsame⟩ := exists_marks_rangeOf hmem hshows
  refine ⟨i, column, first, hmarks, fun other hother => ?_⟩
  rw [locate_of_fits hfits, hsame other hother]

/-- A fault in quoting the expected value is the fault of the search. -/
theorem locate_of_fault {v : Json} {f : Json.WriteFault} (hwrite : v.encodeFault? calls = some f)
    (hshow : f.isTooDeep = true ∨ v.showFault? calls = some f) :
    locate calls text name v = .error f := by
  rcases expectedToken_cases calls v with ⟨hnone, -, -⟩ | ⟨-, -, htoken⟩
  · rcases hnone with rfl | rfl <;> cases hwrite
  · rw [locate, htoken, quote_of_fault hwrite hshow]
    rfl

/-- An integer of too many digits and an array that is nested too deeply have no anchor, not even
the empty range, although nothing is wrong with the text. -/
theorem unwritable_not_located :
    locate Json.callsLeft "\"a\": 1" "a" (.int (Nat.pow 10 Json.maxIntegerDigits : Nat)) =
        .error .longInteger ∧
      locate Json.callsLeft "\"a\": 1" "a" (Json.arrays 1000) = .error .tooDeepToWrite := by
  -- ten to the limit has one digit too many; the power is compared, never computed
  have hlong : Json.fitsDigits (Nat.pow 10 Json.maxIntegerDigits : Nat) = false := by
    rw [Json.fitsDigits, Int.natAbs_natCast]
    exact decide_eq_false (Nat.lt_irrefl _)
  have hscan (deep : Json.WriteFault) :
      Json.scanFault? deep Json.callsLeft (.int (Nat.pow 10 Json.maxIntegerDigits : Nat)) =
        some .longInteger := by
    rw [Json.scanFault?, hlong, if_neg Bool.false_ne_true]
  exact ⟨locate_of_fault (hscan _) (.inr (hscan _)),
    locate_of_fault (Json.scanFault?_arrays (by decide)) (.inl rfl)⟩

end Anchor

end FormSchema
