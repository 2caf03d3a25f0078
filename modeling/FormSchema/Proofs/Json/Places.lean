import FormSchema.Proofs.Json.Reread
import FormSchema.Proofs.Text.Occurrences

/-!
# Where entries stand

The entries inside a value, at any depth, and where they stand in its text: the name of an entry and
a string under it always stand on one line, since a line ends only between entries or items, and no
string is printed with a line feed in it.
-/

namespace FormSchema.Json

variable {v w u : Json} {name : Text}

/-! ## Section 1: Entries inside a value -/

/-- Whether an object somewhere inside `v` has `u` under a name. -/
def HasEntry (v : Json) (name : Text) (u : Json) : Prop := ∃ es, obj es ∈ v.parts ∧ (name, u) ∈ es

/-- An entry in an array is one in an item. -/
theorem hasEntry_arr {items : List Json} :
    (arr items).HasEntry name u ↔ ∃ v ∈ items, v.HasEntry name u := by
  simp only [HasEntry, parts, partsOfItems_eq_flatMap, List.mem_cons, List.mem_flatMap,
    reduceCtorEq, false_or]
  constructor
  · rintro ⟨es, ⟨v, hv, hes⟩, hmem⟩
    exact ⟨v, hv, es, hes, hmem⟩
  · rintro ⟨v, hv, es, hes, hmem⟩
    exact ⟨es, ⟨v, hv, hes⟩, hmem⟩

/-- An entry in an object is its own or one in a value. -/
theorem hasEntry_obj {es : Entries Json} :
    (obj es).HasEntry name u ↔ (name, u) ∈ es ∨ ∃ e ∈ es, e.2.HasEntry name u := by
  simp only [HasEntry, parts, partsOfEntries_eq_flatMap, List.mem_cons, List.mem_flatMap,
    obj.injEq]
  constructor
  · rintro ⟨fs, rfl | ⟨e, he, hfs⟩, hmem⟩
    · exact .inl hmem
    · exact .inr ⟨e, he, fs, hfs, hmem⟩
  · rintro (hmem | ⟨e, he, fs, hfs, hmem⟩)
    · exact ⟨es, .inl rfl, hmem⟩
    · exact ⟨fs, .inr ⟨e, he, hfs⟩, hmem⟩

/-- A value without parts of its own has no entries. -/
theorem not_hasEntry (hparts : v.parts = [v]) (hv : v.entries? = none) : ¬ v.HasEntry name u := by
  rintro ⟨es, hes, _⟩
  rw [hparts, List.mem_singleton] at hes
  rw [← hes] at hv
  cases hv

/-- A number has no entries. -/
theorem IsNumber.not_hasEntry (h : v.IsNumber) : ¬ v.HasEntry name u := by
  cases v with
  | int n => exact Json.not_hasEntry rfl rfl
  | float x => exact Json.not_hasEntry rfl rfl
  | _ => cases h

private theorem hasEntry_arr_map {f : Json → Json} {items : List Json} :
    (arr (items.map f)).HasEntry name w ↔ ∃ v ∈ items, (f v).HasEntry name w := by
  simp only [hasEntry_arr, List.mem_map, exists_exists_and_eq_and]

private theorem hasEntry_obj_map {f : Json → Json} {es : Entries Json} :
    (obj (es.map fun e => (e.1, f e.2))).HasEntry name w ↔
      (∃ u, (name, u) ∈ es ∧ w = f u) ∨ ∃ e ∈ es, (f e.2).HasEntry name w := by
  rw [hasEntry_obj]
  apply or_congr
  · rw [List.mem_map]
    constructor
    · rintro ⟨e, he, heq⟩
      cases heq
      exact ⟨e.2, he, rfl⟩
    · rintro ⟨u, hu, rfl⟩
      exact ⟨(name, u), hu, rfl⟩
  · simp only [List.mem_map, exists_exists_and_eq_and]

/-- Putting members in order makes up no entries. -/
theorem HasEntry.of_ofMembers {ms : Entries Json}
    (h : (obj (Entries.ofMembers ms)).HasEntry name w) : (obj ms).HasEntry name w := by
  rw [hasEntry_obj] at h ⊢
  rcases h with hmem | ⟨e, he, hentry⟩
  · exact .inl (Entries.mem_of_mem_ofMembers hmem)
  · exact .inr ⟨e, Entries.mem_of_mem_ofMembers he, hentry⟩

/-- The entries of the value of a tree are entries of the tree, each with its value. -/
theorem HasEntry.of_merge (h : v.merge.HasEntry name w) : ∃ u, v.HasEntry name u ∧ w = u.merge := by
  -- a merged object has no entry that it did not have before
  induction v using inductionOn with
  | null | bool _ | int _ | float _ | str _ => exact absurd h (not_hasEntry rfl rfl)
  | arr items ih =>
    rw [merge_arr, hasEntry_arr_map] at h
    obtain ⟨x, hx, hentry⟩ := h
    obtain ⟨u, hu, hw⟩ := ih x hx hentry
    exact ⟨u, hasEntry_arr.mpr ⟨x, hx, hu⟩, hw⟩
  | obj es ih =>
    rw [merge_obj] at h
    rcases hasEntry_obj_map.mp h.of_ofMembers with ⟨u, hmem, hw⟩ | ⟨e, he, hentry⟩
    · exact ⟨u, hasEntry_obj.mpr (.inl hmem), hw⟩
    · obtain ⟨u, hu, hw⟩ := ih e he hentry
      exact ⟨u, hasEntry_obj.mpr (.inr ⟨e, he, hu⟩), hw⟩

/-- The entries of a value that is read back are those of the value that was printed. -/
theorem HasEntry.of_reread (h : v.reread.HasEntry name w) :
    ∃ u, v.HasEntry name u ∧ w = u.reread := by
  -- objects keep their entries, and a number has none
  induction v using inductionOn with
  | null | bool _ | int _ | str _ => exact absurd h (not_hasEntry rfl rfl)
  | float x => exact absurd h (isNumber_rereadFloat x).not_hasEntry
  | arr items ih =>
    rw [reread_arr, hasEntry_arr_map] at h
    obtain ⟨x, hx, hentry⟩ := h
    obtain ⟨u, hu, hw⟩ := ih x hx hentry
    exact ⟨u, hasEntry_arr.mpr ⟨x, hx, hu⟩, hw⟩
  | obj es ih =>
    rw [reread_obj] at h
    rcases hasEntry_obj_map.mp h with ⟨u, hmem, hw⟩ | ⟨e, he, hentry⟩
    · exact ⟨u, hasEntry_obj.mpr (.inl hmem), hw⟩
    · obtain ⟨u, hu, hw⟩ := ih e he hentry
      exact ⟨u, hasEntry_obj.mpr (.inr ⟨e, he, hu⟩), hw⟩

/-- Only a string is read back as a string. -/
theorem eq_str_of_reread {s : Text} (h : u.reread.merge = .str s) : u = .str s := by
  cases u with
  | str t => exact h
  | float x =>
    -- a number is read as a number
    have hnumber := isNumber_rereadFloat x
    rw [reread] at h
    cases hx : rereadFloat x with
    | int n =>
      rw [hx] at h
      cases h
    | float y =>
      rw [hx] at h
      cases h
    | _ =>
      rw [hx] at hnumber
      cases hnumber
  | _ => cases h

/-! ## Section 2: Entries in the text -/

/-- Each of the joined texts is found in the whole. -/
theorem infix_join {sep p : Text} {ps : List Text} (h : p ∈ ps) : p <:+: Text.join sep ps := by
  obtain ⟨before, after, rfl⟩ := List.append_of_mem h
  rw [Text.join_append_cons]
  exact List.infix_append _ _ _

/-- What is printed for a part of an array or object stands between the brackets. -/
theorem infix_enclose {style : Style} {depth : Nat} {opening closing : Char} {p : Text}
    {ps : List Text} (h : p ∈ ps) : p <:+: style.enclose depth opening closing ps := by
  have hne : ¬ ps.isEmpty = true := by
    rw [List.isEmpty_iff]
    exact List.ne_nil_of_mem h
  rw [Style.enclose, if_neg hne, List.append_assoc]
  exact (infix_join h).trans (List.infix_append _ _ _)

private theorem HasEntry.infix_printAt (style : Style) (h : v.HasEntry name u) (depth : Nat) :
    ∃ n, entryText style n (name, u) <:+: printAt style depth v := by
  induction v using inductionOn generalizing depth with
  | null | bool _ | int _ | float _ | str _ => exact absurd h (not_hasEntry rfl rfl)
  | arr items ih =>
    obtain ⟨x, hx, hentry⟩ := hasEntry_arr.mp h
    obtain ⟨n, hn⟩ := ih x hx hentry (depth + 1)
    rw [printAt, printItems_eq_map]
    exact ⟨n, hn.trans (infix_enclose (List.mem_map_of_mem hx))⟩
  | obj es ih =>
    rw [printAt, printEntries_eq_map]
    rcases hasEntry_obj.mp h with hmem | ⟨e, he, hentry⟩
    · exact ⟨depth + 1, infix_enclose (List.mem_map_of_mem hmem)⟩
    · obtain ⟨n, hn⟩ := ih e he hentry (depth + 1)
      -- the value of an entry ends the text of the entry
      have hsuffix : printAt style (depth + 1) e.2 <:+ entryText style (depth + 1) e :=
        List.suffix_append _ _
      exact ⟨n, (hn.trans hsuffix.isInfix).trans (infix_enclose (List.mem_map_of_mem he))⟩

/-! ## Section 3: Lines -/

/-- The part of an entry in front of its value, and the value too if it is a string, has no line
feed in it. -/
theorem exists_piece (indent : Option Nat) (depth : Nat) (name : Text) (u : Json) :
    ∃ piece, CodePoint.lineFeed ∉ piece ∧
      piece <:+: entryText (canonicalStyle indent) depth (name, u) ∧
      printString false name <:+: piece ∧ ∀ s, u = .str s → printString false s <:+: piece := by
  have hname := lineFeed_not_mem_printString false name
  have hentry : entryText (canonicalStyle indent) depth (name, u) = printString false name ++
      .scalar ':' :: .scalar ' ' :: printAt (canonicalStyle indent) depth u := by
    rw [entryText, printEntry, List.append_assoc]
    rfl
  rw [hentry]
  cases u with
  | str t =>
    -- a string is printed on the line of its name; for other values the piece holds the name alone
    refine ⟨_, ?_, List.infix_refl _, (List.prefix_append _ _).isInfix, ?_⟩
    · have hvalue := lineFeed_not_mem_printString false t
      simp only [List.mem_append, List.mem_cons, not_or]
      exact ⟨hname, by decide, by decide, hvalue⟩
    · rintro s ⟨⟩
      rw [List.append_cons, List.append_cons]
      exact (List.suffix_append _ _).isInfix
  | _ =>
    refine ⟨_, hname, (List.prefix_append _ _).isInfix, List.infix_refl _, fun s hs => ?_⟩
    cases hs

/-- The entries that are read of a canonical text are those of the value that was printed. -/
theorem HasEntry.of_parse_canonical {indent : Option Nat} (h : w.HasEntry name u)
    (hp : parse (v.canonical indent) = .ok w) :
    ∃ x, v.sortNames.HasEntry name x ∧ u = x.reread.merge := by
  rw [eq_of_parse_canonical hp] at h
  obtain ⟨y, hy, rfl⟩ := h.of_merge
  obtain ⟨x, hx, rfl⟩ := hy.of_reread
  exact ⟨x, hx, rfl⟩

/-- The name of an entry that is read of a canonical text, and the string under it if it is one,
stand on one line. -/
theorem HasEntry.exists_line {indent : Option Nat} (h : w.HasEntry name u)
    (hp : parse (v.canonical indent) = .ok w) :
    ∃ line ∈ Text.lines (v.canonical indent), printString false name <:+: line ∧
      ∀ s, u = .str s → printString false s <:+: line := by
  obtain ⟨x, hx, rfl⟩ := h.of_parse_canonical hp
  obtain ⟨depth, hentry⟩ := hx.infix_printAt (canonicalStyle indent) 0
  obtain ⟨piece, hline, hpiece, hname, hvalue⟩ := exists_piece indent depth name x
  have htext : piece <:+: v.canonical indent :=
    (hpiece.trans hentry).trans (List.prefix_append _ _).isInfix
  obtain ⟨line, hmem, hinfix⟩ := Text.exists_line_of_infix htext hline
  refine ⟨line, hmem, hname.trans hinfix, fun s hs => ?_⟩
  exact (hvalue s (eq_str_of_reread hs)).trans hinfix

end FormSchema.Json
